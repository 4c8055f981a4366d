import EvenPad.Op.Inference
import EvenPad.Proofs.Conv.Resolve
import EvenPad.Proofs.Volume

/-!
What resolving a convolution tells. Main statements: a resolved window whose pads are uneven has
one entry for each spatial axis in each of its lists (`resolveTransposed_ofRank`), a transposed
convolution that is asked for an output shape has it (`resolveTransposed_requested`), and only
constants and sources have facts with values (`value?_of_outputFact`).
-/

namespace EvenPad

variable {w : Window} {rank : Nat} {t : ConvTraits} {data filters : Fact} {resolved : Resolution}
  {outputShape : Option Fact}

/-- Lengths are known when every extent is fixed. -/
theorem Extent.mapM_length?_eq_some {extents : List Extent} {lengths : List Nat} :
    extents.mapM Extent.length? = some lengths ↔ extents = lengths.map .fixed := by
  induction extents generalizing lengths with
  | nil => cases lengths <;> simp
  | cons e rest ih =>
    rw [List.mapM_cons]
    cases e <;> cases lengths <;> simp [Option.bind_eq_some_iff, ih, and_comm]

theorem Window.checkRank_eq_ok {u : Unit} (check : w.checkRank rank = .ok u) : w.OfRank rank := by
  simp only [checkRank, lengths, Checked.bind_eq_ok] at check
  obtain ⟨_, lengths, -⟩ := check
  have lengths := Checked.forM_eq_ok_iff.1 lengths
  simp only [List.forall_mem_cons, Checked.require_eq_ok, decide_eq_true_eq] at lengths
  obtain ⟨strides, dilations, padsBegin, padsEnd, -⟩ := lengths
  exact ⟨strides, dilations, padsBegin, padsEnd⟩

/-- Clearing pads keeps their number. -/
theorem Window.OfRank.clearPads (ofRank : w.OfRank rank) : w.clearPads.OfRank rank where
  strides := ofRank.strides
  dilations := ofRank.dilations
  padsBegin := by simp [Window.clearPads, ofRank.padsBegin]
  padsEnd := by simp [Window.clearPads, ofRank.padsEnd]

namespace Conv

variable {operands : Operands} {filterRank : Nat → Cause} {channels : Extent → Extent → Cause}

/-- Operands that fit move over as many axes as they are asked for. -/
theorem checkOperands_eq_ok
    (check : checkOperands t w data filters rank filterRank channels = .ok operands) :
    operands.window = w.withDefaults rank ∧ operands.window.OfRank rank := by
  simp only [checkOperands, Checked.bind_eq_ok] at check
  obtain ⟨_, -, check⟩ := check
  split at check
  · simp only [Checked.bind_eq_ok, Checked.pure_eq_ok] at check
    obtain ⟨_, -, _, ranked, _, -, _, -, _, -, _, -, _, -, rfl⟩ := check
    exact ⟨rfl, Window.checkRank_eq_ok ranked⟩
  · simp only [Checked.bind_eq_ok, Checked.pure_eq_ok] at check
    obtain ⟨_, ranked, _, -, _, -, _, -, _, -, _, -, rfl⟩ := check
    exact ⟨rfl, Window.checkRank_eq_ok ranked⟩

/-- Pads that cut an output down to a wanted length: one for each axis. -/
theorem ofRank_of_samePadsFor {input kernel wanted : List Nat} {padsBegin padsEnd : List Int}
    (ofRank : w.OfRank rank)
    (pads : w.samePadsFor input kernel wanted = .ok (padsBegin, padsEnd)) :
    Window.OfRank { w with padsBegin, padsEnd } rank := by
  simp only [Window.samePadsFor, Checked.bind_eq_ok, Window.checkLengths_eq_ok,
    List.forall_mem_cons, Checked.pure_eq_ok, List.unzip_eq_map, Prod.mk.injEq] at pads
  obtain ⟨_, ⟨kernels, wanteds, strides, dilations, paddings, -⟩, rfl, rfl⟩ := pads
  have inputs : input.length = rank := strides.symm.trans ofRank.strides
  refine ⟨ofRank.strides, ofRank.dilations, ?_, ?_⟩ <;>
    simp [kernels, wanteds, paddings, ofRank.strides, ofRank.dilations, inputs]

/-- Pads that are derived when an output shape is asked for: one for each axis. -/
theorem ofRank_of_requestedPads {requested : Option (List Nat)} {padsKnown : Bool}
    (ofRank : operands.window.OfRank rank)
    (pads : requestedPads operands requested = .ok (w, padsKnown)) : w.OfRank rank := by
  unfold requestedPads at pads
  dsimp only at pads
  split at pads
  · obtain ⟨rfl, -⟩ := Prod.mk.inj (Except.ok.inj pads)
    exact ofRank
  · obtain ⟨rfl, -⟩ := Prod.mk.inj (Except.ok.inj pads)
    exact ofRank.clearPads
  -- the two SAME modes
  all_goals
    split at pads
    · simp only [Checked.bind_eq_ok, Checked.pure_eq_ok, Prod.mk.injEq, Prod.exists] at pads
      obtain ⟨padsBegin, padsEnd, pads, rfl, -⟩ := pads
      exact ofRank_of_samePadsFor ofRank pads
    · obtain ⟨rfl, -⟩ := Prod.mk.inj (Except.ok.inj pads)
      exact ofRank

/-- The window of a transposed convolution over a known number of axes, and its spatial extents:
those that it is asked for. -/
theorem transposedSpatial_eq_ok {hasOutputShape padsKnown : Bool} {requested : Option (List Nat)}
    {spatial : List Extent} (ofRank : operands.window.OfRank rank)
    (resolves : transposedSpatial operands rank hasOutputShape requested =
      .ok (w, padsKnown, spatial)) :
    w.OfRank rank ∧ (hasOutputShape = true → ∀ wanted, requested = some wanted →
      wanted.length = rank ∧ spatial = wanted.map .fixed) := by
  obtain ⟨-, lengths, pads, rfl⟩ | ⟨without, -, rfl, -⟩ := transposedSpatial_eq_ok_iff.1 resolves
  · refine ⟨ofRank_of_requestedPads ofRank pads, ?_⟩
    rintro - wanted rfl
    exact ⟨lengths wanted rfl, rfl⟩
  · refine ⟨?_, by simp [without]⟩
    split
    · exact ofRank
    · exact ofRank.clearPads

/-- A window with uneven pads tells how many axes there are. -/
theorem spatialRank?_of_isAsymmetric (uneven : w.isAsymmetric = true) :
    (spatialRank? t w data filters).isSome := by
  have told : w.spatialRank?.isSome := by
    unfold Window.spatialRank?
    rw [List.find?_isSome]
    by_contra none
    simp only [List.mem_cons, List.not_mem_nil, or_false, decide_eq_true_eq, not_exists, not_and,
      forall_eq_or_imp, forall_eq, Nat.not_lt, Nat.le_zero, List.length_eq_zero_iff] at none
    obtain ⟨-, -, padsBegin, padsEnd, -⟩ := none
    simp [Window.isAsymmetric, padsBegin, padsEnd] at uneven
  unfold spatialRank?
  simp [Option.isSome_or, told]

/-- A transposed convolution whose pads are uneven moves over a known number of axes. -/
theorem resolveTransposed_ofRank
    (resolves : resolveTransposed t w data filters outputShape = .ok resolved)
    (uneven : resolved.window.isAsymmetric = true) : ∃ rank, resolved.window.OfRank rank := by
  obtain ⟨type, requested, -, -,
      ⟨untold, rfl⟩ | ⟨rank, operands, spatial, -, checked, spatials, -⟩⟩ :=
    resolveTransposed_eq_ok_iff.1 resolves
  · have told : (spatialRank? t w data filters).isSome := spatialRank?_of_isAsymmetric uneven
    simp [(Option.or_eq_none_iff.1 untold).1] at told
  · exact ⟨rank, (transposedSpatial_eq_ok (checkOperands_eq_ok checked).2 spatials).1⟩

/-- An output has the axes of its batch, of its channels, and of space. -/
theorem shape_of_outputFact {type : ElementType} {spatial : List Extent} {fact : Fact}
    (output : outputFact t type data filters spatial = .ok fact) :
    ∃ batch channels, fact.shape = .ranked (batch :: channels :: spatial) := by
  simp only [outputFact, Checked.bind_eq_ok, Checked.pure_eq_ok] at output
  obtain ⟨batch, -, channels, -, rfl⟩ := output
  exact ⟨batch, channels, rfl⟩

/-- A transposed convolution that is asked for an output shape has that. -/
theorem resolveTransposed_requested {fact : Fact} {wanted : List Nat}
    (resolves : resolveTransposed t w data filters (some fact) = .ok resolved)
    (requested : requestedShape fact = .ok (some wanted)) :
    ∃ batch channels, resolved.fact.shape = .ranked (batch :: channels :: wanted.map .fixed) := by
  obtain ⟨type, _, -, asked, cases⟩ := resolveTransposed_eq_ok_iff.1 resolves
  cases requested.symm.trans asked
  obtain ⟨untold, -⟩ | ⟨rank, operands, spatial, -, checked, spatials, output⟩ := cases
  · simp at untold
  · obtain ⟨-, rfl⟩ :=
      (transposedSpatial_eq_ok (checkOperands_eq_ok checked).2 spatials).2 rfl wanted rfl
    exact shape_of_outputFact output

/-- The integers of a constant that is asked for as a shape, none of which is negative. -/
theorem requestedShape_vector {lengths : List Int} {requested : Option (List Nat)}
    (asked : requestedShape (.constant (.vector lengths)) = .ok requested) :
    requested = some (lengths.map Int.toNat) := by
  simp only [requestedShape, Fact.constant, Tensor.naturals, Tensor.integers, Tensor.vector,
    Checked.bind_eq_ok, Checked.pure_eq_ok, Checked.mapM_eq_ok_iff,
    Checked.require_eq_ok] at asked
  obtain ⟨_, -, _, -, wanted, ⟨_, same, naturals⟩, rfl⟩ := asked
  cases Except.ok.inj same
  congr 1
  rw [← List.forall₂_eq_eq_eq, List.forall₂_map_right_iff]
  refine naturals.flip.imp fun n v natural => ?_
  obtain ⟨_, -, rfl⟩ := natural
  rfl

theorem resolveTransposed_vector {lengths : List Int}
    (resolves : resolveTransposed t w data filters (some (.constant (.vector lengths))) =
      .ok resolved) :
    ∃ batch channels,
      resolved.fact.shape =
        .ranked (batch :: channels :: (lengths.map Int.toNat).map .fixed) := by
  obtain ⟨-, requested, -, asked, -⟩ := resolveTransposed_eq_ok_iff.1 resolves
  have asked : requestedShape (.constant (.vector lengths)) = .ok requested := asked
  cases requestedShape_vector asked
  exact resolveTransposed_requested resolves asked

end Conv

/-! ## Facts of outputs -/

/-- A transposed convolution that gets a constant output shape has it. -/
theorem outputFact_deconv_vector {kind : ConvKind} {lengths : List Int} {fact : Fact}
    (inferred : (Op.deconv kind w true).outputFact [data, filters, .constant (.vector lengths)] =
      .ok fact) :
    ∃ batch channels,
      fact.shape = .ranked (batch :: channels :: (lengths.map Int.toNat).map .fixed) := by
  simp only [Op.outputFact, Conv.resolveDeconv, Conv.deconvInputs, Checked.exceptMap_eq_ok,
    Checked.bind_eq_ok, Checked.require_eq_ok] at inferred
  obtain ⟨resolved, ⟨inputs, ⟨_, transposed, roles⟩, resolves⟩, rfl⟩ := inferred
  have addend : kind.traits.takesAddend = false := by cases kind <;> simp_all [ConvKind.traits]
  simp only [Conv.transposedInputs, addend] at roles
  cases Except.ok.inj roles
  exact Conv.resolveTransposed_vector resolves

/-- The fact of a transposed convolution with an addend is that of the convolution. -/
theorem fusedFact_eq_ok {takesOutputShape : Bool} {built fact : Fact} {inputs : List Fact}
    (inferred : Op.fusedFact w takesOutputShape built inputs = .ok fact) :
    ∃ resolved, Conv.resolveFused w takesOutputShape inputs = .ok resolved ∧
      resolved.fact = fact := by
  simp only [Op.fusedFact, Checked.bind_eq_ok] at inferred
  obtain ⟨resolved, resolves, i, -, inferred⟩ := inferred
  refine ⟨resolved, resolves, ?_⟩
  cases addend : i.addend with
  | none =>
    simp only [addend, Checked.bind_eq_ok, Checked.pure_eq_ok] at inferred
    obtain ⟨_, -, same⟩ := inferred
    exact same
  | some _ =>
    simp only [addend, Checked.bind_eq_ok, Checked.pure_eq_ok] at inferred
    obtain ⟨_, -, _, -, same⟩ := inferred
    exact same

theorem Conv.value?_of_outputFact {type : ElementType} {spatial : List Extent} {fact : Fact}
    (output : Conv.outputFact t type data filters spatial = .ok fact) : fact.value? = none := by
  simp only [Conv.outputFact, Checked.bind_eq_ok, Checked.pure_eq_ok] at output
  obtain ⟨_, -, _, -, rfl⟩ := output
  rfl

theorem Conv.value?_of_resolveForward {kind : ConvKind} {inputs : List Fact}
    (resolves : Conv.resolveForward kind w inputs = .ok resolved) :
    resolved.fact.value? = none := by
  obtain ⟨data, filters, rfl⟩ := Conv.operands_of_resolveForward resolves
  obtain ⟨-, _, -, ⟨-, rfl⟩ | ⟨_, _, _, -, -, -, -, output⟩⟩ :=
    Conv.resolveForward_eq_ok_iff.1 resolves
  · rfl
  · exact value?_of_outputFact output

theorem Conv.value?_of_resolveTransposed
    (resolves : resolveTransposed t w data filters outputShape = .ok resolved) :
    resolved.fact.value? = none := by
  obtain ⟨_, _, -, -, ⟨-, rfl⟩ | ⟨_, _, _, -, -, -, output⟩⟩ :=
    resolveTransposed_eq_ok_iff.1 resolves
  · rfl
  · exact value?_of_outputFact output

theorem Pad.value?_of_outputFact {begins ends fact : Fact} {value : Option Fact}
    (output : Pad.outputFact data begins ends value = .ok fact) : fact.value? = none := by
  simp only [Pad.outputFact, Checked.bind_eq_ok] at output
  obtain ⟨_, -, _, -, _, -, output⟩ := output
  cases value <;> simp only [Checked.bind_eq_ok, Checked.pure_eq_ok] at output <;>
    obtain ⟨_, -, _, -, rfl⟩ := output <;> rfl

theorem StridedSlice.value?_of_outputFact {beginMask endMask : AxisMask} {begins ends fact : Fact}
    {strides : Option Fact}
    (output : StridedSlice.outputFact beginMask endMask data begins ends strides = .ok fact) :
    fact.value? = none := by
  simp only [StridedSlice.outputFact, Checked.bind_eq_ok] at output
  obtain ⟨_, -, _, -, output⟩ := output
  cases strides <;> simp only [Checked.bind_eq_ok, Checked.pure_eq_ok] at output <;>
    obtain ⟨_, -, _, -, _, -, rfl⟩ := output <;> rfl

/-- Nothing but constants and sources has a known value. -/
theorem value?_of_outputFact {op : Op} {inputs : List Fact} {fact : Fact}
    (inferred : op.outputFact inputs = .ok fact) (computed : op.type ≠ .const)
    (inner : op.isSource = false) : fact.value? = none := by
  cases op with
  | conv kind w =>
    simp only [Op.outputFact, Checked.exceptMap_eq_ok] at inferred
    obtain ⟨resolved, resolves, rfl⟩ := inferred
    exact Conv.value?_of_resolveForward resolves
  | deconv kind w takesOutputShape =>
    simp only [Op.outputFact, Conv.resolveDeconv, Checked.exceptMap_eq_ok,
      Checked.bind_eq_ok] at inferred
    obtain ⟨resolved, ⟨_, -, resolves⟩, rfl⟩ := inferred
    exact Conv.value?_of_resolveTransposed resolves
  | fusedDeconv w takesOutputShape built =>
    obtain ⟨resolved, resolves, rfl⟩ := fusedFact_eq_ok inferred
    simp only [Conv.resolveFused, Checked.bind_eq_ok] at resolves
    obtain ⟨_, -, resolves⟩ := resolves
    exact Conv.value?_of_resolveTransposed resolves
  | pad =>
    simp only [Op.outputFact] at inferred
    split at inferred
    · exact Pad.value?_of_outputFact inferred
    · exact Pad.value?_of_outputFact inferred
    · simp at inferred
  | stridedSlice beginMask endMask =>
    simp only [Op.outputFact] at inferred
    split at inferred
    · exact StridedSlice.value?_of_outputFact inferred
    · exact StridedSlice.value?_of_outputFact inferred
    · simp at inferred
  | const value => exact absurd rfl computed
  | source fact => simp [Op.isSource] at inner

end EvenPad
