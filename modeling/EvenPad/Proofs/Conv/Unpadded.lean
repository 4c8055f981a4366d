import EvenPad.Proofs.Conv.Grown
import EvenPad.Proofs.Conv.Resolve
import EvenPad.Proofs.Slice

/-!
Convolutions without their pads, as shape inference sees them. Main statements: a forward
convolution of padded data resolves to the fact of the convolution with pads
(`Conv.resolveForward_unpadded`), a transposed one resolves to an output that is larger by what
the pads cut off (`Conv.resolveTransposed_asked`, `Conv.resolveTransposed_unasked`), and a slice
cuts that back (`StridedSlice.shape_cut`).
-/

namespace EvenPad

/-! ## Operands -/

section Operands

variable {w w' : Window} {rank : Nat} {t : ConvTraits} {data filters : Fact}
  {input kernel : List Extent}

theorem Shape.length_of_tail {s : Shape} {axis : Nat} {extents : List Extent}
    (tail : s.tail axis rank = .ok extents) : extents.length = rank := by
  unfold Shape.tail at tail
  split at tail
  · rw [← Except.ok.inj tail, List.length_replicate]
  · split at tail
    · next length => rw [← Except.ok.inj tail, List.length_drop, length, Nat.add_sub_cancel_left]
    · split at tail <;> simp at tail

theorem Shape.rank?_of_tail {s : Shape} {axis : Nat} {extents : List Extent}
    (tail : s.tail axis rank = .ok extents) : s.rank?.all (· = axis + rank) = true := by
  unfold Shape.tail at tail
  split at tail
  · rfl
  · split at tail
    · next length => simpa [Shape.rank?] using length
    · split at tail <;> simp at tail

/-- A shape that ends in known lengths has these on the axes that it ends in. -/
theorem Shape.fixed_of_tail {s : Shape} {extents : List Extent} {lengths : List Nat} {axis : Nat}
    (front : List Extent) (shape : s = .ranked (front ++ lengths.map .fixed))
    (axes : front.length = axis) (tail : s.tail axis rank = .ok extents) : lengths.length = rank ∧
    extents = lengths.map .fixed := by
  subst shape axes
  have ranks := Shape.rank?_of_tail tail
  simp only [Shape.rank?, Option.all_some, decide_eq_true_eq, List.length_append, List.length_map]
    at ranks
  rw [Shape.tail, if_pos (by simp; omega), List.drop_left] at tail
  exact ⟨by omega, (Except.ok.inj tail).symm⟩

theorem Window.checkRank_eq_ok_iff {u : Unit} : w.checkRank rank = .ok u ↔
    w.OfRank rank ∧ w.outputPadding.length = rank ∧ w.strides.all (0 < ·) = true ∧
      w.dilations.all (0 < ·) = true := by
  simp only [checkRank, lengths, Checked.bind_eq_ok, Checked.require_eq_ok]
  constructor
  · rintro ⟨_, lengths, _, strides, dilations⟩
    have lengths := Checked.forM_eq_ok_iff.1 lengths
    simp only [List.forall_mem_cons, Checked.require_eq_ok, decide_eq_true_eq] at lengths
    obtain ⟨atStrides, atDilations, padsBegin, padsEnd, outputPadding, -⟩ := lengths
    exact ⟨⟨atStrides, atDilations, padsBegin, padsEnd⟩, outputPadding, strides, dilations⟩
  · rintro ⟨ofRank, outputPadding, strides, dilations⟩
    refine ⟨⟨⟩, Checked.forM_eq_ok_iff.2 ?_, ⟨⟩, strides, dilations⟩
    simp [ofRank.strides, ofRank.dilations, ofRank.padsBegin, ofRank.padsEnd,
      outputPadding]

/-- A window moves and spreads like another, whatever the pads. -/
structure Window.SameSteps (w w' : Window) : Prop where
  strides : w'.strides = w.strides
  dilations : w'.dilations = w.dilations
  outputPadding : w'.outputPadding = w.outputPadding

/-- The check of a window looks at pads only for their number. -/
theorem Window.SameSteps.checkRank (same : w.SameSteps w') (checked : w.checkRank rank = .ok ⟨⟩)
    (ofRank : w'.OfRank rank) : w'.checkRank rank = .ok ⟨⟩ := by
  rw [checkRank_eq_ok_iff] at checked ⊢
  rw [same.strides, same.dilations, same.outputPadding]
  exact ⟨ofRank, checked.2⟩

theorem Window.sameSteps_unpadded : w.SameSteps w.unpadded := ⟨rfl, rfl, rfl⟩

theorem Window.filledIn_eq_self {α : Type} {l : List α} {a : α} (length : l.length = rank) :
    (if l.isEmpty then List.replicate rank a else l) = l := by
  cases l with
  | nil => simp [← length]
  | cons _ _ => rfl

/-- A window that is written down in full has no defaults. -/
theorem Window.withDefaults_eq_self (ofRank : w.OfRank rank)
    (outputPadding : w.outputPadding.length = rank) : w.withDefaults rank = w := by
  simp only [withDefaults, unitSteps, zeroPads, filledIn_eq_self ofRank.strides,
    filledIn_eq_self ofRank.dilations, filledIn_eq_self ofRank.padsBegin,
    filledIn_eq_self ofRank.padsEnd, filledIn_eq_self outputPadding]

/-- Pads that are written down do not change the defaults of what is not. -/
theorem Window.withDefaults_withPads {padsBegin padsEnd : List Int} {mode : PadMode}
    (begins : padsBegin.length = rank) (ends : padsEnd.length = rank) :
    ({ w with padsBegin, padsEnd, mode } : Window).withDefaults rank =
      { w.withDefaults rank with padsBegin, padsEnd, mode } := by
  simp only [withDefaults, zeroPads, filledIn_eq_self begins, filledIn_eq_self ends]

/-- Such a window tells over how many axes it moves. -/
theorem Window.OfRank.spatialRank? (ofRank : w.OfRank rank) (pos : 0 < rank) :
    w.spatialRank? = some rank := by
  simp [Window.spatialRank?, ofRank.strides, pos]

namespace Conv

/-- Data and filters fit a number of spatial axes and each other, and have these spatial
extents. -/
structure Fit (t : ConvTraits) (data filters : Fact) (rank : Nat) (input kernel : List Extent) :
    Prop where
  dataRank : data.rank?.all (3 ≤ ·) = true
  filterRank : filters.rank?.all (· = rank + t.leadingFilterAxes) = true
  channels : ∃ given expected, data.shape.extentAt 1 = .ok given ∧
    t.inputChannels filters.shape = .ok expected ∧ (given.merge expected).isSome = true
  input : data.shape.tail 2 rank = .ok input
  kernel : filters.shape.tail t.leadingFilterAxes rank = .ok kernel

theorem checkOperands_eq_ok_iff {operands : Operands} {filterRank : Nat → Cause}
    {channels : Extent → Extent → Cause} :
    checkOperands t w data filters rank filterRank channels = .ok operands ↔
      Fit t data filters rank operands.input operands.kernel ∧
        operands.window = w.withDefaults rank ∧
        (w.withDefaults rank).checkRank rank = .ok ⟨⟩ := by
  obtain ⟨window, input, kernel⟩ := operands
  cases rankEq : filters.rank? with
  | none =>
    simp only [checkOperands, rankEq, Checked.bind_eq_ok, Checked.require_eq_ok,
      Checked.pure_eq_ok, Operands.mk.injEq]
    constructor
    · rintro ⟨_, dataRank, _, checked, given, channels, expected, filtered, _, merged, _,
        input, _, kernel, rfl, rfl, rfl⟩
      exact ⟨⟨dataRank, by simp [rankEq], ⟨_, _, channels, filtered, merged⟩, input, kernel⟩, rfl,
        checked⟩
    · rintro ⟨fit, rfl, checked⟩
      obtain ⟨given, expected, channels, filtered, merged⟩ := fit.channels
      exact ⟨⟨⟩, fit.dataRank, ⟨⟩, checked, given, channels, expected, filtered, ⟨⟩, merged,
        _, fit.input, _, fit.kernel, rfl, rfl, rfl⟩
  | some count =>
    simp only [checkOperands, rankEq, Checked.bind_eq_ok, Checked.require_eq_ok,
      Checked.pure_eq_ok, Operands.mk.injEq]
    constructor
    · rintro ⟨_, dataRank, _, filterRank, _, checked, given, channels, expected, filtered, _,
        merged, _, input, _, kernel, rfl, rfl, rfl⟩
      exact ⟨⟨dataRank, by simpa [rankEq] using filterRank, ⟨_, _, channels, filtered, merged⟩,
          input, kernel⟩, rfl, checked⟩
    · rintro ⟨fit, rfl, checked⟩
      obtain ⟨given, expected, channels, filtered, merged⟩ := fit.channels
      exact ⟨⟨⟩, fit.dataRank, ⟨⟩, by simpa [rankEq] using fit.filterRank, ⟨⟩, checked, given,
        channels, expected, filtered, ⟨⟩, merged, _, fit.input, _, fit.kernel, rfl, rfl, rfl⟩

end Conv

end Operands

/-! ## Forward convolutions -/

namespace Conv

variable {kind : ConvKind} {t : ConvTraits} {w w' : Window}
  {data filters : Fact} {facts : List Fact} {r : Resolution} {rank : Nat}
  {input kernel spatial : List Extent} {padsKnown : Bool} {type : ElementType}

theorem sameSteps_of_forwardPads (pads : forwardPads w input kernel = .ok (w', padsKnown)) :
    w.SameSteps w' := by
  unfold forwardPads at pads
  split at pads
  · obtain ⟨rfl, -⟩ := Prod.mk.inj (Except.ok.inj pads)
    exact ⟨rfl, rfl, rfl⟩
  · obtain ⟨rfl, -⟩ := Prod.mk.inj (Except.ok.inj pads)
    exact ⟨rfl, rfl, rfl⟩
  -- the two SAME modes
  all_goals
    simp only [forwardSamePads, Checked.bind_eq_ok, Checked.pure_eq_ok, Prod.mk.injEq] at pads
    obtain ⟨_, -, rfl, -⟩ := pads
    exact ⟨rfl, rfl, rfl⟩

/-- A forward convolution whose pads are known and uneven moves over a known number of axes, and
has an output for the pads that it resolves to. -/
theorem resolveForward_eq_ok (resolves : resolveForward kind w facts = .ok r)
    (padsKnown : r.padsKnown = true) (uneven : r.window.isAsymmetric = true) :
    ∃ data filters type rank input kernel spatial, facts = [data, filters] ∧
      kind.traits.transposed = false ∧ elementType data filters = .ok type ∧
      Fit kind.traits data filters rank input kernel ∧ r.window.checkRank rank = .ok ⟨⟩ ∧
      r.window.forwardShape input kernel = .ok spatial ∧
      outputFact kind.traits type data filters spatial = .ok r.fact := by
  obtain ⟨data, filters, rfl⟩ := operands_of_resolveForward resolves
  obtain ⟨direction, type, typed,
      ⟨unknown, rfl⟩ | ⟨rank, operands, spatial, -, checked, pads, shape, output⟩⟩ :=
    resolveForward_eq_ok_iff.1 resolves
  · have told : (spatialRank? kind.traits w data filters).isSome :=
      spatialRank?_of_isAsymmetric uneven
    simp [unknown] at told
  · obtain ⟨fit, windowEq, ranked⟩ := checkOperands_eq_ok_iff.1 checked
    rw [← windowEq] at ranked
    rw [if_pos padsKnown] at shape
    have ofRank := (Window.forwardShape_eq_ok shape).1
    rw [Shape.length_of_tail fit.input] at ofRank
    exact ⟨data, filters, type, rank, _, _, spatial, rfl, direction, typed, fit,
      (sameSteps_of_forwardPads pads).checkRank ranked ofRank, shape, output⟩

/-- The number of axes over which operands fit is what data, filters and a full window tell. -/
theorem Fit.spatialRank?_eq (fit : Fit t data filters rank input kernel) (ofRank : w.OfRank rank)
    (pos : 0 < rank) : spatialRank? t w data filters = some rank := by
  have dataRank : data.rank?.all (· = 2 + rank) = true := Shape.rank?_of_tail fit.input
  have filterRank := fit.filterRank
  unfold spatialRank?
  cases dataEq : data.rank? with
  | some count =>
    obtain rfl : count = 2 + rank := by simpa [dataEq] using dataRank
    simp
  | none =>
    cases filtersEq : filters.rank? with
    | some count =>
      obtain rfl : count = rank + t.leadingFilterAxes := by simpa [filtersEq] using filterRank
      simp
    | none => simp [ofRank.spatialRank? pos]

/-- Other spatial extents of the data fit the same filters. -/
theorem Fit.withInput {batch given : Extent} {input' : List Extent}
    (fit : Fit t data filters rank input kernel) (givenAt : data.shape.extentAt 1 = .ok given)
    (pos : 0 < rank) (length : input'.length = rank) :
    Fit t (.typed type (.ranked (batch :: given :: input'))) filters rank input' kernel where
  dataRank := by
    simp [Fact.rank?, Fact.typed, Shape.rank?, length]
    omega
  filterRank := fit.filterRank
  channels := by
    obtain ⟨given', expected, givenAt', expects, merged⟩ := fit.channels
    cases givenAt.symm.trans givenAt'
    exact ⟨given, expected, rfl, expects, merged⟩
  input := by
    rw [Fact.typed, Shape.tail, if_pos (by simp [length]; omega)]
    rfl
  kernel := fit.kernel

theorem length_grown (ofRank : w.OfRank rank) (length : input.length = rank) :
    (w.grown input).length = rank := by
  simp [Window.grown, ofRank.length_axes, length]

/-- A forward convolution without its pads has on padded data the output that it has with them. -/
theorem resolveForward_unpadded {batch given : Extent} {fact : Fact}
    (direction : kind.traits.transposed = false) (typed : elementType data filters = .ok type)
    (fit : Fit kind.traits data filters rank input kernel) (checked : w.checkRank rank = .ok ⟨⟩)
    (pos : 0 < rank) (shape : w.forwardShape input kernel = .ok spatial)
    (output : outputFact kind.traits type data filters spatial = .ok fact)
    (batchAt : data.shape.extentAt 0 = .ok batch) (givenAt : data.shape.extentAt 1 = .ok given)
    (signFree : data.shape.SignFree w) (allowed : w.Allowed input) :
    resolveForward kind w.unpadded
      [.typed data.elementType (.ranked (batch :: given :: w.grown input)), filters] =
        .ok ⟨w.unpadded, true, fact⟩ := by
  obtain ⟨ofRank, outputPadding, -⟩ := Window.checkRank_eq_ok_iff.1 checked
  have length := Shape.length_of_tail fit.input
  have fit' :
      Fit kind.traits (.typed data.elementType (.ranked (batch :: given :: w.grown input)))
      filters rank (w.grown input) kernel :=
    fit.withInput givenAt pos (length_grown ofRank length)
  have full : w.unpadded.withDefaults rank = w.unpadded :=
    Window.withDefaults_eq_self ofRank.unpadded outputPadding
  have unpaddedShape : w.unpadded.forwardShape (w.grown input) kernel = .ok spatial := by
    rw [ofRank.forwardShape_grown length (signFree.spatial fit.input) allowed, shape]
  simp only [resolveForward, fit'.spatialRank?_eq ofRank.unpadded pos, Checked.bind_eq_ok,
    Checked.require_eq_ok, Prod.exists]
  refine ⟨⟨⟩, by simp [direction], type, typed, ⟨w.unpadded, w.grown input, kernel⟩,
    checkOperands_eq_ok_iff.2 ⟨fit', full.symm, ?_⟩, w.unpadded, true, rfl, ?_⟩
  · rw [full]
    exact Window.sameSteps_unpadded.checkRank checked ofRank.unpadded
  · simp only [if_true, Checked.bind_eq_ok, Checked.pure_eq_ok]
    refine ⟨spatial, unpaddedShape, fact, ?_, rfl⟩
    simp only [outputFact, Checked.bind_eq_ok, Checked.pure_eq_ok] at output ⊢
    obtain ⟨batch', batchAt', channels, channelsAt, rfl⟩ := output
    cases batchAt.symm.trans batchAt'
    exact ⟨batch, rfl, channels, channelsAt, rfl⟩

end Conv

/-! ## Transposed convolutions -/

/-- A transposed convolution has an output when its lists fit and each axis has one. -/
theorem Window.transposedShape_eq_ok {w : Window} {input kernel spatial : List Extent}
    (shape : w.transposedShape input kernel = .ok spatial) :
    w.OfRank input.length ∧ kernel.length = input.length ∧ w.outputPadding.length = input.length ∧
      spatial.length = input.length ∧
      List.Forall₂ (fun x e => x.1.1.1.transposedExtent x.1.1.2 x.2 x.1.2.1 x.1.2.2 = .ok e)
        ((w.axes.zip w.outputPadding).zip (input.zip kernel)).zipIdx spatial := by
  simp only [transposedShape, Checked.bind_eq_ok, checkLengths_eq_ok, List.forall_mem_cons,
    Checked.mapM_eq_ok_iff] at shape
  obtain ⟨_, ⟨kernels, strides, dilations, padsBegin, padsEnd, outputPadding, -⟩, extents⟩ :=
    shape
  have ofRank : w.OfRank input.length := ⟨strides, dilations, padsBegin, padsEnd⟩
  refine ⟨ofRank, kernels, outputPadding, ?_, extents⟩
  rw [← extents.length_eq]
  simp [ofRank.length_axes, kernels, outputPadding]

/-- The lengths of an output before the pads are cut off. -/
def Window.inflated (w : Window) (target : List Nat) : List Nat :=
  target.zipWith (· + ·) (w.padsBegin.zipWith (fun b e => Word.unsigned (b + e)) w.padsEnd)

/-- The pads of an axis cut off something, and an extent that is larger by them is the same number
with a sign. -/
def Window.Axis.Cuts (a : Window.Axis) (length : Nat) : Prop :=
  0 ≤ a.padBegin ∧ 0 ≤ a.padEnd ∧ length + a.padBegin + a.padEnd < 9223372036854775808

theorem Window.Axis.transposedExtent_unpadded {a : Window.Axis} {outputPadding : Int}
    {axis length : Nat} {e f : Extent} (cuts : a.Cuts length)
    (extent : a.transposedExtent outputPadding axis e f = .ok (.fixed length)) :
    { a with padBegin := 0, padEnd := 0 }.transposedExtent outputPadding axis e f =
      .ok (.fixed (length + Word.unsigned (a.padBegin + a.padEnd))) := by
  obtain ⟨padBegin, padEnd, small⟩ := cuts
  cases e with
  | dynamic => simp [transposedExtent] at extent
  | fixed i =>
    cases f with
    | dynamic => simp [transposedExtent] at extent
    | fixed f =>
      have natural : { a with padBegin := 0, padEnd := 0 }.naturalLength outputPadding i f =
          a.naturalLength outputPadding i f := rfl
      simp only [transposedExtent, Checked.within_eq_ok, Extent.ofSigned, natural] at extent ⊢
      generalize a.naturalLength outputPadding i f = n at extent ⊢
      split at extent
      · next nonneg =>
        rw [if_pos (by omega)]
        simp only [Except.ok.injEq, Extent.fixed.injEq] at extent ⊢
        simp only [Word.unsigned, Word.modulus] at extent ⊢
        omega
      · simp at extent

namespace Window

variable {w : Window} {rank : Nat} {target : List Nat} {input kernel : List Extent}

/-- The pads cut off something on each axis of an output. -/
def Cuts (w : Window) (target : List Nat) : Prop := ∀ x ∈ w.axes.zip target, x.1.Cuts x.2

theorem OfRank.inflated_eq (ofRank : w.OfRank rank) : w.inflated target =
    (w.axes.zip target).map fun (a, n) => n + Word.unsigned (a.padBegin + a.padEnd) := by
  apply List.ext_getElem
  · simp [inflated, ofRank.length_axes, ofRank.padsBegin, ofRank.padsEnd, Nat.min_comm]
  · intro i _ _
    simp [inflated, axes]

theorem OfRank.length_inflated (ofRank : w.OfRank rank) (length : target.length = rank) :
    (w.inflated target).length = rank := by
  simp [ofRank.inflated_eq, ofRank.length_axes, length]

/-- A transposed convolution without its pads has an output that is larger by them. -/
theorem OfRank.transposedShape_unpadded (ofRank : w.OfRank rank) (cuts : w.Cuts target)
    (shape : w.transposedShape input kernel = .ok (target.map .fixed)) :
    w.unpadded.transposedShape input kernel = .ok ((w.inflated target).map .fixed) := by
  obtain ⟨ofRank', kernels, outputPadding, targets, extents⟩ := transposedShape_eq_ok shape
  obtain rfl : input.length = rank := ofRank'.strides.symm.trans ofRank.strides
  have ofRank'' := ofRank.unpadded
  have outputPadding' : w.unpadded.outputPadding = w.outputPadding := rfl
  rw [List.length_map] at targets
  simp only [transposedShape, Checked.bind_eq_ok, checkLengths_eq_ok, List.forall_mem_cons,
    Checked.mapM_eq_ok_iff]
  refine ⟨⟨⟩, ⟨kernels, ofRank''.strides, ofRank''.dilations, ofRank''.padsBegin,
      ofRank''.padsEnd, outputPadding, by simp⟩, ?_⟩
  rw [List.forall₂_iff_get] at extents ⊢
  obtain ⟨-, extents⟩ := extents
  have axes := ofRank.length_axes
  refine ⟨?_, fun i here there => ?_⟩
  · simp [ofRank.length_inflated targets, ofRank''.length_axes, kernels,
      outputPadding', outputPadding]
  · simp only [List.length_map, ofRank.length_inflated targets] at there
    have extent := extents i
      (by simp [axes, kernels, outputPadding, there]) (by simp [targets, there])
    have cut := cuts (w.axes[i], target[i])
      (List.mem_of_getElem? (List.getElem?_zip_eq_some.2
        ⟨List.getElem?_eq_getElem (by omega), List.getElem?_eq_getElem (by omega)⟩))
    simp only [List.get_eq_getElem, List.getElem_zipIdx, List.getElem_zip, List.getElem_map,
      ofRank.axes_unpadded, ofRank.inflated_eq, outputPadding', Nat.zero_add] at extent ⊢
    exact Axis.transposedExtent_unpadded cut extent

end Window

namespace Conv

variable {t : ConvTraits} {w w' : Window} {data filters : Fact} {outputShape : Option Fact}
  {r : Resolution} {rank : Nat} {input kernel spatial : List Extent}
  {padsKnown hasOutputShape : Bool} {type : ElementType} {requested : Option (List Nat)}
  {operands : Operands}

theorem sameSteps_of_requestedPads
    (pads : requestedPads operands requested = .ok (w, padsKnown)) :
    operands.window.SameSteps w := by
  unfold requestedPads at pads
  dsimp only at pads
  split at pads
  · obtain ⟨rfl, -⟩ := Prod.mk.inj (Except.ok.inj pads)
    exact ⟨rfl, rfl, rfl⟩
  · obtain ⟨rfl, -⟩ := Prod.mk.inj (Except.ok.inj pads)
    exact ⟨rfl, rfl, rfl⟩
  -- the two SAME modes
  all_goals
    split at pads
    · simp only [Checked.bind_eq_ok, Checked.pure_eq_ok, Prod.mk.injEq, Prod.exists] at pads
      obtain ⟨_, _, -, rfl, -⟩ := pads
      exact ⟨rfl, rfl, rfl⟩
    · obtain ⟨rfl, -⟩ := Prod.mk.inj (Except.ok.inj pads)
      exact ⟨rfl, rfl, rfl⟩

/-- The window of a transposed convolution moves like the one that is written down. Its spatial
extents are computed from it if none are asked for. -/
theorem transposedSpatial_steps
    (resolves : transposedSpatial operands rank hasOutputShape requested =
      .ok (w, padsKnown, spatial)) :
    operands.window.SameSteps w ∧ (hasOutputShape = false →
      w.transposedShape operands.input operands.kernel = .ok spatial) := by
  obtain ⟨given, -, pads, -⟩ | ⟨-, -, windowEq, shape⟩ := transposedSpatial_eq_ok_iff.1 resolves
  · exact ⟨sameSteps_of_requestedPads pads, by simp [given]⟩
  · refine ⟨?_, fun _ => shape⟩
    rw [windowEq]
    split
    · exact ⟨rfl, rfl, rfl⟩
    · exact ⟨rfl, rfl, rfl⟩

/-- A transposed convolution has an extent on each spatial axis. -/
theorem length_of_transposedSpatial (inputs : operands.input.length = rank)
    (resolves : transposedSpatial operands rank hasOutputShape requested =
      .ok (w, padsKnown, spatial)) :
    spatial.length = rank := by
  obtain ⟨-, lengths, -, rfl⟩ | ⟨-, -, -, shape⟩ := transposedSpatial_eq_ok_iff.1 resolves
  · cases requested with
    | none => exact List.length_replicate
    | some wanted => exact (List.length_map _).trans (lengths wanted rfl)
  · exact (Window.transposedShape_eq_ok shape).2.2.2.1.trans inputs

/-- A transposed convolution whose pads are uneven moves over a known number of axes, and has an
output for the pads that it resolves to. -/
theorem resolveTransposed_eq_ok
    (resolves : resolveTransposed t w data filters outputShape = .ok r)
    (uneven : r.window.isAsymmetric = true) :
    ∃ type requested rank input kernel spatial, elementType data filters = .ok type ∧
      requestedShape? outputShape = .ok requested ∧ Fit t data filters rank input kernel ∧
      r.window.checkRank rank = .ok ⟨⟩ ∧ spatial.length = rank ∧
      (outputShape = none → r.window.transposedShape input kernel = .ok spatial) ∧
      outputFact t type data filters spatial = .ok r.fact := by
  obtain ⟨type, requested, typed, asked,
      ⟨unknown, rfl⟩ | ⟨rank, operands, spatial, -, checked, resolves, output⟩⟩ :=
    resolveTransposed_eq_ok_iff.1 resolves
  · have told : (spatialRank? t w data filters).isSome := spatialRank?_of_isAsymmetric uneven
    simp [(Option.or_eq_none_iff.1 unknown).1] at told
  · obtain ⟨fit, windowEq, ranked⟩ := checkOperands_eq_ok_iff.1 checked
    rw [← windowEq] at ranked
    have ofRank := (transposedSpatial_eq_ok (Window.checkRank_eq_ok_iff.1 ranked).1 resolves).1
    obtain ⟨same, computed⟩ := transposedSpatial_steps resolves
    refine ⟨type, requested, rank, _, _, spatial, typed, asked, fit, same.checkRank ranked ofRank,
      length_of_transposedSpatial (Shape.length_of_tail fit.input) resolves, ?_, output⟩
    rintro rfl
    exact computed rfl

/-- Whether an output shape is taken does not matter to data and filters. -/
theorem Fit.takesOutputShape (fit : Fit t data filters rank input kernel) (takes : Bool) :
    Fit { t with takesOutputShape := takes } data filters rank input kernel :=
  ⟨fit.dataRank, fit.filterRank, fit.channels, fit.input, fit.kernel⟩

theorem requestedShape_lengths {lengths : List Nat}
    (small : ∀ n ∈ lengths, n < 9223372036854775808) :
    requestedShape (.constant (.vector (lengths.map Word.signed))) = .ok (some lengths) := by
  have naturals : (lengths.map Word.signed).mapM (fun v => do
      Checked.require (0 ≤ v) (.negativeElement v (.vector (lengths.map Word.signed)))
      return v.toNat) = .ok lengths := by
    rw [Checked.mapM_eq_ok_iff, List.forall₂_map_left_iff, List.forall₂_same]
    intro n mem
    rw [Word.signed_of_lt (small n mem)]
    simp [Checked.require]
  simp only [requestedShape, Fact.constant, Checked.bind_eq_ok,
    Checked.pure_eq_ok, Tensor.naturals]
  exact ⟨⟨⟩, rfl, ⟨⟩, rfl, lengths, ⟨_, rfl, naturals⟩, rfl⟩

/-- A transposed convolution without pads resolves to the spatial extents that it has. -/
theorem resolveTransposed_of_spatial {batch channels : Extent} {spatial' : List Extent}
    (typed : elementType data filters = .ok type) (fit : Fit t data filters rank input kernel)
    (checked : w.checkRank rank = .ok ⟨⟩) (pos : 0 < rank)
    (output : outputFact t type data filters spatial =
      .ok (.typed type (.ranked (batch :: channels :: spatial))))
    (asked : requestedShape? outputShape = .ok requested)
    (resolves : transposedSpatial ⟨w.unpadded, input, kernel⟩ rank outputShape.isSome requested =
      .ok (w.unpadded, true, spatial')) :
    resolveTransposed t w.unpadded data filters outputShape =
      .ok ⟨w.unpadded, true, .typed type (.ranked (batch :: channels :: spatial'))⟩ := by
  obtain ⟨ofRank, outputPadding, -⟩ := Window.checkRank_eq_ok_iff.1 checked
  have full : w.unpadded.withDefaults rank = w.unpadded :=
    Window.withDefaults_eq_self ofRank.unpadded outputPadding
  simp only [resolveTransposed, asked, fit.spatialRank?_eq ofRank.unpadded pos,
    Checked.bind_eq_ok, Option.some_or, Prod.exists]
  refine ⟨type, typed, requested, rfl, ⟨w.unpadded, input, kernel⟩,
    checkOperands_eq_ok_iff.2 ⟨fit, full.symm, ?_⟩, w.unpadded, true, spatial', resolves, ?_⟩
  · rw [full]
    exact Window.sameSteps_unpadded.checkRank checked ofRank.unpadded
  · simp only [outputFact, Checked.bind_eq_ok, Checked.pure_eq_ok] at output ⊢
    obtain ⟨_, batchAt, _, channelsAt, same⟩ := output
    simp only [Fact.typed, Fact.mk.injEq, Shape.ranked.injEq, List.cons.injEq] at same
    obtain ⟨-, ⟨rfl, rfl, -⟩, -⟩ := same
    exact ⟨_, ⟨_, batchAt, _, channelsAt, rfl⟩, rfl⟩

/-- A transposed convolution without pads has the output shape that it is asked for. -/
theorem resolveTransposed_asked {lengths : List Nat} {batch channels : Extent}
    (typed : elementType data filters = .ok type) (fit : Fit t data filters rank input kernel)
    (checked : w.checkRank rank = .ok ⟨⟩) (pos : 0 < rank)
    (output : outputFact t type data filters spatial =
      .ok (.typed type (.ranked (batch :: channels :: spatial))))
    (length : lengths.length = rank) (small : ∀ n ∈ lengths, n < 9223372036854775808) :
    resolveTransposed t w.unpadded data filters
      (some (.constant (.vector (lengths.map Word.signed)))) =
        .ok ⟨w.unpadded, true,
          .typed type (.ranked (batch :: channels :: lengths.map .fixed))⟩ := by
  refine resolveTransposed_of_spatial typed fit checked pos output
    (requestedShape_lengths small) ?_
  simp [transposedSpatial, length, requestedPads, Window.unpadded, bind, Except.bind, pure,
    Except.pure, Checked.require]

/-- A transposed convolution that is not asked for an output shape has without its pads an output
that is larger by them. -/
theorem resolveTransposed_unasked {target : List Nat} {batch channels : Extent}
    (typed : elementType data filters = .ok type) (fit : Fit t data filters rank input kernel)
    (checked : w.checkRank rank = .ok ⟨⟩) (pos : 0 < rank)
    (output : outputFact t type data filters spatial =
      .ok (.typed type (.ranked (batch :: channels :: spatial))))
    (cuts : w.Cuts target) (shape : w.transposedShape input kernel = .ok (target.map .fixed)) :
    resolveTransposed t w.unpadded data filters none =
      .ok ⟨w.unpadded, true,
        .typed type (.ranked (batch :: channels :: (w.inflated target).map .fixed))⟩ := by
  have ofRank := (Window.checkRank_eq_ok_iff.1 checked).1
  refine resolveTransposed_of_spatial typed fit checked pos output rfl ?_
  simp only [transposedSpatial, Option.isSome_none, Bool.false_eq_true, if_false,
    Checked.bind_eq_ok, Checked.pure_eq_ok]
  exact ⟨_, ofRank.transposedShape_unpadded cuts shape, rfl⟩

end Conv

/-! ## The slice that cuts back -/

namespace StridedSlice

variable {w : Window} {rank : Nat} {target : List Nat} {batch channels : Extent}

/-- A masked axis is kept whole. -/
theorem sliceExtent_masked {e : Extent} {axis : Nat}
    (masked : (0b11 : AxisMask).getLsbD axis = true) (signFree : e.SignFree 0) :
    sliceExtent 0b11 0b11 axis e 0 0 1 = .ok e := by
  cases e with
  | dynamic => rfl
  | fixed n =>
    have length : (max (count 0 (n : Int) 1) 0).toNat = n := by
      simp only [count, Int.one_pos, if_true]
      omega
    simp only [sliceExtent, Checked.exceptMap_eq_ok]
    refine ⟨n, ?_, rfl⟩
    simp only [sliceLength, Checked.bind_eq_ok, Checked.pure_eq_ok, Prod.exists]
    refine ⟨⟨⟩, rfl, 0, n, ?_, length⟩
    rw [masked, Word.signed_of_lt signFree.1]
    rfl

/-- An axis that was enlarged by its pads is cut back to its length. -/
theorem sliceExtent_cut {a : Window.Axis} {n : Nat} (axis : Nat)
    (later : 2 ≤ axis) (cuts : a.Cuts n) :
    sliceExtent 0b11 0b11 axis (.fixed (n + Word.unsigned (a.padBegin + a.padEnd))) a.padBegin
      (Word.signed (n + Word.unsigned (a.padBegin + a.padEnd)) - a.padEnd) 1 =
        .ok (.fixed n) := by
  obtain ⟨padBegin, padEnd, small⟩ := cuts
  have cut : (Word.unsigned (a.padBegin + a.padEnd) : Int) = a.padBegin + a.padEnd := by
    rw [Word.unsigned_of_nonneg (by omega) (by omega)]
    omega
  have whole : Word.signed (n + Word.unsigned (a.padBegin + a.padEnd)) =
      n + a.padBegin + a.padEnd := by
    rw [Word.signed_of_lt (by omega)]
    omega
  have length : (max (count a.padBegin ((n : Int) + a.padBegin) 1) 0).toNat = n := by
    simp only [count, Int.one_pos, if_true]
    omega
  rw [whole]
  simp only [sliceExtent, Checked.exceptMap_eq_ok]
  refine ⟨n, ?_, rfl⟩
  simp only [sliceLength, Checked.bind_eq_ok, Checked.pure_eq_ok, Prod.exists]
  refine ⟨⟨⟩, rfl, a.padBegin, n + a.padBegin, ?_, length⟩
  have inside {v : Int} (nonneg : 0 ≤ v) (le : v ≤ n + a.padBegin + a.padEnd) :
      clamp 0 (n + a.padBegin + a.padEnd) (fromBeginning (n + a.padBegin + a.padEnd) v) =
        .ok v := by
    rw [fromBeginning, if_neg (by omega), clamp, if_neg (by omega), Int.min_eq_right le,
      Int.max_eq_right nonneg]
  have last : (n : Int) + a.padBegin + a.padEnd - a.padEnd = n + a.padBegin := by omega
  simp only [getLsbD_of_two_le later, whole, bounds, Int.one_pos, if_true, Bool.false_eq_true,
    if_false, last, inside padBegin (by omega),
    inside (v := n + a.padBegin) (by omega) (by omega)]
  rfl

/-- The slice that keeps batch and channel and takes the pads off cuts an output back that was
enlarged by them. -/
theorem shape_cut (ofRank : w.OfRank rank) (length : target.length = rank) (cuts : w.Cuts target)
    (batchSmall : batch.SignFree 0) (channelsSmall : channels.SignFree 0) :
    shape 0b11 0b11 (.ranked (batch :: channels :: (w.inflated target).map .fixed))
      (0 :: 0 :: w.padsBegin)
      (0 :: 0 :: (w.inflated target).zipWith
        (fun length pad => Word.signed length - pad) w.padsEnd)
      (List.replicate ((w.inflated target).length + 2) 1) =
        .ok (.ranked (batch :: channels :: target.map .fixed)) := by
  have axes := ofRank.length_axes
  have inflated := ofRank.length_inflated length
  simp only [shape, List.replicate_succ, List.zip_cons_cons, List.zipIdx_cons, List.mapM_cons,
    Checked.bind_eq_ok, Checked.pure_eq_ok, Checked.require_eq_ok]
  refine ⟨⟨⟩, by simp [inflated, ofRank.padsBegin], _,
    ⟨batch, sliceExtent_masked rfl batchSmall, _,
    ⟨channels, sliceExtent_masked rfl channelsSmall, target.map .fixed, ?_, rfl⟩, rfl⟩, ?_⟩
  · rw [Checked.mapM_eq_ok_iff, List.forall₂_iff_get]
    refine ⟨by simp [inflated, ofRank.padsBegin, ofRank.padsEnd, length], fun i here there => ?_⟩
    rw [List.length_map] at there
    have cut := cuts (w.axes[i], target[i])
      (List.mem_of_getElem? (List.getElem?_zip_eq_some.2
        ⟨List.getElem?_eq_getElem (by omega), List.getElem?_eq_getElem (by omega)⟩))
    have sliced := sliceExtent_cut (0 + 1 + 1 + i) (by omega) cut
    simp only [List.get_eq_getElem, List.getElem_zipIdx, List.getElem_zip, List.getElem_map,
      List.getElem_zipWith, List.getElem_replicate, ofRank.inflated_eq] at sliced ⊢
    simpa [Window.axes] using sliced
  · rw [List.drop_eq_nil_of_le (by simp [inflated, ofRank.padsBegin]), List.append_nil]

end StridedSlice

end EvenPad
