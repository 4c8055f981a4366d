import EvenPad.Conv.Transposed
import EvenPad.Proofs.Conv.Unpadded
import EvenPad.Proofs.Strict.SamePads

/-!
Convolutions by position. The number of spatial axes may come from the data, from the filters,
from the window or from a wanted output shape; data, filters and window are held against it before
an axis of them is looked up. Main statements: forward and transposed convolutions resolve without
a miss (`Strict.gives_resolveForward`, `Strict.gives_resolveDeconv`, `Strict.gives_resolveFused`),
and so do the output shapes that are asked of transposed ones (`Strict.gives_deconvQuery`,
`Strict.gives_fusedQuery`).
-/

namespace EvenPad.Strict

open Conv (Operands TransposedInputs)

/-! ## The computations -/

/-- The last extents of a shape of a rank. -/
def tail (s : Shape) (axis rank : Nat) : Strict (List Extent) :=
  match s with
  | .unranked => return List.replicate rank .dynamic
  | .ranked extents => do
    Checked.require (extents.length = axis + rank) (.rankMismatch (axis + rank) s)
    rest extents axis

def checkOperands (t : ConvTraits) (w : Window) (data filters : Fact) (spatialRank : Nat)
    (filterRankCause : Nat → Cause) (channelCause : Extent → Extent → Cause) :
    Strict Operands := do
  Checked.require (data.rank?.all (3 ≤ ·)) (.dataRank data)
  match filters.rank? with
  | some rank => Checked.require (rank = spatialRank + t.leadingFilterAxes) (filterRankCause rank)
  | none => pure ()
  let window := w.withDefaults spatialRank
  window.checkRank spatialRank
  let channels ← data.shape.extentAt 1
  let expected ← t.inputChannels filters.shape
  Checked.require (channels.merge expected).isSome (channelCause channels expected)
  let input ← tail data.shape 2 spatialRank
  let kernel ← tail filters.shape t.leadingFilterAxes spatialRank
  return ⟨window, input, kernel⟩

def forwardPads (w : Window) (spatialRank : Nat) (input kernel : List Extent) :
    Strict (Window × Bool) :=
  match w.mode with
  | .explicit => return (w, true)
  | .valid => return (w.clearPads, true)
  | .sameUpper | .sameLower => forwardSamePads w spatialRank input kernel

def resolveForward (kind : ConvKind) (w : Window) (inputs : List Fact) : Strict Resolution := do
  let t := kind.traits
  Checked.require (!t.transposed) (.notForward kind)
  Checked.require (inputs.length = 2) (.notDataAndFilters inputs)
  let data ← entry inputs 0
  let filters ← entry inputs 1
  let type ← Conv.elementType data filters
  match Conv.spatialRank? t w data filters with
  | none => return ⟨w, !w.mode.isSame, .typed type .unranked⟩
  | some spatialRank => do
    let operands ← checkOperands t w data filters spatialRank
      (fun rank => .forwardFilterRank kind rank spatialRank) (.forwardChannels kind)
    let (window, padsKnown) ← forwardPads operands.window spatialRank
        operands.input operands.kernel
    let spatial ←
      if padsKnown then forwardShape window operands.input operands.kernel
      else pure (List.replicate spatialRank .dynamic)
    return ⟨window, padsKnown, ← Conv.outputFact t type data filters spatial⟩

def requestedPads (operands : Operands) (requested : Option (List Nat)) :
    Strict (Window × Bool) :=
  let w := operands.window
  match w.mode with
  | .explicit => return (w, true)
  | .valid => return (w.clearPads, true)
  | .sameUpper | .sameLower =>
    match operands.input.mapM Extent.length?, operands.kernel.mapM Extent.length?, requested with
    | some input, some kernel, some wanted => do
      let (padsBegin, padsEnd) ← samePadsFor w input kernel wanted
      return ({ w with padsBegin, padsEnd }, true)
    | _, _, _ => return (w, false)

def transposedSpatial (operands : Operands) (spatialRank : Nat) (hasOutputShape : Bool)
    (requested : Option (List Nat)) : Strict (Window × Bool × List Extent) := do
  if hasOutputShape then
    match requested with
    | some wanted =>
      Checked.require (wanted.length = spatialRank) (.outputShapeLength wanted spatialRank)
    | none => pure ()
    let (window, padsKnown) ← requestedPads operands requested
    let spatial := requested.elim (List.replicate spatialRank .dynamic) (·.map .fixed)
    return (window, padsKnown, spatial)
  else
    let window :=
      if operands.window.mode = .explicit then operands.window else operands.window.clearPads
    return (window, true, ← transposedShape window operands.input operands.kernel)

def resolveTransposed (t : ConvTraits) (w : Window) (data filters : Fact)
    (outputShape : Option Fact) :
    Strict Resolution := do
  let type ← Conv.elementType data filters
  let requested ← Conv.requestedShape? outputShape
  match (Conv.spatialRank? t w data filters).or (requested.map List.length) with
  | none => return ⟨w, w.mode = .explicit, .typed type .unranked⟩
  | some spatialRank => do
    let operands ← checkOperands t w data filters spatialRank
      (fun rank => .transposedFilterRank rank spatialRank) .transposedChannels
    let (window, padsKnown, spatial) ←
      transposedSpatial operands spatialRank outputShape.isSome requested
    return ⟨window, padsKnown, ← Conv.outputFact t type data filters spatial⟩

/-- The inputs of a transposed convolution, counted and then taken by position. The output shape
is the third input, wherever there is one; an addend is only taken when it is looked at. -/
def deconvInputs (kind : ConvKind) (takesOutputShape : Bool) (inputs : List Fact) :
    Strict (Fact × Fact × Option Fact) := do
  let t := { kind.traits with takesOutputShape := takesOutputShape }
  Checked.require
    (kind = .convolutionBackpropData || kind = .groupConvolutionBackpropData)
    (.notTransposed kind)
  Checked.require (inputs.length = t.inputCount) (.convInputCount kind t.inputCount inputs.length)
  return (← entry inputs 0, ← entry inputs 1, inputs[2]?)

/-- With an addend the third input is the output shape only when there are four. -/
def fusedInputs (takesOutputShape : Bool) (inputs : List Fact) :
    Strict (Fact × Fact × Option Fact) := do
  let t := { ConvKind.fusedConvBackpropData.traits with takesOutputShape := takesOutputShape }
  Checked.require (inputs.length = t.inputCount)
    (.convInputCount .fusedConvBackpropData t.inputCount inputs.length)
  let outputShape ← if takesOutputShape then some <$> entry inputs 2 else pure none
  return (← entry inputs 0, ← entry inputs 1, outputShape)

def deconvQuery (kind : ConvKind) (w : Window) (takesOutputShape : Bool) (inputs : List Fact) :
    Strict Shape := do
  let (data, filters, outputShape) ← deconvInputs kind takesOutputShape inputs
  Conv.outputShapeQuery { kind.traits with takesOutputShape := takesOutputShape } w
    data filters outputShape

def fusedQuery (w : Window) (takesOutputShape : Bool) (inputs : List Fact) : Strict Shape := do
  let (data, filters, outputShape) ← fusedInputs takesOutputShape inputs
  Conv.outputShapeQuery
    { ConvKind.fusedConvBackpropData.traits with takesOutputShape := takesOutputShape } w
      data filters outputShape

def resolveDeconv (kind : ConvKind) (w : Window) (takesOutputShape : Bool) (inputs : List Fact) :
    Strict Resolution := do
  let (data, filters, outputShape) ← deconvInputs kind takesOutputShape inputs
  resolveTransposed { kind.traits with takesOutputShape := takesOutputShape } w
    data filters outputShape

def resolveFused (w : Window) (takesOutputShape : Bool) (inputs : List Fact) :
    Strict Resolution := do
  let (data, filters, outputShape) ← fusedInputs takesOutputShape inputs
  resolveTransposed
    { ConvKind.fusedConvBackpropData.traits with takesOutputShape := takesOutputShape } w
      data filters outputShape

variable {t : ConvTraits} {w : Window} {kind : ConvKind} {data filters : Fact}
  {outputShape : Option Fact} {rank : Nat} {input kernel : List Extent} {inputs : List Fact}
  {operands : Operands} {requested : Option (List Nat)} {takes : Bool}

/-! ## Checks -/

theorem faultless_checkRank : (w.checkRank rank).Faultless := by
  refine Checked.Faultless.bind (Checked.faultless_forM fun _ _ =>
    Checked.faultless_require) fun _ _ => ?_
  exact Checked.faultless_require.bind fun _ _ => Checked.faultless_require

theorem faultless_extentAt {s : Shape} {axis : Nat} : (s.extentAt axis).Faultless := by
  cases s with
  | unranked => exact Checked.faultless_pure
  | ranked extents => exact Checked.faultless_ofOption

theorem faultless_channelsAt {s : Shape} {second : Bool} : (t.channelsAt s second).Faultless := by
  refine faultless_extentAt.bind fun perGroup _ => ?_
  split
  · exact Checked.faultless_pure
  · refine faultless_extentAt.bind fun groups _ => ?_
    split <;> exact Checked.faultless_pure

theorem faultless_outputFact {type : ElementType} {spatial : List Extent} :
    (Conv.outputFact t type data filters spatial).Faultless :=
  faultless_extentAt.bind fun _ _ => faultless_channelsAt.bind fun _ _ => Checked.faultless_pure

theorem faultless_integers {t : Tensor} : t.integers.Faultless := by
  unfold Tensor.integers
  split
  · exact Checked.faultless_pure
  · exact Checked.faultless_refuse

theorem faultless_naturals {t : Tensor} : t.naturals.Faultless :=
  faultless_integers.bind fun _ _ => Checked.faultless_mapM fun _ _ =>
    Checked.faultless_require.bind fun _ _ => Checked.faultless_pure

theorem faultless_requestedShape {f : Fact} : (Conv.requestedShape f).Faultless := by
  unfold Conv.requestedShape
  split
  · exact Checked.faultless_pure
  · refine Checked.faultless_require.bind fun _ _ => ?_
    refine Checked.faultless_require.bind fun _ _ => ?_
    exact faultless_naturals.bind fun _ _ => Checked.faultless_pure

theorem faultless_requestedShape? : (Conv.requestedShape? outputShape).Faultless := by
  cases outputShape with
  | none => exact Checked.faultless_pure
  | some f => exact faultless_requestedShape

theorem faultless_outputShapeQuery :
    (Conv.outputShapeQuery t w data filters outputShape).Faultless := by
  cases outputShape with
  | none => exact Checked.faultless_pure
  | some f =>
    refine faultless_requestedShape.bind fun requested _ => ?_
    cases requested <;> exact Checked.faultless_pure

/-! ## Operands -/

theorem gives_tail {s : Shape} {axis : Nat} (ranked : s.rank?.all (· = axis + rank) = true) :
    Gives (tail s axis rank) (s.tail axis rank) := by
  cases s with
  | unranked => exact gives_pure
  | ranked extents =>
    have length : extents.length = axis + rank := by simpa [Shape.rank?] using ranked
    rw [Shape.tail, if_pos length]
    simp only [tail, length, rest_of_le (l := extents) (i := axis) (by omega)]
    exact gives_pure

/-- The data has the rank that the number of spatial axes was counted from, or no known one. -/
theorem rank?_of_spatialRank? {o : Option Nat}
    (counted : (Conv.spatialRank? t w data filters).or o = some rank)
    (least : data.rank?.all (3 ≤ ·) = true) : data.rank?.all (· = 2 + rank) = true := by
  unfold Conv.spatialRank? at counted
  cases known : data.rank? with
  | none => rfl
  | some r =>
    simp only [known, Option.map_some, Option.some_or, Option.some.injEq, Option.all_some,
      decide_eq_true_eq] at *
    omega

theorem gives_checkOperands {filterRank : Nat → Cause} {channels : Extent → Extent → Cause}
    (counted : data.rank?.all (3 ≤ ·) = true → data.rank?.all (· = 2 + rank) = true) :
    Gives (checkOperands t w data filters rank filterRank channels)
      (Conv.checkOperands t w data filters rank filterRank channels) := by
  refine gives_require fun least => ?_
  cases rankEq : filters.rank?
  case' some => refine gives_require fun fits => ?_
  all_goals
    refine gives_check faultless_checkRank fun _ _ => ?_
    refine gives_check faultless_extentAt fun _ _ => ?_
    refine gives_check faultless_channelsAt fun _ _ => ?_
    refine gives_require fun _ => ?_
    refine (gives_tail (counted least)).bind fun _ _ => ?_
    refine (gives_tail ?_).bind fun _ _ => gives_pure
  -- no rank of the filters, or the rank that was required
  case none =>
    rw [← Fact.rank?, rankEq]
    rfl
  case some rank =>
    rw [← Fact.rank?, rankEq]
    simpa [Nat.add_comm] using fits

/-! ## Forward convolutions -/

theorem faultless_elementType : (Conv.elementType data filters).Faultless :=
  Checked.faultless_ofOption

theorem wordStrides_withDefaults (words : w.WordStrides) : (w.withDefaults rank).WordStrides := by
  intro stride mem
  simp only [Window.withDefaults] at mem
  split at mem
  · rw [List.eq_of_mem_replicate mem]
    decide
  · exact words stride mem

theorem gives_forwardPads (ofRank : w.OfRank rank) (inputs : input.length = rank)
    (kernels : kernel.length = rank) :
    Gives (forwardPads w rank input kernel) (Conv.forwardPads w input kernel) := by
  unfold forwardPads Conv.forwardPads
  cases w.mode with
  | explicit => exact gives_pure
  | valid => exact gives_pure
  | sameUpper => exact gives_forwardSamePads ofRank inputs kernels
  | sameLower => exact gives_forwardSamePads ofRank inputs kernels

theorem gives_resolveForward (words : w.WordStrides) :
    Gives (resolveForward kind w inputs) (Conv.resolveForward kind w inputs) := by
  refine gives_require fun _ => ?_
  split
  case h_2 others =>
    refine gives_refusal (decide_eq_false fun two => ?_)
    obtain ⟨data, filters, rfl⟩ := List.length_eq_two.1 two
    exact others data filters rfl
  case h_1 data filters =>
  refine gives_granted rfl ?_
  refine gives_check faultless_elementType fun type _ => ?_
  cases counted : Conv.spatialRank? kind.traits w data filters with
  | none => exact gives_pure
  | some rank =>
    have ranked := rank?_of_spatialRank? (Option.or_none.trans counted)
    refine (gives_checkOperands ranked).bind fun operands checked => ?_
    obtain ⟨fit, windowEq, ranked⟩ := Conv.checkOperands_eq_ok_iff.1 checked
    have words : operands.window.WordStrides := windowEq ▸ wordStrides_withDefaults words
    have ofRank : operands.window.OfRank rank :=
      windowEq ▸ (Window.checkRank_eq_ok_iff.1 ranked).1
    have pads :=
      gives_forwardPads ofRank (Shape.length_of_tail fit.input) (Shape.length_of_tail fit.kernel)
    refine pads.bind fun (window, padsKnown) pads => ?_
    have words : window.WordStrides := by
      intro stride mem
      rw [(Conv.sameSteps_of_forwardPads pads).strides] at mem
      exact words stride mem
    cases padsKnown with
    | false =>
      refine gives_pure.bind fun spatial _ => ?_
      exact gives_check faultless_outputFact fun _ _ => gives_pure
    | true =>
      refine (gives_forwardShape words).bind fun spatial _ => ?_
      exact gives_check faultless_outputFact fun _ _ => gives_pure

/-! ## Transposed convolutions -/

theorem gives_requestedPads :
    Gives (requestedPads operands requested) (Conv.requestedPads operands requested) := by
  unfold requestedPads Conv.requestedPads
  dsimp only
  cases operands.window.mode
  case explicit => exact gives_pure
  case valid => exact gives_pure
  -- the two SAME modes, where pads are derived when everything is known
  all_goals
    cases operands.input.mapM Extent.length? with
    | none => exact gives_pure
    | some input =>
      cases operands.kernel.mapM Extent.length? with
      | none => exact gives_pure
      | some kernel =>
        cases requested with
        | none => exact gives_pure
        | some wanted => exact gives_samePadsFor.bind fun _ _ => gives_pure

theorem gives_transposedSpatial {hasOutputShape : Bool} :
    Gives (transposedSpatial operands rank hasOutputShape requested)
      (Conv.transposedSpatial operands rank hasOutputShape requested) := by
  cases hasOutputShape with
  | false => exact gives_transposedShape.bind fun _ _ => gives_pure
  | true =>
    cases requested with
    | none => exact gives_requestedPads.bind fun _ _ => gives_pure
    | some wanted => exact gives_require fun _ => gives_requestedPads.bind fun _ _ => gives_pure

theorem gives_resolveTransposed :
    Gives (resolveTransposed t w data filters outputShape)
      (Conv.resolveTransposed t w data filters outputShape) := by
  refine gives_check faultless_elementType fun type _ => ?_
  refine gives_check faultless_requestedShape? fun requested _ => ?_
  cases counted : (Conv.spatialRank? t w data filters).or (requested.map List.length) with
  | none => exact gives_pure
  | some rank =>
    refine (gives_checkOperands (rank?_of_spatialRank? counted)).bind fun operands _ => ?_
    refine gives_transposedSpatial.bind fun (window, padsKnown, spatial) _ => ?_
    exact gives_check faultless_outputFact fun _ _ => gives_pure

/-! ## The two transposed operators -/

/-- The inputs that resolve a transposed convolution. The addend has no part in that. -/
def roles (i : TransposedInputs) : Fact × Fact × Option Fact := (i.data, i.filters, i.outputShape)

theorem transposedInputs_eq_refuse (wrong : inputs.length ≠ t.inputCount) :
    Conv.transposedInputs kind t inputs =
      Checked.refuse (.convInputCount kind t.inputCount inputs.length) := by
  unfold Conv.transposedInputs
  split
  case h_5 => rfl
  all_goals simp_all [ConvTraits.inputCount]

theorem gives_fusedInputs :
    Gives (fusedInputs takes inputs) ((Conv.fusedInputs takes inputs).map roles) := by
  by_cases count : inputs.length =
    ({ ConvKind.fusedConvBackpropData.traits with takesOutputShape := takes }
    : ConvTraits).inputCount
  case neg =>
    rw [Conv.fusedInputs, transposedInputs_eq_refuse count]
    exact gives_refusal (decide_eq_false count)
  refine gives_granted (decide_eq_true count) ?_
  cases takes with
  | false =>
    obtain ⟨data, filters, addend, rfl⟩ := List.length_eq_three.1 count
    exact gives_pure
  | true =>
    match inputs, count with
    | [data, filters, shape, addend], _ => exact gives_pure

theorem gives_deconvInputs :
    Gives (deconvInputs kind takes inputs) ((Conv.deconvInputs kind takes inputs).map roles) := by
  by_cases transposed : kind = .convolutionBackpropData ∨ kind = .groupConvolutionBackpropData
  case neg =>
    have refused : (kind = .convolutionBackpropData ||
        kind = .groupConvolutionBackpropData : Bool) = false := by
      simpa using transposed
    rw [Conv.deconvInputs, refused]
    exact gives_refusal refused
  have required : (kind = .convolutionBackpropData ||
      kind = .groupConvolutionBackpropData : Bool) = true := by
    simpa using transposed
  refine gives_granted required ?_
  rw [Conv.deconvInputs, required]
  by_cases count : inputs.length =
    ({ kind.traits with takesOutputShape := takes } : ConvTraits).inputCount
  case neg =>
    rw [transposedInputs_eq_refuse count]
    exact gives_refusal (decide_eq_false count)
  refine gives_granted (decide_eq_true count) ?_
  have unadded : kind.traits.takesAddend = false := by rcases transposed with rfl | rfl <;> rfl
  simp only [ConvTraits.inputCount, unadded] at count ⊢
  cases takes with
  | false =>
    obtain ⟨data, filters, rfl⟩ := List.length_eq_two.1 count
    exact gives_pure
  | true =>
    obtain ⟨data, filters, shape, rfl⟩ := List.length_eq_three.1 count
    exact gives_pure

theorem gives_deconvQuery :
    Gives (deconvQuery kind w takes inputs) (Conv.deconvQuery kind w takes inputs) :=
  gives_deconvInputs.bind_map fun _ _ => gives_lift faultless_outputShapeQuery

theorem gives_fusedQuery : Gives (fusedQuery w takes inputs) (Conv.fusedQuery w takes inputs) :=
  gives_fusedInputs.bind_map fun _ _ => gives_lift faultless_outputShapeQuery

theorem gives_resolveDeconv :
    Gives (resolveDeconv kind w takes inputs) (Conv.resolveDeconv kind w takes inputs) :=
  gives_deconvInputs.bind_map fun _ _ => gives_resolveTransposed

theorem gives_resolveFused :
    Gives (resolveFused w takes inputs) (Conv.resolveFused w takes inputs) :=
  gives_fusedInputs.bind_map fun _ _ => gives_resolveTransposed

end EvenPad.Strict
