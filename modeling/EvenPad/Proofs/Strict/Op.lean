import EvenPad.Op.Inference
import EvenPad.Proofs.Slice.Length
import EvenPad.Proofs.Strict.Conv

/-!
Operators by position. Pads and slices count their inputs before they take them, and a slice looks
up a range only on an axis that has one; a stride is compared with zero before the length of a
range is divided by it. Main statement: whatever its configuration and its inputs, an operator
answers everything it can be asked about its output without a miss and without a fault
(`Op.answers_everything`).
-/

namespace EvenPad

/-- Every extent that is known is the same number with a sign. -/
def Shape.Small : Shape → Prop
  | .unranked => True
  | .ranked extents => ∀ n, .fixed n ∈ extents → n < 9223372036854775808

/-! ## The computations -/

namespace Strict

def pad (inputs : List Fact) : Strict Fact := do
  Checked.require (inputs.length = 3 || inputs.length = 4) (.padInputCount inputs.length)
  let data ← entry inputs 0
  let before ← (← entry inputs 1).vector .padBegin
  let after ← (← entry inputs 2).vector .padEnd
  Checked.require (before.length = after.length) .padLengthsDiffer
  match inputs[3]? with
  | some value => Pad.checkValue data value
  | none => pure ()
  return .typed data.elementType (← Pad.shape data before after)

/-- The number of elements of a range. -/
def count (start stop stride : Int) : Strict Int := do
  if 0 < stride then return (stop - start + stride - 1) / (← divisor stride)
  else return (start - stop - stride - 1) / (← divisor (-stride))

def sliceLength (beginMask endMask : AxisMask) (axis length : Nat)
    (first last stride : Int) : Strict Nat := do
  Checked.require (stride ≠ 0) (.nullSliceStride axis)
  let (start, stop) ←
    StridedSlice.bounds (beginMask.getLsbD axis) (endMask.getLsbD axis)
      (Word.signed length) first last stride
  return (max (← count start stop stride) 0).toNat

/-- The extent selected on an axis, the whole of it where there is no range. -/
def sliceExtent (beginMask endMask : AxisMask) (firsts lasts strides : List Int)
    (axis : Nat) (extent : Extent) : Strict Extent := do
  if firsts.length ≤ axis then return extent
  match extent with
  | .fixed length =>
    return .fixed (← sliceLength beginMask endMask axis length
      (← entry firsts axis) (← entry lasts axis) (← entry strides axis))
  | .dynamic => do
    Checked.require ((← entry strides axis) ≠ 0) (.nullSliceStride axis)
    return .dynamic

def sliceShape (beginMask endMask : AxisMask) (data : Shape)
    (firsts lasts strides : List Int) : Strict Shape :=
  match data with
  | .unranked => return .unranked
  | .ranked extents => do
    Checked.require (firsts.length ≤
      extents.length) (.sliceRangeCount firsts.length extents.length)
    return .ranked (← extents.zipIdx.mapM fun (extent, axis) =>
      sliceExtent beginMask endMask firsts lasts strides axis extent)

def slice (beginMask endMask : AxisMask) (inputs : List Fact) : Strict Fact := do
  Checked.require (inputs.length = 3 || inputs.length = 4) (.sliceInputCount inputs.length)
  let data ← entry inputs 0
  let firsts ← (← entry inputs 1).vector .sliceBegin
  let lasts ← (← entry inputs 2).vector .sliceEnd
  let steps ←
    match inputs[3]? with
    | some s => s.vector .sliceStrides
    | none => pure (firsts.map fun _ => 1)
  Checked.require (firsts.length = lasts.length && firsts.length = steps.length)
    (.sliceLengthsDiffer firsts lasts steps)
  return .typed data.elementType (← sliceShape beginMask endMask data.shape firsts lasts steps)

/-- The fact of a transposed convolution with an addend, which is taken after the convolution is
resolved. -/
def fusedFact (w : Window) (takesOutputShape : Bool) (built : Fact)
    (inputs : List Fact) : Strict Fact := do
  let resolved ← resolveFused w takesOutputShape inputs
  let addend ← entry inputs (2 + takesOutputShape.toNat)
  Checked.require (addend.elementType = built.elementType) (.addendType addend built)
  Checked.require (resolved.fact.elementType = built.elementType)
    (.addendOutputType resolved.fact.elementType built.elementType)
  return resolved.fact

def outputFact (op : Op) (inputs : List Fact) : Strict Fact :=
  match op with
  | .conv kind w => Resolution.fact <$> resolveForward kind w inputs
  | .deconv kind w takesOutputShape =>
    Resolution.fact <$> resolveDeconv kind w takesOutputShape inputs
  | .fusedDeconv w takesOutputShape built => fusedFact w takesOutputShape built inputs
  | .pad => pad inputs
  | .stridedSlice beginMask endMask => slice beginMask endMask inputs
  | .const t => return .constant t
  | .source fact => do
    Checked.require inputs.isEmpty .sourceWithInputs
    return fact

/-! ## Pads -/

variable {inputs : List Fact} {data : Fact}

theorem faultless_vector {f : Fact} {operand : VectorOperand} : (f.vector operand).Faultless := by
  refine Checked.faultless_ofOption.bind fun _ _ => ?_
  refine Checked.faultless_require.bind fun _ _ => ?_
  exact Checked.faultless_require.bind fun _ _ => faultless_integers

theorem faultless_padShape {before after : List Int} :
    (Pad.shape data before after).Faultless := by
  unfold Pad.shape
  split
  · refine Checked.faultless_require.bind fun _ _ => ?_
    refine (Checked.faultless_mapM fun (e, b, a) _ => ?_).bind fun _ _ => Checked.faultless_pure
    cases e with
    | fixed n => exact faultless_ofSigned
    | dynamic => exact Checked.faultless_pure
  · exact Checked.faultless_pure

theorem faultless_checkValue {value : Fact} : (Pad.checkValue data value).Faultless :=
  Checked.faultless_require.bind fun _ _ => Checked.faultless_require

/-- Three or four inputs are counted before they are taken. -/
theorem counted_of_others {α : Type} {l : List α} (three : ∀ a b c, l = [a, b, c] → False)
    (four : ∀ a b c d, l = [a, b, c, d] → False) :
    (l.length = 3 || l.length = 4 : Bool) = false := by
  match l with
  | [] | [_] | [_, _] => rfl
  | [a, b, c] => exact (three a b c rfl).elim
  | [a, b, c, d] => exact (four a b c d rfl).elim
  | _ :: _ :: _ :: _ :: _ :: _ => simp

theorem gives_pad : Gives (pad inputs) (Op.pad.outputFact inputs) := by
  unfold Op.outputFact
  dsimp only
  split
  case h_3 three four => exact gives_refusal (counted_of_others three four)
  all_goals
    refine gives_granted rfl ?_
    refine gives_check faultless_vector fun before _ => ?_
    refine gives_check faultless_vector fun after _ => ?_
    refine gives_require fun _ => ?_
  case h_1 => exact gives_check faultless_padShape fun _ _ => gives_pure
  case h_2 =>
    refine gives_check faultless_checkValue fun _ _ => ?_
    exact gives_check faultless_padShape fun _ _ => gives_pure

/-! ## Slices -/

variable {beginMask endMask : AxisMask} {axis : Nat} {firsts lasts strides : List Int}

/-- A range of an axis whose length is the same with a sign is cut to bounds that are in order. -/
theorem faultless_bounds {beginMasked endMasked : Bool} {length first last stride : Int}
    (nonneg : 0 ≤ length) :
    (StridedSlice.bounds beginMasked endMasked length first last stride).Faultless := by
  rw [StridedSlice.bounds_eq nonneg]
  exact Checked.faultless_pure

theorem gives_count {start stop stride : Int} (nonzero : stride ≠ 0) :
    count start stop stride = pure (StridedSlice.count start stop stride) := by
  unfold count StridedSlice.count
  split
  · rw [divisor_of_ne_zero nonzero]
    rfl
  · rw [divisor_of_ne_zero (by omega)]
    rfl

theorem gives_sliceLength {length : Nat} {first last stride : Int}
    (small : length < 9223372036854775808) :
    Gives (sliceLength beginMask endMask axis length first last stride)
      (StridedSlice.sliceLength beginMask endMask axis length first last stride) := by
  refine gives_require fun nonzero => ?_
  have nonneg : 0 ≤ Word.signed length := by rw [Word.signed_of_lt small]; omega
  refine gives_check (faultless_bounds nonneg) fun (start, stop) _ => ?_
  simp only [gives_count (of_decide_eq_true nonzero), pure_bind]
  exact gives_pure

theorem gives_sliceExtent {extent : Extent} {first last stride : Int}
    (firstAt : firsts[axis]? = some first) (lastAt : lasts[axis]? = some last)
    (strideAt : strides[axis]? = some stride)
    (small : ∀ n, extent = .fixed n → n < 9223372036854775808) :
    Gives (sliceExtent beginMask endMask firsts lasts strides axis extent)
      (StridedSlice.sliceExtent beginMask endMask axis extent first last stride) := by
  have ranged : ¬firsts.length ≤ axis := by
    have within := (List.getElem?_eq_some_iff.1 firstAt).1
    omega
  unfold sliceExtent
  rw [if_neg ranged]
  cases extent with
  | fixed length =>
    simp only [entry_of_getElem? firstAt, entry_of_getElem? lastAt,
      entry_of_getElem? strideAt, pure_bind]
    exact (gives_sliceLength (small length rfl)).map
  | dynamic =>
    simp only [entry_of_getElem? strideAt, pure_bind]
    exact gives_require fun _ => gives_pure

theorem sliceExtent_of_le {extent : Extent} (past : firsts.length ≤ axis) :
    sliceExtent beginMask endMask firsts lasts strides axis extent = pure extent := by
  unfold sliceExtent
  rw [if_pos past]

/-- The axes that have a range, and after them the others as they are. -/
theorem gives_sliced {extents : List Extent} (lengths : firsts.length = lasts.length)
    (steps : firsts.length = strides.length) (within : firsts.length ≤ extents.length)
    (small : ∀ n, .fixed n ∈ extents → n < 9223372036854775808) :
    Gives (extents.zipIdx.mapM fun e =>
      sliceExtent beginMask endMask firsts lasts strides e.2 e.1)
      (((extents.zip (firsts.zip (lasts.zip strides))).zipIdx.mapM fun e =>
          StridedSlice.sliceExtent beginMask endMask e.2 e.1.1 e.1.2.1 e.1.2.2.1 e.1.2.2.2).map
        (· ++ extents.drop firsts.length)) := by
  have ranged : Gives
      ((extents.take firsts.length).zipIdx.mapM fun e =>
        sliceExtent beginMask endMask firsts lasts strides e.2 e.1)
      ((extents.zip (firsts.zip (lasts.zip strides))).zipIdx.mapM fun e =>
        StridedSlice.sliceExtent beginMask endMask e.2 e.1.1 e.1.2.1 e.1.2.2.1 e.1.2.2.2) := by
    refine gives_mapM (List.forall₂_iff_get.2 ⟨?_, fun i _ below => ?_⟩)
    · simp only [List.length_zipIdx, List.length_take, List.length_zip]
      omega
    have below : i < firsts.length := by
      simp only [List.length_zipIdx, List.length_zip] at below
      omega
    simp only [List.get_eq_getElem, List.getElem_zipIdx, List.getElem_take,
      List.getElem_zip, Nat.zero_add]
    refine gives_sliceExtent ?_ ?_ ?_ ?_
    · exact List.getElem?_eq_getElem _
    · exact List.getElem?_eq_getElem _
    · exact List.getElem?_eq_getElem _
    · exact fun n known => small n (known ▸ List.getElem_mem _)
  have whole : Gives
      (((extents.drop firsts.length).zipIdx firsts.length).mapM fun e =>
        sliceExtent beginMask endMask firsts lasts strides e.2 e.1)
      ((extents.drop firsts.length).mapM fun extent => pure (id extent)) := by
    refine gives_mapM (List.forall₂_iff_get.2 ⟨by simp, fun i _ _ => ?_⟩)
    simp only [List.get_eq_getElem, List.getElem_zipIdx]
    rw [sliceExtent_of_le (Nat.le_add_right _ _), List.getElem_drop]
    exact gives_pure
  rw [List.mapM_pure, List.map_id] at whole
  have parts : extents.zipIdx =
      (extents.take firsts.length).zipIdx ++
        (extents.drop firsts.length).zipIdx firsts.length := by
    conv_lhs => rw [← List.take_append_drop firsts.length extents, List.zipIdx_append]
    rw [List.length_take, Nat.min_eq_left within, Nat.zero_add]
  have joined {c : Checked (List Extent)} : c.map (· ++ extents.drop firsts.length) =
      c >>= fun sliced => pure (extents.drop firsts.length) >>= fun others =>
        pure (sliced ++ others) := by
    cases c <;> rfl
  rw [parts, List.mapM_append, joined]
  exact ranged.bind fun _ _ => whole.bind fun _ _ => gives_pure

theorem gives_sliceShape {data : Shape} (lengths : firsts.length = lasts.length)
    (steps : firsts.length = strides.length) (small : data.Small) :
    Gives (sliceShape beginMask endMask data firsts lasts strides)
      (StridedSlice.shape beginMask endMask data firsts lasts strides) := by
  cases data with
  | unranked => exact gives_pure
  | ranked extents =>
    refine gives_require fun within => ?_
    exact (gives_sliced lengths steps (of_decide_eq_true within) small).bind_map fun _ _ =>
      gives_pure

theorem gives_slice (small : ∀ f ∈ inputs, f.shape.Small) :
    Gives (slice beginMask endMask inputs)
      ((Op.stridedSlice beginMask endMask).outputFact inputs) := by
  unfold Op.outputFact
  dsimp only
  split
  case h_3 three four => exact gives_refusal (counted_of_others three four)
  all_goals
    refine gives_granted rfl ?_
    refine gives_check faultless_vector fun firsts _ => ?_
    refine gives_check faultless_vector fun lasts _ => ?_
  case' h_1 => refine gives_pure.bind fun steps _ => ?_
  case' h_2 => refine gives_check faultless_vector fun steps _ => ?_
  all_goals
    refine gives_require fun lengths => ?_
    simp only [Bool.and_eq_true, decide_eq_true_eq] at lengths
    exact (gives_sliceShape lengths.1 lengths.2 (small _ List.mem_cons_self)).bind fun _ _ =>
      gives_pure

/-! ## Addends -/

/-- The addend is the input after the output shape. -/
theorem addend_of_fusedInputs {takes : Bool} {i : Conv.TransposedInputs}
    (roles : Conv.fusedInputs takes inputs = .ok i) :
    ∃ addend, i.addend = some addend ∧ inputs[2 + takes.toNat]? = some addend := by
  unfold Conv.fusedInputs Conv.transposedInputs at roles
  split at roles
  case h_5 => simp at roles
  -- without an addend there is no such operator
  case h_1 | h_2 => simp_all [ConvKind.traits]
  all_goals
    next takes _ =>
    cases Except.ok.inj roles
    exact ⟨_, rfl, by simp_all⟩

theorem gives_fusedFact {w : Window} {takes : Bool} {built : Fact} :
    Gives (fusedFact w takes built inputs) (Op.fusedFact w takes built inputs) := by
  refine gives_resolveFused.bind fun resolved run => ?_
  obtain ⟨i, roles, -⟩ := Checked.bind_eq_ok.1 run
  obtain ⟨addend, given, addendAt⟩ := addend_of_fusedInputs roles
  rw [entry_of_getElem? addendAt, pure_bind, roles]
  obtain ⟨_, _, _, _⟩ := i
  cases given
  exact gives_require fun _ => gives_require fun _ => gives_pure

end Strict

/-! ## Every operator -/

namespace Op

/-- What a forward convolution divides by are words. -/
def WordStrides : Op → Prop
  | .conv _ w => w.WordStrides
  | _ => True

/-- Everything that an operator can be asked about its inputs has an answer or a refusal: the fact
of its output and, where there is a convolution, how it resolves and which output shape is wanted
of it. -/
structure Answers (op : Op) (inputs : List Fact) : Prop where
  fact : Strict.Gives (Strict.outputFact op inputs) (op.outputFact inputs)
  forward : ∀ {kind w}, op = .conv kind w →
    Strict.Gives (Strict.resolveForward kind w inputs) (Conv.resolveForward kind w inputs)
  transposed : ∀ {kind w takes}, op = .deconv kind w takes →
    Strict.Gives (Strict.resolveDeconv kind w takes inputs)
      (Conv.resolveDeconv kind w takes inputs) ∧
      Strict.Gives (Strict.deconvQuery kind w takes inputs) (Conv.deconvQuery kind w takes inputs)
  fused : ∀ {w takes built}, op = .fusedDeconv w takes built →
    Strict.Gives (Strict.resolveFused w takes inputs) (Conv.resolveFused w takes inputs) ∧
      Strict.Gives (Strict.fusedQuery w takes inputs) (Conv.fusedQuery w takes inputs)

open Strict in
theorem answers_everything {op : Op} {inputs : List Fact} (words : op.WordStrides)
    (small : ∀ f ∈ inputs, f.shape.Small) : op.Answers inputs where
  fact := by
    cases op with
    | conv kind w => exact (gives_resolveForward words).map
    | deconv kind w takes => exact gives_resolveDeconv.map
    | fusedDeconv w takes built => exact gives_fusedFact
    | pad => exact gives_pad
    | stridedSlice beginMask endMask => exact gives_slice small
    | const value => exact gives_pure
    | source fact =>
      cases inputs with
      | nil => exact gives_pure
      | cons => exact gives_refusal rfl
  forward := by
    rintro kind w rfl
    exact gives_resolveForward words
  transposed := by
    rintro kind w takes rfl
    exact ⟨gives_resolveDeconv, gives_deconvQuery⟩
  fused := by
    rintro w takes built rfl
    exact ⟨gives_resolveFused, gives_fusedQuery⟩

/-- A convolution that derives its pads from the data, with the pads of one axis at its end. -/
theorem answers_everything_sameUpper :
    let op := Op.conv .convolution ⟨[2], [], [], [], .sameUpper, []⟩
    let data := Fact.typed .f32 (.ranked [.fixed 1, .fixed 3, .fixed 10])
    let filters := Fact.typed .f32 (.ranked [.fixed 8, .fixed 3, .fixed 3])
    op.WordStrides ∧ (∀ f ∈ [data, filters], f.shape.Small) ∧ op.Answers [data, filters] ∧
      op.outputFact [data, filters] =
        .ok (.typed .f32 (.ranked [.fixed 1, .fixed 8, .fixed 5])) := by
  intro op data filters
  have words : op.WordStrides := by
    intro stride mem
    cases List.mem_singleton.1 mem
    decide
  have small : ∀ f ∈ [data, filters], f.shape.Small := by
    simp [data, filters, Fact.typed, Shape.Small]
  exact ⟨words, small, answers_everything words small, by decide +kernel⟩

end Op

end EvenPad
