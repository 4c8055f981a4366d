import EvenPad.Proofs.Window.Forward

/-!
What a transposed convolution leaves of the extents that it fills. An axis keeps what its pads do
not cut off (`Axis.SignFree.transposedExtent_eq_fixed_iff`), and a shape is that of its axes
(`transposedShape_eq_ok_iff`). Main statement: a forward convolution over the output has the shape
of the input (`forwardShape_of_transposedShape`), since output padding adds less than one more
stride.
-/

namespace EvenPad.Window

variable {w : Window} {a : Axis} {axis input filter output : Nat} {outputPadding : Int}

/-! ## One axis -/

/-- The number of elements that a transposed convolution fills before its pads are cut off. -/
def Axis.filled (a : Axis) (outputPadding : Int) (input filter : Nat) : Int :=
  a.stride * ((input : Int) - 1) + a.dilation * ((filter : Int) - 1) + 1 + outputPadding

/-- Steps and lengths are the same numbers when they are read with a sign. -/
structure Axis.SignFree (a : Axis) (input filter : Nat) : Prop where
  stride : a.stride < 9223372036854775808
  dilation : a.dilation < 9223372036854775808
  input : input < 9223372036854775808
  filter : filter < 9223372036854775808

theorem Axis.SignFree.naturalLength_eq (signFree : a.SignFree input filter) :
    a.naturalLength outputPadding input filter = a.filled outputPadding input filter := by
  rw [naturalLength, filled, Word.signed_of_lt signFree.stride,
    Word.signed_of_lt signFree.dilation,
    Word.signed_of_lt signFree.input, Word.signed_of_lt signFree.filter]

/-- An axis keeps what its pads do not cut off. -/
theorem Axis.SignFree.transposedExtent_eq_ok_iff {e : Extent} (signFree : a.SignFree input filter)
    (keptSmall : a.filled outputPadding input filter - a.padBegin - a.padEnd <
      9223372036854775808) :
    a.transposedExtent outputPadding axis (.fixed input) (.fixed filter) = .ok e ↔
      ∃ output : Nat, e = .fixed output ∧
        (output : Int) = a.filled outputPadding input filter - a.padBegin - a.padEnd := by
  simp only [transposedExtent, Checked.within_eq_ok, Extent.ofSigned, signFree.naturalLength_eq]
  split
  · next nonneg =>
    rw [Word.unsigned_of_nonneg nonneg (by omega), Except.ok.injEq]
    constructor
    · rintro rfl
      exact ⟨_, rfl, Int.toNat_of_nonneg nonneg⟩
    · rintro ⟨output, rfl, kept⟩
      rw [← kept, Int.toNat_natCast]
  · next negative =>
    constructor
    · exact fun refused => absurd refused Checked.refuse_ne_ok
    · rintro ⟨output, -, kept⟩
      omega

/-- What is filled, counted from the elements of the input before the last one. -/
theorem Axis.filled_eq (nonempty : 0 < filter) :
    a.filled outputPadding input filter =
      ((input : Int) - 1) * a.stride + a.span filter + outputPadding := by
  obtain ⟨f, rfl⟩ := Nat.exists_eq_add_one.2 nonempty
  simp only [filled, span, Nat.add_sub_cancel]
  push_cast
  rw [Int.mul_comm, Int.add_sub_cancel, Int.mul_comm (a.dilation : Int)]
  omega

/-- Steps and lengths are positive, output padding is shorter than a stride, and neither what is
filled nor what is left of it becomes negative when it is read with a sign. -/
structure Axis.Reversible (a : Axis) (outputPadding : Int) (input filter : Nat) : Prop where
  stridePos : 0 < a.stride
  dilationPos : 0 < a.dilation
  inputPos : 0 < input
  filterPos : 0 < filter
  padding : 0 ≤ outputPadding ∧ outputPadding < a.stride
  signFree : a.SignFree input filter
  filledSmall : a.filled outputPadding input filter < 9223372036854775808
  keptSmall : a.filled outputPadding input filter - a.padBegin - a.padEnd < 9223372036854775808

/-- As many windows fit into what is left, padded again, as the axis had elements. -/
theorem Axis.Reversible.forwardExtent {e : Extent}
    (reversible : a.Reversible outputPadding input filter)
    (extent : a.transposedExtent outputPadding axis (.fixed input) (.fixed filter) = .ok e) :
    a.forwardExtent axis e (.fixed filter) = .ok (.fixed input) := by
  obtain ⟨stridePos, dilationPos, inputPos, filterPos, ⟨nonneg, short⟩, signFree,
      filledSmall, keptSmall⟩ :=
    reversible
  obtain ⟨output, rfl, kept⟩ := (signFree.transposedExtent_eq_ok_iff keptSmall).1 extent
  rw [a.filled_eq filterPos] at kept filledSmall keptSmall
  have before : 0 ≤ ((input : Int) - 1) * a.stride := Int.mul_nonneg (by omega) (by omega)
  have regular : a.Regular filter :=
    ⟨stridePos, dilationPos, filterPos, signFree.stride, by omega⟩
  -- with the pads put back, what is left is what was filled
  have padded : output + a.padBegin + a.padEnd =
      ((input : Int) - 1) * a.stride + a.span filter + outputPadding := by
    omega
  rw [regular.forwardExtent_eq_fixed_iff (by omega) (by omega), padded]
  rw [Int.sub_mul, Int.one_mul]
  omega

/-! ## All axes -/

/-- A transposed convolution has an output exactly if its lists fit and each axis has one. -/
theorem transposedShape_eq_ok_iff {input filter output : List Extent} :
    w.transposedShape input filter = .ok output ↔
      w.OfRank input.length ∧ w.outputPadding.length = input.length ∧
        filter.length = input.length ∧ output.length = input.length ∧
        ∀ {i : Nat} {a p n f o}, w.axes[i]? = some a → w.outputPadding[i]? = some p →
          input[i]? = some n → filter[i]? = some f → output[i]? = some o →
          a.transposedExtent p i n f = .ok o := by
  simp only [transposedShape, Checked.bind_eq_ok, checkLengths_eq_ok, List.forall_mem_cons,
    Checked.mapM_eq_ok_iff, List.forall₂_iff_get]
  constructor
  · rintro ⟨_, ⟨filters, strides, dilations, padsBegin, padsEnd, paddings, -⟩, outputs, extents⟩
    have ofRank : w.OfRank input.length := ⟨strides, dilations, padsBegin, padsEnd⟩
    have length : output.length = input.length := by
      rw [← outputs]
      simp [ofRank.length_axes, filters, paddings]
    refine ⟨ofRank, paddings, filters, length,
      fun {i a p n f o} axisAt paddingAt inputAt filterAt outputAt => ?_⟩
    obtain ⟨lt, rfl⟩ := List.getElem?_eq_some_iff.1 outputAt
    have found : (((w.axes.zip w.outputPadding).zip (input.zip filter)).zipIdx)[i]? =
        some (((a, p), n, f), i) := by
      simp [List.getElem?_zipIdx, List.getElem?_zip_eq_some, axisAt, paddingAt, inputAt, filterAt]
    have extent := extents i (by omega) lt
    rw [List.get_eq_getElem, (List.getElem?_eq_some_iff.1 found).2] at extent
    exact extent
  · rintro ⟨ofRank, paddings, filters, outputs, extents⟩
    have axes := ofRank.length_axes
    refine ⟨⟨⟩, ⟨filters, ofRank.strides, ofRank.dilations, ofRank.padsBegin, ofRank.padsEnd,
        paddings, by simp⟩, ?_,
      fun i here there => ?_⟩
    · simp [axes, filters, paddings, outputs]
    · simp only [List.get_eq_getElem, List.getElem_zipIdx, List.getElem_zip, Nat.zero_add]
      exact extents (List.getElem?_eq_getElem (by omega)) (List.getElem?_eq_getElem (by omega))
        (List.getElem?_eq_getElem (by omega)) (List.getElem?_eq_getElem (by omega))
        (List.getElem?_eq_getElem there)

/-- A forward convolution over the output of a transposed one has the shape of its input. -/
theorem forwardShape_of_transposedShape {input filter : List Nat} {output : List Extent}
    (reversible : ∀ x ∈ (w.axes.zip w.outputPadding).zip (input.zip filter),
      x.1.1.Reversible x.1.2 x.2.1 x.2.2)
    (shape : w.transposedShape (input.map .fixed) (filter.map .fixed) = .ok output) :
    w.forwardShape output (filter.map .fixed) = .ok (input.map .fixed) := by
  obtain ⟨ofRank, paddings, filters, outputs, extents⟩ := transposedShape_eq_ok_iff.1 shape
  refine forwardShape_eq_ok_iff.2 ⟨outputs ▸ ofRank, filters.trans outputs.symm, outputs.symm, ?_⟩
  intro axis a e f x axisAt outputAt filterAt inputAt
  have lt := (List.getElem?_eq_some_iff.1 outputAt).1
  have paddingAt := List.getElem?_eq_getElem (show axis < w.outputPadding.length by omega)
  have extent := extents axisAt paddingAt inputAt filterAt outputAt
  simp only [List.getElem?_map, Option.map_eq_some_iff] at filterAt inputAt
  obtain ⟨f, filterAt, rfl⟩ := filterAt
  obtain ⟨i, inputAt, rfl⟩ := inputAt
  have mem : ((a, _), i, f) ∈ (w.axes.zip w.outputPadding).zip (input.zip filter) :=
    List.mem_of_getElem? (List.getElem?_zip_eq_some.2
      ⟨List.getElem?_zip_eq_some.2 ⟨axisAt, paddingAt⟩,
        List.getElem?_zip_eq_some.2 ⟨inputAt, filterAt⟩⟩)
  exact (reversible _ mem).forwardExtent extent

/-- Pads of either sign are put back, also where they leave nothing. -/
theorem forwardShape_of_transposedShape_emptyOutput :
    (Window.mk [3, 1] [2, 1] [-1, 1] [2, 1] .explicit [2, 0]).transposedShape ([4, 1].map .fixed)
        ([3, 2].map .fixed) = .ok [.fixed 15, .fixed 0] ∧
      (Window.mk [3, 1] [2, 1] [-1, 1] [2, 1] .explicit [2, 0]).forwardShape [.fixed 15, .fixed 0]
        ([3, 2].map .fixed) = .ok ([4, 1].map .fixed) := by
  have shape : (Window.mk [3, 1] [2, 1] [-1, 1] [2, 1] .explicit [2, 0]).transposedShape
      ([4, 1].map .fixed) ([3, 2].map .fixed) = .ok [.fixed 15, .fixed 0] := rfl
  refine ⟨shape, forwardShape_of_transposedShape
    (List.forall_mem_cons.2 ⟨?_, List.forall_mem_singleton.2 ?_⟩) shape⟩
  all_goals
    exact ⟨by decide, by decide, by decide, by decide, by decide,
      ⟨by decide, by decide, by decide, by decide⟩, by decide, by decide⟩

end EvenPad.Window
