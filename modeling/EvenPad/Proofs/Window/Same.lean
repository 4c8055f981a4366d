import EvenPad.Proofs.Window.Forward
import EvenPad.Window.SamePads
import Mathlib.Algebra.Order.Floor.Div

/-!
The pads of a SAME mode on an axis of a forward convolution. They are what is missing to the end
of the last of `⌈input / stride⌉` windows. Main statement: with them the axis has that many
outputs, no fewer elements of padding suffice for it, and the two ends differ by the odd one at
most (`samePads_least`). An axis without elements has one output all the same
(`forwardExtent_same`).
-/

namespace EvenPad.Window

variable {input kernel dilation stride axis : Nat} {upper : Bool} {same : SameAxis}

/-- Where the last of `⌈input / stride⌉` windows ends, or the only one if there is nothing to
read. -/
def sameEnd (input kernel dilation stride : Nat) : Nat :=
  (max (input ⌈/⌉ stride) 1 - 1) * stride + ((kernel - 1) * dilation + 1)

/-- The stride, the input and the end of the last window are the same numbers when they are read
with a sign. -/
structure SameSignFree (input kernel dilation stride : Nat) : Prop where
  strideSmall : stride < 9223372036854775808
  inputSmall : input < 9223372036854775808
  lastSmall : sameEnd input kernel dilation stride < 9223372036854775808

/-- There is a window exactly where there is something to read. -/
theorem ceilDiv_pos_iff (stridePos : 0 < stride) : 0 < input ⌈/⌉ stride ↔ 0 < input := by
  simpa using lt_iff_lt_of_le_iff_le (ceilDiv_le_iff_le_mul stridePos (b := input) (c := 0))

/-- Pads are derived where the filter has an element and moves and spreads by at least one. -/
theorem samePads_eq_ok_iff : samePads input kernel dilation stride upper = .ok same ↔
    (0 < stride ∧ 0 < dilation ∧ 0 < kernel) ∧ same.input = input ∧
    same.output = input ⌈/⌉ stride ∧
      same.padBefore + same.padAfter = sameEnd input kernel dilation stride - input ∧
        if upper then same.padAfter = same.padBefore ∨ same.padAfter = same.padBefore + 1
        else same.padBefore = same.padAfter ∨ same.padBefore = same.padAfter + 1 := by
  obtain ⟨input', output, padBefore, padAfter⟩ := same
  simp only [samePads, Checked.bind_eq_ok, Checked.require_eq_ok, Checked.pure_eq_ok,
    Bool.and_eq_true, decide_eq_true_eq, ← Nat.ceilDiv_eq_add_pred_div, ← sameEnd.eq_def]
  cases upper with
  | true =>
    simp only [if_true, SameAxis.mk.injEq]
    constructor
    · rintro ⟨_, moves, rfl, rfl, rfl, rfl⟩
      exact ⟨by omega, rfl, rfl, by omega, by omega⟩
    · rintro ⟨moves, rfl, rfl, sum, balanced⟩
      exact ⟨⟨⟩, by omega, rfl, rfl, by omega, by omega⟩
  | false =>
    simp only [Bool.false_eq_true, if_false, SameAxis.mk.injEq]
    constructor
    · rintro ⟨_, moves, rfl, rfl, rfl, rfl⟩
      exact ⟨by omega, rfl, rfl, by omega, by omega⟩
    · rintro ⟨moves, rfl, rfl, sum, balanced⟩
      exact ⟨⟨⟩, by omega, rfl, rfl, by omega, by omega⟩

theorem SameSignFree.regular (signFree : SameSignFree input kernel dilation stride)
    (moves : 0 < stride ∧ 0 < dilation ∧ 0 < kernel) (padBegin padEnd : Int) :
    (Axis.mk stride dilation padBegin padEnd).Regular kernel where
  stride := moves.1
  dilation := moves.2.1
  nonempty := moves.2.2
  strideSmall := signFree.strideSmall
  spanSmall := (Nat.le_add_left _ _).trans_lt signFree.lastSmall

/-- The end of the last window, counted from the windows before it. -/
theorem sameEnd_eq (input kernel dilation stride : Nat) (padBegin padEnd : Int) :
    (sameEnd input kernel dilation stride : Int) =
      ((max 1 (input ⌈/⌉ stride) : Nat) - 1) * stride +
        (Axis.mk stride dilation padBegin padEnd).span kernel := by
  obtain ⟨n, windows⟩ : ∃ n, max 1 (input ⌈/⌉ stride) = n + 1 :=
    ⟨max 1 (input ⌈/⌉ stride) - 1, by omega⟩
  rw [sameEnd, Nat.max_comm, windows, Axis.span]
  simp

/-- With the pads of a SAME mode an axis has `⌈input / stride⌉` outputs, or one if there is
nothing to read. -/
theorem forwardExtent_same (pads : samePads input kernel dilation stride upper = .ok same)
    (signFree : SameSignFree input kernel dilation stride) :
    (Axis.mk stride dilation same.padBefore same.padAfter).forwardExtent axis
      (.fixed input) (.fixed kernel) =
      .ok (.fixed (max 1 (input ⌈/⌉ stride))) := by
  obtain ⟨moves, -, -, total, -⟩ := samePads_eq_ok_iff.1 pads
  have inputSmall := signFree.inputSmall
  have lastSmall := signFree.lastSmall
  have padded : (input : Int) + same.padBefore + same.padAfter =
      max input (sameEnd input kernel dilation stride) := by
    omega
  rw [(signFree.regular moves _ _).forwardExtent_eq_fixed_iff inputSmall (by dsimp only; omega),
    ← sameEnd_eq]
  dsimp only
  rw [padded]
  -- one more window ends past the input and past the last window
  have covered : input ≤ stride * max 1 (input ⌈/⌉ stride) :=
    (le_smul_ceilDiv moves.1).trans (Nat.mul_le_mul_left _ (Nat.le_max_right _ _))
  have reach : (input : Int) ≤ (max 1 (input ⌈/⌉ stride) : Nat) * stride := by
    rw [Int.mul_comm]
    exact_mod_cast covered
  have ends := sameEnd_eq input kernel dilation stride 0 0
  rw [Int.sub_mul, Int.one_mul] at ends
  have span : (Axis.mk stride dilation same.padBefore same.padAfter).span kernel =
      (Axis.mk stride dilation 0 0).span kernel := rfl
  have spanPos : 0 < (Axis.mk stride dilation 0 0).span kernel := Nat.succ_pos _
  rw [span]
  exact ⟨by omega, by omega, by omega⟩

/-- On an axis with elements, the pads of a SAME mode give `⌈input / stride⌉` outputs, which are
also reported. Pads of either sign that give as many come to no less, where a total below zero
counts as none. The odd element of padding goes at the end with `upper`, and at the beginning
otherwise. -/
theorem samePads_least (upper : Bool) (inputPos : 0 < input) (kernelPos : 0 < kernel)
    (dilationPos : 0 < dilation) (stridePos : 0 < stride)
    (signFree : SameSignFree input kernel dilation stride) :
    ∃ same, samePads input kernel dilation stride upper = .ok same ∧
      same.input = input ∧ same.output = input ⌈/⌉ stride ∧
      (Axis.window ⟨stride, dilation, same.padBefore, same.padAfter⟩ 0).forwardShape
        [.fixed input] [.fixed kernel] =
        .ok [.fixed (input ⌈/⌉ stride)] ∧
      (∀ padBegin padEnd : Int,
        (Axis.window ⟨stride, dilation, padBegin, padEnd⟩ 0).forwardShape
          [.fixed input] [.fixed kernel] =
          .ok [.fixed (input ⌈/⌉ stride)] →
        (same.padBefore + same.padAfter : Int) ≤ max 0 (padBegin + padEnd)) ∧
      if upper then same.padAfter = same.padBefore ∨ same.padAfter = same.padBefore + 1
        else same.padBefore = same.padAfter ∨ same.padBefore = same.padAfter + 1 := by
  have moves : 0 < stride ∧ 0 < dilation ∧ 0 < kernel := ⟨stridePos, dilationPos, kernelPos⟩
  obtain ⟨same, pads⟩ : ∃ same, samePads input kernel dilation stride upper = .ok same := by
    simp [samePads, stridePos, dilationPos, kernelPos, Checked.require, bind,
      Except.bind, pure, Except.pure]
  obtain ⟨-, inputEq, outputEq, total, balanced⟩ := samePads_eq_ok_iff.1 pads
  have windows : max 1 (input ⌈/⌉ stride) = input ⌈/⌉ stride :=
    Nat.max_eq_right ((ceilDiv_pos_iff stridePos).2 inputPos)
  refine ⟨same, pads, inputEq, outputEq, ?_, fun padBegin padEnd shape => ?_, balanced⟩
  · rw [Axis.forwardShape_window, forwardExtent_same pads signFree, windows]
  · -- fewer elements of padding leave the end of the last window outside
    by_contra fewer
    have inputSmall := signFree.inputSmall
    have last := signFree.lastSmall
    rw [Axis.forwardShape_window,
      (signFree.regular moves _ _).forwardExtent_eq_fixed_iff inputSmall (by dsimp only; omega)]
      at shape
    obtain ⟨-, inside, -⟩ := shape
    have ends := sameEnd_eq input kernel dilation stride padBegin padEnd
    rw [windows] at ends
    rw [← ends] at inside
    dsimp only at inside
    omega

/-- Four windows of two elements, three apart, end one element past an input of ten. -/
theorem samePads_least_oddUnit :
    samePads 10 2 1 3 false = .ok ⟨10, 4, 1, 0⟩ ∧
      (Axis.window ⟨3, 1, 1, 0⟩ 0).forwardShape [.fixed 10] [.fixed 2] = .ok [.fixed 4] ∧
      (Axis.window ⟨3, 1, 0, 0⟩ 0).forwardShape [.fixed 10] [.fixed 2] ≠ .ok [.fixed 4] := by
  have pads : samePads 10 2 1 3 false = .ok ⟨10, 4, 1, 0⟩ := rfl
  obtain ⟨same, pads', -, -, shape, least, -⟩ :=
    samePads_least false (by decide : 0 < 10) (by decide : 0 < 2)
      (by decide : 0 < 1) (by decide : 0 < 3)
      ⟨by decide, by decide, by decide⟩
  cases pads.symm.trans pads'
  exact ⟨pads, shape, fun unpadded => absurd (least 0 0 unpadded) (by decide)⟩

end EvenPad.Window
