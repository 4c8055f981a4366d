import EvenPad.Proofs.Window.Forward
import Mathlib.Data.Set.Card

/-!
The positions of a filter in its padded input. They are a stride apart, and the filter stays
inside (`Axis.positions`). Main statements: an axis of known lengths has as many outputs as its
filter has positions (`Axis.forwardExtent_eq_ok_iff`), and a forward convolution has an output
exactly if its lists fit, it moves and spreads, and each filter of known length has an element and
a position (`forwardShape_counts`).
-/

namespace EvenPad

/-- A list can be mapped when each of its elements can. -/
theorem Checked.mapM_ok {α β : Type} {f : α → Checked β} {l : List α}
    (each : ∀ a ∈ l, ∃ b, f a = .ok b) :
    ∃ bs, l.mapM f = .ok bs := by
  induction l with
  | nil => exact ⟨[], rfl⟩
  | cons a rest ih =>
    obtain ⟨⟨b, first⟩, each⟩ := List.forall_mem_cons.1 each
    obtain ⟨bs, others⟩ := ih each
    exact ⟨b :: bs, by rw [List.mapM_cons, first, others]; rfl⟩

namespace Window

variable {w : Window} {a : Axis} {axis : Nat} {e k x : Extent}

/-! ## One axis -/

/-- How many strides a filter may have moved and still end within the padded input. -/
def Axis.positions (a : Axis) (input filter : Nat) : Set Nat :=
  {p | ((p * a.stride + (filter - 1) * a.dilation : Nat) : Int) < input + a.padBegin + a.padEnd}

/-- Stride, input, span and padded input are the same numbers when they are read with a sign. -/
structure Axis.ForwardSignFree (a : Axis) (input filter : Nat) : Prop where
  strideSmall : a.stride < 9223372036854775808
  inputSmall : input < 9223372036854775808
  spanSmall : a.span filter < 9223372036854775808
  paddedSmall : input + a.padBegin + a.padEnd < 9223372036854775808

/-- Where the filter has a length, it has an element and at least one position. -/
def Axis.Fits (a : Axis) : Extent → Extent → Prop
  | .fixed input, .fixed filter => 0 < filter ∧ (a.positions input filter).Nonempty
  | _, _ => True

/-- The output of an axis of known lengths is the number of positions of its filter. Nothing is
known of another. -/
def Axis.Counts (a : Axis) : Extent → Extent → Extent → Prop
  | .fixed input, .fixed filter, output =>
    ∃ n : Nat, output = .fixed n ∧ (a.positions input filter).encard = n
  | _, _, output => output = .dynamic

section Axis

variable {input filter n : Nat}

theorem Axis.mem_positions {p : Nat} :
    p ∈ a.positions input filter ↔
      (p * a.stride + a.span filter : Int) ≤ input + a.padBegin + a.padEnd := by
  simp only [positions, span, Set.mem_ofPred_eq]
  push_cast
  omega

/-- A filter is at its first positions up to the last one that is inside. -/
theorem Axis.positions_eq_Iio
    (last : ((n : Int) - 1) * a.stride + a.span filter ≤ input + a.padBegin + a.padEnd)
    (next : input + a.padBegin + a.padEnd < n * a.stride + a.span filter) :
    a.positions input filter = Set.Iio n := by
  ext p
  rw [mem_positions, Set.mem_Iio]
  constructor
  · intro inside
    by_contra past
    have moved : (n : Int) * a.stride ≤ p * a.stride :=
      Int.mul_le_mul_of_nonneg_right (by omega) (by omega)
    omega
  · intro before
    have moved : (p : Int) * a.stride ≤ ((n : Int) - 1) * a.stride :=
      Int.mul_le_mul_of_nonneg_right (by omega) (by omega)
    omega

theorem Axis.encard_positions
    (last : ((n : Int) - 1) * a.stride + a.span filter ≤ input + a.padBegin + a.padEnd)
    (next : input + a.padBegin + a.padEnd < n * a.stride + a.span filter) :
    (a.positions input filter).encard = n := by
  rw [positions_eq_Iio last next, ← Finset.coe_range,
    Set.encard_coe_eq_coe_finsetCard, Finset.card_range]

/-- A filter that fits at all has a last position. -/
theorem Axis.exists_last (stride : 0 < a.stride) (fits : (a.positions input filter).Nonempty) :
    ∃ n : Nat, 0 < n ∧
      ((n : Int) - 1) * a.stride + a.span filter ≤ input + a.padBegin + a.padEnd ∧
      input + a.padBegin + a.padEnd < n * a.stride + a.span filter := by
  obtain ⟨p, inside⟩ := fits
  rw [mem_positions] at inside
  have moved : 0 ≤ (p : Int) * a.stride := Int.mul_nonneg (by omega) (by omega)
  -- what is left of the padded input at the first position
  obtain ⟨room, room_eq⟩ : ∃ room : Nat, (room : Int) =
      input + a.padBegin + a.padEnd - a.span filter :=
    ⟨_, Int.toNat_of_nonneg (by omega)⟩
  obtain ⟨moves, last, next⟩ : ∃ moves, moves * a.stride ≤ room ∧ room < (moves + 1) * a.stride :=
    ⟨room / a.stride, Nat.div_mul_le_self _ _, Nat.lt_mul_of_div_lt (Nat.lt_succ_self _) stride⟩
  have last : (moves : Int) * a.stride ≤ room := by exact_mod_cast last
  have next : (room : Int) < ((moves + 1 : Nat) : Int) * a.stride := by exact_mod_cast next
  refine ⟨moves + 1, Nat.succ_pos _, ?_, by omega⟩
  rw [Int.natCast_succ, Int.add_sub_cancel]
  omega

/-- An axis of known lengths has an output exactly if it moves and spreads and the filter fits,
and that output is the number of positions. -/
theorem Axis.ForwardSignFree.forwardExtent_eq_ok_iff (signFree : a.ForwardSignFree input filter) :
    a.forwardExtent axis (.fixed input) (.fixed filter) = .ok x ↔
      0 < a.stride ∧ 0 < a.dilation ∧ a.Fits (.fixed input) (.fixed filter) ∧
        a.Counts (.fixed input) (.fixed filter) x := by
  obtain ⟨strideSmall, inputSmall, spanSmall, paddedSmall⟩ := signFree
  constructor
  · intro extent
    have moves : 0 < a.stride ∧ 0 < a.dilation ∧ 0 < filter ∧ ∃ n, x = .fixed n := by
      simp only [forwardExtent, Checked.bind_eq_ok, Checked.require_eq_ok, decide_eq_true_eq,
        Checked.pure_eq_ok] at extent
      obtain ⟨_, stride, _, dilation, _, nonempty, _, -, same⟩ := extent
      exact ⟨stride, dilation, nonempty, _, same.symm⟩
    obtain ⟨stride, dilation, nonempty, n, rfl⟩ := moves
    have regular : a.Regular filter := ⟨stride, dilation, nonempty, strideSmall, spanSmall⟩
    obtain ⟨pos, last, next⟩ :=
      (regular.forwardExtent_eq_fixed_iff inputSmall paddedSmall).1 extent
    refine ⟨stride, dilation, ⟨nonempty, ?_⟩, n, rfl, encard_positions last next⟩
    rw [positions_eq_Iio last next]
    exact ⟨0, pos⟩
  · rintro ⟨stride, dilation, ⟨nonempty, fits⟩, n, rfl, counted⟩
    have regular : a.Regular filter := ⟨stride, dilation, nonempty, strideSmall, spanSmall⟩
    obtain ⟨m, pos, last, next⟩ := exists_last stride fits
    obtain rfl : m = n := by
      rw [encard_positions last next] at counted
      exact_mod_cast counted
    exact (regular.forwardExtent_eq_fixed_iff inputSmall paddedSmall).2 ⟨pos, last, next⟩

end Axis

/-- An axis has an output exactly if it moves and spreads and the filter fits, and the output
counts the positions. -/
theorem Axis.forwardExtent_eq_ok_iff
    (signFree : ∀ input filter, e = .fixed input → k = .fixed filter →
      a.ForwardSignFree input filter) :
    a.forwardExtent axis e k = .ok x ↔
      0 < a.stride ∧ 0 < a.dilation ∧ a.Fits e k ∧ a.Counts e k x := by
  cases e with
  | dynamic => simp [forwardExtent, Fits, Counts, @eq_comm _ x]
  | fixed input =>
    cases k with
    | dynamic => simp [forwardExtent, Fits, Counts, @eq_comm _ x]
    | fixed filter => exact (signFree _ _ rfl rfl).forwardExtent_eq_ok_iff

/-- A filter that fits has a number of positions. -/
theorem Axis.Fits.exists_counts (fits : a.Fits e k) (stride : 0 < a.stride) :
    ∃ x, a.Counts e k x := by
  cases e with
  | dynamic => exact ⟨.dynamic, rfl⟩
  | fixed input =>
    cases k with
    | dynamic => exact ⟨.dynamic, rfl⟩
    | fixed filter =>
      obtain ⟨n, -, last, next⟩ := exists_last stride fits.2
      exact ⟨.fixed n, n, rfl, encard_positions last next⟩

/-! ## All axes -/

variable {input filter output : List Extent}

/-- The lists of a forward convolution have one entry for each axis, it moves and spreads, and
each filter fits. -/
structure Accepts (w : Window) (input filter : List Extent) : Prop where
  lists : w.OfRank input.length
  filters : filter.length = input.length
  strides : ∀ s ∈ w.strides, 0 < s
  dilations : ∀ d ∈ w.dilations, 0 < d
  fits : ∀ {axis : Nat} {a e k}, w.axes[axis]? = some a → input[axis]? = some e →
    filter[axis]? = some k → a.Fits e k

/-- The lists of a window are those of its axes. -/
theorem OfRank.lists_eq {rank : Nat} (ofRank : w.OfRank rank) :
    w.strides = w.axes.map Axis.stride ∧ w.dilations = w.axes.map Axis.dilation ∧
      w.padsBegin = w.axes.map Axis.padBegin ∧ w.padsEnd = w.axes.map Axis.padEnd := by
  obtain ⟨strides, dilations, padsBegin, padsEnd⟩ := ofRank
  refine ⟨?_, ?_, ?_, ?_⟩
  all_goals exact List.ext_getElem (by simp [axes, *]) (by simp [axes])

section SignFree

variable (signFree : ∀ {axis : Nat} {a i f}, w.axes[axis]? = some a →
  input[axis]? = some (.fixed i) → filter[axis]? = some (.fixed f) → a.ForwardSignFree i f)
include signFree

theorem forwardExtent_along {number : Nat} (axisAt : w.axes[axis]? = some a)
    (inputAt : input[axis]? = some e) (filterAt : filter[axis]? = some k) :
    a.forwardExtent number e k = .ok x ↔
      0 < a.stride ∧ 0 < a.dilation ∧ a.Fits e k ∧ a.Counts e k x :=
  Axis.forwardExtent_eq_ok_iff fun _ _ known known' =>
    signFree axisAt (inputAt.trans (congrArg some known)) (filterAt.trans (congrArg some known'))

/-- An output along an axis needs a filter that fits there. -/
theorem accepts_of_forwardShape (shape : w.forwardShape input filter = .ok output) :
    w.Accepts input filter := by
  obtain ⟨ofRank, filters, outputs, extents⟩ := forwardShape_eq_ok_iff.1 shape
  have axes := ofRank.length_axes
  have accepted {axis : Nat} {a e k} (axisAt : w.axes[axis]? = some a)
      (inputAt : input[axis]? = some e) (filterAt : filter[axis]? = some k) :
      0 < a.stride ∧ 0 < a.dilation ∧ a.Fits e k := by
    have lt := (List.getElem?_eq_some_iff.1 axisAt).1
    have outputAt := List.getElem?_eq_getElem (show axis < output.length by omega)
    obtain ⟨stride, dilation, fits, -⟩ :=
      (forwardExtent_along signFree axisAt inputAt filterAt).1
        (extents axisAt inputAt filterAt outputAt)
    exact ⟨stride, dilation, fits⟩
  have moves {a} (mem : a ∈ w.axes) : 0 < a.stride ∧ 0 < a.dilation := by
    obtain ⟨axis, axisAt⟩ := List.mem_iff_getElem?.1 mem
    have lt := (List.getElem?_eq_some_iff.1 axisAt).1
    have inputAt := List.getElem?_eq_getElem (show axis < input.length by omega)
    have filterAt := List.getElem?_eq_getElem (show axis < filter.length by omega)
    obtain ⟨stride, dilation, -⟩ := accepted axisAt inputAt filterAt
    exact ⟨stride, dilation⟩
  refine ⟨ofRank, filters, ?_, ?_, fun axisAt inputAt filterAt =>
    (accepted axisAt inputAt filterAt).2.2⟩
  · rw [ofRank.lists_eq.1, List.forall_mem_map]
    exact fun a mem => (moves mem).1
  · rw [ofRank.lists_eq.2.1, List.forall_mem_map]
    exact fun a mem => (moves mem).2

/-- Where filters fit on every axis, each axis has an output. -/
theorem Accepts.exists_forwardShape (accepts : w.Accepts input filter) :
    ∃ output, w.forwardShape input filter = .ok output := by
  obtain ⟨ofRank, filters, strides, dilations, fits⟩ := accepts
  have extents : ∀ x ∈ (w.axes.zip (input.zip filter)).zipIdx,
      ∃ extent, x.1.1.forwardExtent x.2 x.1.2.1 x.1.2.2 = .ok extent := by
    rintro ⟨⟨a, e, k⟩, axis⟩ mem
    simp only [List.mem_zipIdx_iff_getElem?, List.getElem?_zip_eq_some] at mem
    obtain ⟨axisAt, inputAt, filterAt⟩ := mem
    obtain ⟨strideAt, dilationAt, -⟩ := axes_getElem?.1 axisAt
    have stride := strides _ (List.mem_of_getElem? strideAt)
    have fits := fits axisAt inputAt filterAt
    obtain ⟨extent, counts⟩ := fits.exists_counts stride
    exact ⟨extent, (forwardExtent_along signFree axisAt inputAt filterAt).2
      ⟨stride, dilations _ (List.mem_of_getElem? dilationAt), fits, counts⟩⟩
  obtain ⟨output, shape⟩ := Checked.mapM_ok extents
  refine ⟨output, Checked.bind_eq_ok.2 ⟨⟨⟩, checkLengths_eq_ok.2 ?_, shape⟩⟩
  simp [filters, ofRank.strides, ofRank.dilations, ofRank.padsBegin, ofRank.padsEnd]

end SignFree

/-- A forward convolution has an output exactly if its lists have one entry for each axis, it
moves and spreads, and each filter of known length has an element and a position. On an axis where
both lengths are known the output is the number of positions, and nothing is known of it on the
others. -/
theorem forwardShape_counts
    (signFree : ∀ {axis : Nat} {a i f}, w.axes[axis]? = some a → input[axis]? = some (.fixed i) →
      filter[axis]? = some (.fixed f) → a.ForwardSignFree i f) :
    ((∃ output, w.forwardShape input filter = .ok output) ↔ w.Accepts input filter) ∧
      ∀ {output}, w.forwardShape input filter = .ok output → output.length = input.length ∧
        ∀ {axis : Nat} {a e k x}, w.axes[axis]? = some a → input[axis]? = some e →
          filter[axis]? = some k → output[axis]? = some x → a.Counts e k x := by
  refine ⟨⟨?_, Accepts.exists_forwardShape signFree⟩, ?_⟩
  · rintro ⟨output, shape⟩
    exact accepts_of_forwardShape signFree shape
  · intro output shape
    obtain ⟨-, -, outputs, extents⟩ := forwardShape_eq_ok_iff.1 shape
    refine ⟨outputs, fun axisAt inputAt filterAt outputAt => ?_⟩
    exact ((forwardExtent_along signFree axisAt inputAt filterAt).1
      (extents axisAt inputAt filterAt outputAt)).2.2.2

/-- Windows of five elements, three apart, over an input of fifteen that loses one at its
beginning and gains two. -/
theorem forwardShape_counts_cutBegin :
    (Window.mk [3, 2] [2, 1] [-1, 4] [2, 0] .explicit []).forwardShape
        [.fixed 15, .dynamic] [.fixed 3, .fixed 2] = .ok [.fixed 4, .dynamic] ∧
      ((Axis.mk 3 2 (-1) 2).positions 15 3).encard = 4 ∧
      (Window.mk [3, 2] [2, 1] [-1, 4] [2, 0] .explicit []).Accepts
        [.fixed 15, .dynamic] [.fixed 3, .fixed 2] := by
  have shape : (Window.mk [3, 2] [2, 1] [-1, 4] [2, 0] .explicit []).forwardShape
      [.fixed 15, .dynamic] [.fixed 3, .fixed 2] = .ok [.fixed 4, .dynamic] := rfl
  obtain ⟨accepts, counts⟩ := forwardShape_counts
    (show ∀ {axis : Nat} {a i f},
      (Window.mk [3, 2] [2, 1] [-1, 4] [2, 0] .explicit []).axes[axis]? = some a →
        [Extent.fixed 15, .dynamic][axis]? = some (.fixed i) →
        [Extent.fixed 3, .fixed 2][axis]? = some (.fixed f) →
          a.ForwardSignFree i f by
      rintro (_ | _ | axis) a i f ⟨⟩ ⟨⟩ ⟨⟩
      exact ⟨by decide, by decide, by decide, by decide⟩)
  obtain ⟨n, ⟨⟩, counted⟩ :=
    @(counts shape).2 0 ⟨3, 2, -1, 2⟩ (.fixed 15) (.fixed 3) (.fixed 4) rfl rfl rfl rfl
  exact ⟨shape, counted, accepts.1 ⟨_, shape⟩⟩

end Window

end EvenPad
