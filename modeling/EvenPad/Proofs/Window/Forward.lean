import EvenPad.Proofs.Volume

/-!
How often a filter fits into its padded input. Main statements: an axis has a number of outputs
exactly if the last of so many windows ends within the padded input and one more does not
(`Axis.Regular.forwardExtent_eq_fixed_iff`), and a forward convolution has an output exactly if
its lists fit and each axis has one (`forwardShape_eq_ok_iff`).
-/

namespace EvenPad.Window

variable {w : Window} {a : Axis} {axis input filter outputs : Nat} {outputPadding : Int}

/-! ## One axis -/

/-- The number of elements over which a dilated filter spreads. -/
def Axis.span (a : Axis) (filter : Nat) : Nat := (filter - 1) * a.dilation + 1

/-- The filter has an element and moves and spreads by at least one. Its stride and its span are
the same numbers when they are read with a sign. -/
structure Axis.Regular (a : Axis) (filter : Nat) : Prop where
  stride : 0 < a.stride
  dilation : 0 < a.dilation
  nonempty : 0 < filter
  strideSmall : a.stride < 9223372036854775808
  spanSmall : a.span filter < 9223372036854775808

/-- An axis has so many outputs exactly if the last window ends within the padded input and one
more does not. -/
theorem Axis.Regular.forwardExtent_eq_fixed_iff (regular : a.Regular filter)
    (inputSmall : input < 9223372036854775808)
    (paddedSmall : input + a.padBegin + a.padEnd < 9223372036854775808) :
    a.forwardExtent axis (.fixed input) (.fixed filter) = .ok (.fixed outputs) ↔
      0 < outputs ∧
        ((outputs : Int) - 1) * a.stride + a.span filter ≤ input + a.padBegin + a.padEnd ∧
        input + a.padBegin + a.padEnd < outputs * a.stride + a.span filter := by
  obtain ⟨stride, dilation, nonempty, strideSmall, spanSmall⟩ := regular
  have stridePos : (0 : Int) < a.stride := by omega
  simp only [forwardExtent, Checked.bind_eq_ok, Checked.require_eq_ok, decide_eq_true_eq,
    Checked.pure_eq_ok, Extent.fixed.injEq, ← span.eq_def, Word.signed_of_lt inputSmall,
    Word.signed_of_lt strideSmall, Word.signed_of_lt spanSmall]
  obtain ⟨room, room_eq⟩ : ∃ room, room = (input : Int) + a.padBegin + a.padEnd - a.span filter :=
    ⟨_, rfl⟩
  rw [← room_eq]
  -- what is left of the padded input after one window is divided by the stride
  have quotient (nonneg : 0 ≤ room) :
      Word.unsigned (room.tdiv a.stride + 1) = outputs ↔
        room / (a.stride : Int) = outputs - 1 := by
    have le : room / (a.stride : Int) ≤ room := Int.ediv_le_self _ nonneg
    have nonneg' : 0 ≤ room / (a.stride : Int) := Int.ediv_nonneg nonneg (by omega)
    rw [Int.tdiv_eq_ediv_of_nonneg nonneg, Word.unsigned_of_nonneg (by omega) (by omega)]
    omega
  constructor
  · rintro ⟨_, -, _, -, _, -, _, fits, counted⟩
    have counted := (quotient (by omega)).1 counted
    have nonneg : 0 ≤ room / (a.stride : Int) := Int.ediv_nonneg (by omega) (by omega)
    have last := Int.ediv_mul_le room (Int.ne_of_gt stridePos)
    have next := Int.lt_ediv_add_one_mul_self room stridePos
    rw [counted] at last next
    rw [Int.sub_add_cancel] at next
    exact ⟨by omega, by omega, by omega⟩
  · rintro ⟨pos, last, next⟩
    have nonneg : 0 ≤ ((outputs : Int) - 1) * a.stride := Int.mul_nonneg (by omega) (by omega)
    refine ⟨⟨⟩, stride, ⟨⟩, dilation, ⟨⟩, nonempty, ⟨⟩, by omega, (quotient (by omega)).2 ?_⟩
    have least : (outputs : Int) - 1 ≤ room / (a.stride : Int) :=
      (Int.le_ediv_iff_mul_le stridePos).2 (by omega)
    have below : room / (a.stride : Int) < outputs :=
      (Int.ediv_lt_iff_lt_mul stridePos).2 (by omega)
    omega

/-! ## All axes -/

/-- A forward convolution has an output exactly if its lists fit and each axis has one. -/
theorem forwardShape_eq_ok_iff {input filter output : List Extent} :
    w.forwardShape input filter = .ok output ↔
      w.OfRank input.length ∧ filter.length = input.length ∧ output.length = input.length ∧
        ∀ {i : Nat} {a n f o}, w.axes[i]? = some a → input[i]? = some n → filter[i]? = some f →
          output[i]? = some o → a.forwardExtent i n f = .ok o := by
  refine ⟨forwardShape_eq_ok, ?_⟩
  rintro ⟨ofRank, filters, outputs, extents⟩
  simp only [forwardShape, Checked.bind_eq_ok, checkLengths_eq_ok, List.forall_mem_cons,
    Checked.mapM_eq_ok_iff]
  refine ⟨⟨⟩, ⟨filters, ofRank.strides, ofRank.dilations, ofRank.padsBegin,
      ofRank.padsEnd, by simp⟩, ?_⟩
  rw [List.forall₂_iff_get]
  refine ⟨by simp [ofRank.length_axes, filters, outputs], fun i here there => ?_⟩
  have axes := ofRank.length_axes
  simp only [List.get_eq_getElem, List.getElem_zipIdx, List.getElem_zip, Nat.zero_add]
  exact extents (List.getElem?_eq_getElem (by omega)) (List.getElem?_eq_getElem (by omega))
    (List.getElem?_eq_getElem (by omega)) (List.getElem?_eq_getElem there)

/-- The window over one spatial axis. -/
def Axis.window (a : Axis) (outputPadding : Int) : Window :=
  ⟨[a.stride], [a.dilation], [a.padBegin], [a.padEnd], .explicit, [outputPadding]⟩

theorem Axis.forwardShape_window {e f x : Extent} :
    (a.window outputPadding).forwardShape [e] [f] = .ok [x] ↔ a.forwardExtent 0 e f = .ok x := by
  rw [forwardShape_eq_ok_iff]
  constructor
  · rintro ⟨-, -, -, extents⟩
    exact extents rfl rfl rfl rfl
  · intro extent
    refine ⟨⟨rfl, rfl, rfl, rfl⟩, rfl, rfl, ?_⟩
    rintro (_ | i) _ _ _ _ axisAt inputAt filterAt outputAt
    · cases axisAt
      cases inputAt
      cases filterAt
      cases outputAt
      exact extent
    · simp at inputAt

end EvenPad.Window
