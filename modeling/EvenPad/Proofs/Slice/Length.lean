import EvenPad.Op.StridedSlice
import EvenPad.Proofs.Edit

/-!
How many elements a slice selects on an axis. A range `Walks` from its first index in steps of the
stride as long as it is `Before` its last one, and each step takes one off the count
(`count_step`). Main statement: the length of a slice on an axis is the number of indices that its
range walks over, all of them on the axis (`sliceLength_walks`).
-/

namespace EvenPad.StridedSlice

variable {start stop stride index x length first last : Int} {indices rest : List Int}

/-! ## Walking over a range -/

/-- The index comes before a bound in the direction of a stride. -/
def Before (stride stop index : Int) : Prop := if 0 < stride then index < stop else stop < index

instance : Decidable (Before stride stop index) :=
  inferInstanceAs (Decidable (if 0 < stride then index < stop else stop < index))

/-- The indices from one on, a stride apart from each other, as long as they come before a
bound. -/
inductive Walks (stride stop : Int) : Int → List Int → Prop
  | ended {index : Int} : ¬ Before stride stop index → Walks stride stop index []
  | step {index : Int} {rest : List Int} : Before stride stop index →
    Walks stride stop (index + stride) rest →
    Walks stride stop index (index :: rest)

theorem Walks.unique {indices' : List Int} (walks : Walks stride stop start indices)
    (walks' : Walks stride stop start indices') : indices = indices' := by
  induction walks generalizing indices' with
  | ended past =>
    cases walks' with
    | ended => rfl
    | step before => exact absurd before past
  | step before _ ih =>
    cases walks' with
    | ended past => exact absurd before past
    | step _ rest => rw [ih rest]

/-- A walk stays between where it starts and its bound. -/
theorem Walks.between (walks : Walks stride stop start indices) (mem : x ∈ indices) :
    Before stride stop x ∧ if 0 < stride then start ≤ x else x ≤ start := by
  induction walks with
  | ended => cases mem
  | @step index rest before _ ih =>
    rcases List.mem_cons.1 mem with rfl | mem
    · exact ⟨before, by split <;> exact Int.le_refl _⟩
    · obtain ⟨before, onwards⟩ := ih mem
      refine ⟨before, ?_⟩
      split at onwards <;> split <;> omega

/-- A walk has no more steps than there are indices between where it starts and its bound. -/
theorem Walks.length_le (nonzero : stride ≠ 0) (walks : Walks stride stop start indices) :
    (indices.length : Int) ≤ max 0 (if 0 < stride then stop - start else start - stop) := by
  induction walks with
  | ended => exact Int.le_max_left _ _
  | @step index rest before _ ih =>
    rw [List.length_cons]
    unfold Before at before
    split at before <;> split at ih <;> omega

/-! ## Counting its steps -/

/-- A range counts something exactly if it has begun before its end. -/
theorem count_pos_iff (nonzero : stride ≠ 0) :
    0 < count start stop stride ↔ Before stride stop start := by
  unfold count Before
  split
  · next up =>
    rw [Int.lt_iff_add_one_le, Int.le_ediv_iff_mul_le up]
    omega
  · next down =>
    rw [Int.lt_iff_add_one_le, Int.le_ediv_iff_mul_le (by omega)]
    omega

/-- One step takes one off the count. -/
theorem count_step (nonzero : stride ≠ 0) :
    count (start + stride) stop stride = count start stop stride - 1 := by
  unfold count
  split
  · have moved : stop - (start + stride) + stride - 1 =
        stop - start + stride - 1 + stride * (-1) := by omega
    rw [moved, Int.add_mul_ediv_left _ _ nonzero]
    omega
  · have moved : start + stride - stop - stride - 1 =
        start - stop - stride - 1 + -stride * (-1) := by omega
    rw [moved, Int.add_mul_ediv_left _ _ (by omega)]
    omega

/-- A range walks over as many indices as it counts. -/
theorem walks_count (nonzero : stride ≠ 0) (start stop : Int) :
    ∃ indices, Walks stride stop start indices ∧
      indices.length = (max (count start stop stride) 0).toNat := by
  -- the count is what is left to walk
  induction left : (max (count start stop stride) 0).toNat generalizing start with
  | zero =>
    have ended : ¬ Before stride stop start := by
      rw [← count_pos_iff nonzero]
      omega
    exact ⟨[], .ended ended, rfl⟩
  | succ n ih =>
    have before : Before stride stop start := by
      rw [← count_pos_iff nonzero]
      omega
    have fewer : (max (count (start + stride) stop stride) 0).toNat = n := by
      rw [count_step nonzero]
      omega
    obtain ⟨rest, walks, length⟩ := ih (start + stride) fewer
    exact ⟨start :: rest, .step before walks, congrArg (· + 1) length⟩

/-! ## The bounds of a range -/

/-- The nearest bound on an axis: from its first index to the one past its last, in the direction
of a stride. -/
def onAxis (length stride v : Int) : Int :=
  if 0 < stride then max 0 (min length v) else max (-1) (min (length - 1) v)

/-- Where a range starts: a negative bound is counted from the end, and a masked one is where the
axis starts. -/
def firstIndex (masked : Bool) (length first stride : Int) : Int :=
  if masked then if 0 < stride then 0 else length - 1
    else onAxis length stride (fromBeginning length first)

/-- Where a range ends, likewise. -/
def lastIndex (masked : Bool) (length last stride : Int) : Int :=
  if masked then if 0 < stride then length else -1
    else onAxis length stride (fromBeginning length last)

theorem bounds_eq {beginMasked endMasked : Bool} (nonneg : 0 ≤ length) :
    bounds beginMasked endMasked length first last stride =
      .ok (firstIndex beginMasked length first stride,
        lastIndex endMasked length last stride) := by
  have clamped {low high v : Int} (order : low ≤ high) :
      clamp low high v = .ok (max low (min high v)) :=
    if_neg (by omega)
  unfold bounds firstIndex lastIndex onAxis
  by_cases up : 0 < stride
  · simp only [up, if_true, clamped nonneg]
    cases beginMasked <;> cases endMasked <;> rfl
  · simp only [up, if_false, clamped (show -1 ≤ length - 1 by omega)]
    cases beginMasked <;> cases endMasked <;> rfl

/-- Going up a range starts no earlier than the axis and ends no later, and going down
likewise. -/
theorem bounds_onAxis (beginMasked endMasked : Bool) (first last stride : Int)
    (nonneg : 0 ≤ length) :
    if 0 < stride then 0 ≤ firstIndex beginMasked length first stride ∧
      lastIndex endMasked length last stride ≤ length
    else firstIndex beginMasked length first stride ≤ length - 1 ∧
      -1 ≤ lastIndex endMasked length last stride := by
  unfold firstIndex lastIndex onAxis
  by_cases up : 0 < stride
  · simp only [up, if_true]
    split <;> split <;> omega
  · simp only [up, if_false]
    split <;> split <;> omega

/-- The length of a slice on an axis is the number of indices that its range walks over, and these
are on the axis. -/
theorem sliceLength_walks (beginMask endMask : AxisMask) (axis : Nat) {length : Nat}
    (first last : Int) {stride : Int} (small : length < 9223372036854775808)
    (nonzero : stride ≠ 0) :
    ∃ indices, Walks stride (lastIndex (endMask.getLsbD axis) length last stride)
        (firstIndex (beginMask.getLsbD axis) length first stride) indices ∧
      sliceLength beginMask endMask axis length first last stride = .ok indices.length ∧
      (∀ x ∈ indices, 0 ≤ x ∧ x < length) ∧ indices.length ≤ length := by
  have nonneg : (0 : Int) ≤ length := Int.natCast_nonneg length
  have inside :=
    bounds_onAxis (beginMask.getLsbD axis) (endMask.getLsbD axis) first last stride nonneg
  obtain ⟨indices, walks, counted⟩ := walks_count nonzero
    (firstIndex (beginMask.getLsbD axis) length first stride)
      (lastIndex (endMask.getLsbD axis) length last stride)
  refine ⟨indices, walks, ?_, fun x mem => ?_, ?_⟩
  · simp only [sliceLength, Word.signed_of_lt small, bounds_eq nonneg, Checked.bind_eq_ok,
      Checked.pure_eq_ok, Checked.require_eq_ok, decide_eq_true_eq, Except.ok.injEq, Prod.exists]
    exact ⟨⟨⟩, nonzero, _, _, rfl, counted.symm⟩
  · obtain ⟨before, onwards⟩ := walks.between mem
    unfold Before at before
    by_cases up : 0 < stride
    · simp only [up, if_true] at inside before onwards
      omega
    · simp only [up, if_false] at inside before onwards
      omega
  · have steps := walks.length_le nonzero
    by_cases up : 0 < stride
    · simp only [up, if_true] at inside steps
      omega
    · simp only [up, if_false] at inside steps
      omega

/-- Three of five indices, going down from the end of the second axis, where the first bound is
masked. -/
theorem sliceLength_walks_down : (5 < 9223372036854775808 ∧ (-2 : Int) ≠ 0) ∧
    Walks (-2) (-1) 4 [4, 2, 0] ∧ sliceLength 0b10 0 1 5 7 (-6) (-2) = .ok 3 := by
  have small : 5 < 9223372036854775808 := by decide
  have nonzero : (-2 : Int) ≠ 0 := by decide
  have walks : Walks (-2) (-1) 4 [4, 2, 0] :=
    .step (by decide) (.step (by decide) (.step (by decide) (.ended (by decide))))
  obtain ⟨indices, walked, told, -⟩ := sliceLength_walks 0b10 0 1 7 (-6) small nonzero
  cases walks.unique walked
  exact ⟨⟨small, nonzero⟩, walks, told⟩

end EvenPad.StridedSlice
