import EvenPad.Proofs.Volume

/-!
Where the elements of a slice come from. Main statement: a slice that keeps batch and channel
whole and whose other strides are one takes each element from as much later as the slice starts,
and from within the sliced tensor (`shape_whole`).
-/

namespace EvenPad.StridedSlice

variable {beginMask endMask : AxisMask} {axis length n : Nat} {first last : Int} {m : List Nat}
  {firsts lasts : List Int}

/-- Where a slice starts on each axis of a tensor, the first of which has a number. -/
def startsFrom (axis : Nat) (beginMask endMask : AxisMask) (lengths : List Nat)
    (firsts lasts strides : List Int) : Checked (List Int) :=
  ((lengths.zip (firsts.zip (lasts.zip strides))).zipIdx axis).mapM
    fun ((length, first, last, stride), axis) =>
      (bounds (beginMask.getLsbD axis) (endMask.getLsbD axis) (Word.signed length) first last
        stride).map Prod.fst

/-- Where a slice starts on each axis of a tensor. -/
def starts (beginMask endMask : AxisMask) (lengths : List Nat) (firsts lasts strides : List Int) :
    Checked (List Int) :=
  startsFrom 0 beginMask endMask lengths firsts lasts strides

/-- The position in a tensor that an element of a slice comes from. -/
def origin (starts strides position : List Int) : List Int :=
  (starts.zip (position.zip strides)).map fun (start, x, stride) => start + x * stride

theorem bounds_eq_ok {size start stop : Int}
    (bounded : bounds false false size first last 1 = .ok (start, stop)) (nonneg : 0 ≤ first) :
    start = max 0 (min size first) ∧ stop ≤ size := by
  have inside : ¬first < 0 := by omega
  simp only [bounds, clamp, fromBeginning, inside, Int.one_pos, if_true, if_false,
    Bool.false_eq_true] at bounded
  by_cases empty : size < 0
  · simp [empty] at bounded
  · simp only [empty, if_false, Checked.bind_eq_ok, Checked.pure_eq_ok, Prod.mk.injEq,
      Except.ok.injEq] at bounded
    obtain ⟨_, started, _, stopped, rfl, rfl⟩ := bounded
    omega

/-- A slice that selects something starts where it was told to, if that is not before the axis,
and ends on the axis. -/
theorem bounds_of_sliceLength
    (selected : sliceLength beginMask endMask axis length first last 1 = .ok n) (pos : 0 < n)
    (beginGiven : beginMask.getLsbD axis = false) (endGiven : endMask.getLsbD axis = false)
    (nonneg : 0 ≤ first) :
    (∃ stop, bounds false false (Word.signed length) first last 1 = .ok (first, stop)) ∧
      first + n ≤ length := by
  have signed : Word.signed length ≤ length := Word.signed_le
  simp only [sliceLength, beginGiven, endGiven, Checked.bind_eq_ok, Checked.pure_eq_ok,
    Prod.exists] at selected
  obtain ⟨_, -, start, stop, bounded, selected⟩ := selected
  have counted : count start stop 1 = stop - start := by
    simp only [count, Int.one_pos, if_true]
    omega
  rw [counted] at selected
  obtain ⟨started, stopped⟩ := bounds_eq_ok bounded nonneg
  obtain rfl : start = first := by omega
  exact ⟨⟨stop, bounded⟩, by omega⟩

/-! ## Slices that keep batch and channel whole -/

/-- The two axes that come first are the ones of such a mask. -/
theorem getLsbD_of_two_le {k : Nat} (later : 2 ≤ k) : (0b11 : AxisMask).getLsbD k = false := by
  have small : 3 < 2 ^ k := calc
    3 < 2 ^ 2 := by decide
    _ ≤ 2 ^ k := Nat.pow_le_pow_right (by decide) later
  simp [BitVec.getLsbD_ofNat, Nat.testBit_lt_two_pow small]

/-- The axes of such a slice from the third one on. -/
theorem spatial_of_mapM {k : Nat} {sliced : List Extent} (later : 2 ≤ k)
    (firstsLength : firsts.length = m.length) (lastsLength : lasts.length = m.length)
    (nonneg : ∀ first ∈ firsts, 0 ≤ first)
    (selected : (((m.map .fixed).zip (firsts.zip (lasts.zip (List.replicate m.length 1)))).zipIdx
      k).mapM (fun ((extent, first, last, stride), axis) =>
        sliceExtent 0b11 0b11 axis extent first last stride) = .ok sliced) :
    ∃ T : List Nat, sliced = T.map .fixed ∧ T.length = m.length ∧ ∀ position, Inside T position →
      startsFrom k 0b11 0b11 m firsts lasts (List.replicate m.length 1) = .ok firsts ∧
      Inside m (position.zipWith (· + ·) firsts) := by
  induction m generalizing firsts lasts k sliced with
  | nil =>
    have firstsNil : firsts = [] := List.length_eq_zero_iff.1 firstsLength
    obtain rfl : [] = sliced := Checked.pure_eq_ok.1 (by simpa using selected)
    refine ⟨[], rfl, rfl, ?_⟩
    intro position inside
    rw [firstsNil]
    exact ⟨rfl, by simp [Inside]⟩
  | cons length rest ih =>
    rcases firsts with _ | ⟨first, firsts⟩
    · simp at firstsLength
    rcases lasts with _ | ⟨last, lasts⟩
    · simp at lastsLength
    simp only [List.length_cons, Nat.add_right_cancel_iff] at firstsLength lastsLength
    obtain ⟨first_nonneg, nonneg⟩ := List.forall_mem_cons.1 nonneg
    simp only [List.map_cons, List.length_cons, List.replicate_succ, List.zip_cons_cons,
      List.zipIdx_cons, List.mapM_cons, Checked.bind_eq_ok, Checked.pure_eq_ok] at selected
    obtain ⟨extent, head, others, tail, rfl⟩ := selected
    obtain ⟨T, rfl, length_T, spatial⟩ := ih (by omega) firstsLength lastsLength nonneg tail
    simp only [sliceExtent, Checked.exceptMap_eq_ok] at head
    obtain ⟨n, head, rfl⟩ := head
    refine ⟨n :: T, rfl, by rw [List.length_cons, length_T, List.length_cons], ?_⟩
    intro position inside
    obtain ⟨x, position, ⟨nonneg_x, lt_x⟩, others, rfl⟩ := List.forall₂_cons_left_iff.1 inside
    obtain ⟨startsRest, insideRest⟩ := spatial position others
    obtain ⟨⟨stop, bounded⟩, ends⟩ := bounds_of_sliceLength head (by omega)
      (getLsbD_of_two_le later) (getLsbD_of_two_le later) first_nonneg
    refine ⟨?_, .cons ⟨Int.add_nonneg nonneg_x first_nonneg, by dsimp only; omega⟩ insideRest⟩
    simp only [startsFrom, List.length_cons, List.replicate_succ, List.zip_cons_cons,
      List.zipIdx_cons, List.mapM_cons, Checked.bind_eq_ok, Checked.pure_eq_ok]
    refine ⟨first, ?_, firsts, startsRest, rfl⟩
    rw [getLsbD_of_two_le later, bounded]
    rfl

/-- A slice with both masks on batch and channel and no other strides than one: where it selects
anything, it starts where it was told to, and what it selects lies within the sliced tensor. -/
theorem shape_whole {batch channels : Extent} {s : Shape}
    (firstsLength : firsts.length = m.length) (lastsLength : lasts.length = m.length)
    (nonneg : ∀ first ∈ firsts, 0 ≤ first)
    (selected : shape 0b11 0b11 (.ranked (batch :: channels :: m.map .fixed)) (0 :: 0 :: firsts)
      (0 :: 0 :: lasts) (List.replicate (m.length + 2) 1) = .ok s) :
    ∃ batch' channels', ∃ T : List Nat, s = .ranked (batch' :: channels' :: T.map .fixed) ∧
      T.length = m.length ∧ ∀ batches channels position, Inside T position →
        starts 0b11 0b11 (batches :: channels :: m) (0 :: 0 :: firsts) (0 :: 0 :: lasts)
          (List.replicate (m.length + 2) 1) = .ok (0 :: 0 :: firsts) ∧
        Inside m (position.zipWith (· + ·) firsts) := by
  simp only [shape, List.replicate_succ, List.zip_cons_cons, List.zipIdx_cons, List.mapM_cons,
    Checked.bind_eq_ok, Checked.pure_eq_ok] at selected
  obtain ⟨_, -, _, ⟨batch', -, _, ⟨channels', -, sliced, spatial, rfl⟩, rfl⟩, rfl⟩ := selected
  obtain ⟨T, rfl, length, origins⟩ :=
    spatial_of_mapM (Nat.le_refl 2) firstsLength lastsLength nonneg spatial
  refine ⟨batch', channels', T, ?_, length, ?_⟩
  · have none : List.drop (0 :: 0 :: firsts).length (batch :: channels :: m.map .fixed) = [] :=
      List.drop_eq_nil_of_le (by simp [firstsLength])
    rw [none, List.append_nil]
  · intro batches channels position inside
    obtain ⟨started, inside⟩ := origins position inside
    refine ⟨?_, inside⟩
    simp only [starts, startsFrom, List.replicate_succ, List.zip_cons_cons, List.zipIdx_cons,
      List.mapM_cons, Checked.bind_eq_ok, Checked.pure_eq_ok]
    exact ⟨0, rfl, 0 :: firsts, ⟨0, rfl, firsts, started, rfl⟩, rfl⟩

/-- An element of such a slice comes from the same batch entry and channel. -/
theorem origin_whole {batch channel : Int} {position : List Int}
    (length : position.length = firsts.length) :
    origin (0 :: 0 :: firsts) (List.replicate (firsts.length + 2) 1)
        (batch :: channel :: position) =
      batch :: channel :: position.zipWith (· + ·) firsts := by
  have spatial : (firsts.zip (position.zip (List.replicate firsts.length 1))).map
      (fun (start, x, stride) => start + x * stride) = position.zipWith (· + ·) firsts := by
    induction firsts generalizing position with
    | nil => simp [List.length_eq_zero_iff.1 length]
    | cons first firsts ih =>
      rcases position with _ | ⟨x, position⟩
      · simp at length
      · simp only [List.length_cons, List.replicate_succ, List.zip_cons_cons, List.map_cons,
          List.zipWith_cons_cons, Int.mul_one, Int.add_comm first]
        rw [ih (by simpa using length)]
  simp only [origin, List.replicate_succ, List.zip_cons_cons, List.map_cons, spatial,
    Int.zero_add, Int.mul_one]

/-- The fact of a slice whose bounds and strides are constant vectors. -/
theorem outputFact_vectors {data fact : Fact} {strides : List Int} {beginMask endMask : AxisMask}
    (inferred : outputFact beginMask endMask data (.constant (.vector firsts))
      (.constant (.vector lasts)) (some (.constant (.vector strides))) = .ok fact) :
    ∃ s, shape beginMask endMask data.shape firsts lasts strides = .ok s ∧
      fact = .typed data.elementType s := by
  have vector (values : List Int) (operand : VectorOperand) :
      (Fact.constant (.vector values)).vector operand = .ok values := rfl
  simp only [outputFact, vector, Checked.bind_eq_ok, Checked.pure_eq_ok, Except.ok.injEq]
    at inferred
  obtain ⟨_, rfl, _, rfl, _, rfl, _, -, s, shaped, rfl⟩ := inferred
  exact ⟨s, shaped, rfl⟩

end EvenPad.StridedSlice
