import EvenPad.Op.StridedSlice
import EvenPad.Proofs.Edit
import EvenPad.Window.Output
import Mathlib.Algebra.Ring.Int.Defs
import Mathlib.Data.List.Nodup

/-!
What convolutions, pads and slices compute, as functions of positions. A position has a coordinate
for each axis; a volume gives a number for each position, and `within` reads it as zero outside
some lengths. Main statements: `reads_unpadded`, the positions that a window without its pads
reads, and `inside_of_forwardShape`, that those of an output lie within the padded input.
-/

namespace EvenPad

/-- The position lies within some lengths. -/
def Inside (lengths : List Nat) (position : List Int) : Prop :=
  List.Forall₂ (fun (length : Nat) (x : Int) => 0 ≤ x ∧ x < length) lengths position

instance (lengths : List Nat) (position : List Int) : Decidable (Inside lengths position) :=
  inferInstanceAs (Decidable (List.Forall₂ _ _ _))

/-- The positions within some lengths, the last coordinate running fastest. -/
def box : List Nat → List (List Int)
  | [] => [[]]
  | length :: rest =>
    (List.range length).flatMap fun (x : Nat) => (box rest).map ((x : Int) :: ·)

/-- The numbers of a tensor by their positions. -/
abbrev Volume := List Int → Int

namespace Volume

/-- The volume read as zero outside some lengths. -/
def within (lengths : List Nat) (v : Volume) : Volume := fun x =>
  if Inside lengths x then v x else 0

/-- The lengths of a padded volume. -/
def paddedLengths (begins ends : List Int) (lengths : List Nat) : List Nat :=
  (lengths.zip (begins.zip ends)).map fun (length, before, after) =>
    (length + before + after).toNat

/-- The volume with zeros around it, or cut off where a pad is negative. -/
def padded (begins ends : List Int) (lengths : List Nat) (v : Volume) : Volume :=
  within (paddedLengths begins ends lengths) fun x =>
    v.within lengths (x.zipWith (· - ·) begins)

end Volume

namespace Window

/-- The coordinate of the input that belongs to one of the output and one of the filter. -/
def Axis.reads (a : Axis) (output filter : Int) : Int :=
  output * a.stride + filter * a.dilation - a.padBegin

/-- The position of the input that belongs to one of the output and one of the filter. For a
transposed convolution, input and output change places. -/
def reads (w : Window) (output filter : List Int) : List Int :=
  (w.axes.zip (output.zip filter)).map fun (a, o, f) => a.reads o f

/-- What a forward convolution has at a position of its output, for data that is read at spatial
positions. -/
def gathered (w : Window) (filter : List Nat) (weights data : Volume) (output : List Int) : Int :=
  ((box filter).map fun k => weights k * data (w.reads output k)).sum

/-- What a transposed convolution has at a position of its output. -/
def scattered (w : Window) (input filter : List Nat) (weights data : Volume) (output : List Int) :
    Int :=
  ((box input).map fun i =>
    ((box filter).map fun k =>
      if w.reads i k = output then data i * weights k else 0).sum).sum

/-- The lists of the window, apart from output padding, have one entry for each spatial axis. -/
structure OfRank (w : Window) (rank : Nat) : Prop where
  strides : w.strides.length = rank
  dilations : w.dilations.length = rank
  padsBegin : w.padsBegin.length = rank
  padsEnd : w.padsEnd.length = rank

end Window

/-! ## Positions -/

variable {lengths : List Nat} {x p k : List Int} {w : Window} {rank i : Nat} {a : Window.Axis}
  {v : Int}

theorem mem_box : x ∈ box lengths ↔ Inside lengths x := by
  unfold Inside
  induction lengths generalizing x with
  | nil => simp [box]
  | cons length rest ih =>
    simp only [box, List.mem_flatMap, List.mem_range, List.mem_map, ih,
      List.forall₂_cons_left_iff]
    constructor
    · rintro ⟨n, lt, y, inside, rfl⟩
      exact ⟨n, y, ⟨by omega, by omega⟩, inside, rfl⟩
    · rintro ⟨n, y, ⟨nonneg, lt⟩, inside, rfl⟩
      exact ⟨n.toNat, by omega, y, inside, by rw [Int.toNat_of_nonneg nonneg]⟩

theorem inside_iff : Inside lengths x ↔ lengths.length = x.length ∧
    ∀ {i n : Nat} {v : Int}, lengths[i]? = some n → x[i]? = some v → 0 ≤ v ∧ v < n := by
  rw [Inside, List.forall₂_iff_get]
  refine and_congr_right fun _ =>
    ⟨fun inside i n v length coordinate => ?_, fun inside i h h' => ?_⟩
  · obtain ⟨h, rfl⟩ := List.getElem?_eq_some_iff.1 length
    obtain ⟨h', rfl⟩ := List.getElem?_eq_some_iff.1 coordinate
    exact inside i h h'
  · exact inside (List.getElem?_eq_getElem h) (List.getElem?_eq_getElem h')

namespace Window

theorem axes_getElem? : w.axes[i]? = some a ↔
    w.strides[i]? = some a.stride ∧ w.dilations[i]? = some a.dilation ∧
      w.padsBegin[i]? = some a.padBegin ∧ w.padsEnd[i]? = some a.padEnd := by
  obtain ⟨stride, dilation, padBegin, padEnd⟩ := a
  simp only [axes, List.getElem?_map, Option.map_eq_some_iff, Prod.exists,
    List.getElem?_zip_eq_some, Axis.mk.injEq]
  constructor
  · rintro ⟨_, _, _, _, found, rfl, rfl, rfl, rfl⟩
    exact ⟨found.1.1, found.1.2, found.2⟩
  · rintro ⟨strideAt, dilationAt, padBeginAt, padEndAt⟩
    exact ⟨_, _, _, _, ⟨⟨strideAt, dilationAt⟩, padBeginAt, padEndAt⟩, rfl, rfl, rfl, rfl⟩

theorem OfRank.length_axes (ofRank : w.OfRank rank) : w.axes.length = rank := by
  simp [axes, ofRank.strides, ofRank.dilations, ofRank.padsBegin, ofRank.padsEnd]

theorem OfRank.unpadded (ofRank : w.OfRank rank) : w.unpadded.OfRank rank where
  strides := ofRank.strides
  dilations := ofRank.dilations
  padsBegin := by simp [Window.unpadded, zeroPads, ofRank.padsBegin, ofRank.padsEnd]
  padsEnd := by simp [Window.unpadded, zeroPads, ofRank.padsBegin, ofRank.padsEnd]

/-- Without its pads a window moves in the same way. -/
theorem OfRank.axes_unpadded (ofRank : w.OfRank rank) :
    w.unpadded.axes = w.axes.map fun a => { a with padBegin := 0, padEnd := 0 } := by
  have both : max w.padsBegin.length w.padsEnd.length = rank := by
    rw [ofRank.padsBegin, ofRank.padsEnd, Nat.max_self]
  have zeros : (zeroPads rank).zip (zeroPads rank) =
      (w.padsBegin.zip w.padsEnd).map fun _ => (0, 0) := by
    rw [List.map_const', List.length_zip, ofRank.padsBegin, ofRank.padsEnd, Nat.min_self]
    exact List.zip_replicate'
  simp only [axes, Window.unpadded, both]
  rw [zeros, List.zip_map_right, List.map_map, List.map_map]
  rfl

theorem reads_getElem? : (w.reads p k)[i]? = some v ↔
    ∃ a x y, w.axes[i]? = some a ∧ p[i]? = some x ∧ k[i]? = some y ∧ a.reads x y = v := by
  simp only [reads, List.getElem?_map, Option.map_eq_some_iff, Prod.exists,
    List.getElem?_zip_eq_some]
  constructor
  · rintro ⟨a, x, y, ⟨axis, xAt, yAt⟩, value⟩
    exact ⟨a, x, y, axis, xAt, yAt, value⟩
  · rintro ⟨a, x, y, axis, xAt, yAt, value⟩
    exact ⟨a, x, y, ⟨axis, xAt, yAt⟩, value⟩

theorem OfRank.length_reads_le (ofRank : w.OfRank rank) : (w.reads p k).length ≤ rank := by
  simp only [reads, List.length_map, List.length_zip, ofRank.length_axes]
  omega

/-- Without its pads a window reads as much later as it was padded at the beginning. -/
theorem OfRank.reads_unpadded (ofRank : w.OfRank rank) :
    w.unpadded.reads p k = (w.reads p k).zipWith (· + ·) w.padsBegin := by
  apply List.ext_getElem?
  intro i
  apply Option.ext
  intro v
  simp only [reads_getElem?, ofRank.axes_unpadded, List.getElem?_map, Option.map_eq_some_iff,
    List.getElem?_zipWith_eq_some]
  constructor
  · rintro ⟨_, x, y, ⟨a, axis, rfl⟩, xAt, yAt, rfl⟩
    refine ⟨_, a.padBegin, ⟨a, x, y, axis, xAt, yAt, rfl⟩, (axes_getElem?.1 axis).2.2.1, ?_⟩
    simp only [Axis.reads]
    omega
  · rintro ⟨_, pad, ⟨a, x, y, axis, xAt, yAt, rfl⟩, padAt, rfl⟩
    obtain rfl : a.padBegin = pad :=
      Option.some.inj ((axes_getElem?.1 axis).2.2.1.symm.trans padAt)
    refine ⟨_, x, y, ⟨a, axis, rfl⟩, xAt, yAt, ?_⟩
    simp only [Axis.reads]
    omega

/-! ## Forward convolutions -/

theorem checkLengths_eq_ok {lengths : List (SpatialList × Nat)} {u : Unit} :
    checkLengths rank lengths = .ok u ↔ ∀ list ∈ lengths, list.2 = rank := by
  simp only [checkLengths]
  exact Checked.forM_eq_ok_iff.trans (by simp)

/-- A forward convolution has an output when its lists fit and each axis has one. -/
theorem forwardShape_eq_ok {input filter output : List Extent}
    (shape : w.forwardShape input filter = .ok output) :
    w.OfRank input.length ∧ filter.length = input.length ∧ output.length = input.length ∧
      ∀ {i : Nat} {a n f o}, w.axes[i]? = some a → input[i]? = some n → filter[i]? = some f →
        output[i]? = some o → a.forwardExtent i n f = .ok o := by
  simp only [forwardShape, Checked.bind_eq_ok, checkLengths_eq_ok, List.forall_mem_cons,
    Checked.mapM_eq_ok_iff] at shape
  obtain ⟨_, ⟨filters, strides, dilations, padsBegin, padsEnd, -⟩, extents⟩ := shape
  have ofRank : w.OfRank input.length := ⟨strides, dilations, padsBegin, padsEnd⟩
  refine ⟨ofRank, filters, ?_, ?_⟩
  · rw [← extents.length_eq]
    simp [ofRank.length_axes, filters]
  · intro i a n f o axis inputAt filterAt outputAt
    rw [List.forall₂_iff_get] at extents
    obtain ⟨length, extents⟩ := extents
    obtain ⟨lt, rfl⟩ := List.getElem?_eq_some_iff.1 outputAt
    have extent := extents i (by omega) lt
    have found : ((w.axes.zip (input.zip filter)).zipIdx)[i]? = some ((a, n, f), i) := by
      simp [List.getElem?_zipIdx, List.getElem?_zip_eq_some, axis, inputAt, filterAt]
    rw [List.get_eq_getElem, (List.getElem?_eq_some_iff.1 found).2] at extent
    exact extent

/-- Strides and dilated filters are the same numbers when they are read with a sign. -/
def SignFree (w : Window) (filter : List Nat) : Prop :=
  ∀ e ∈ w.axes.zip filter, e.1.stride < 9223372036854775808 ∧
    (e.2 - 1) * e.1.dilation + 1 < 9223372036854775808

instance (w : Window) (filter : List Nat) : Decidable (w.SignFree filter) :=
  inferInstanceAs (Decidable (∀ e ∈ w.axes.zip filter, _ ∧ _))

/-- On one axis, what belongs to an output and a filter coordinate lies in the padded input. -/
theorem Axis.reads_lt_of_forwardExtent {axis n f o : Nat} {x y : Int}
    (extent : a.forwardExtent axis (.fixed n) (.fixed f) = .ok (.fixed o))
    (stride : a.stride < 9223372036854775808)
    (field : (f - 1) * a.dilation + 1 < 9223372036854775808)
    (output : 0 ≤ x ∧ x < o) (filter : 0 ≤ y ∧ y < f) :
    0 ≤ x * a.stride + y * a.dilation ∧
      x * a.stride + y * a.dilation < n + a.padBegin + a.padEnd := by
  simp only [forwardExtent, Checked.bind_eq_ok, Checked.require_eq_ok, decide_eq_true_eq,
    Checked.pure_eq_ok, Extent.fixed.injEq, Word.signed_of_lt stride,
    Word.signed_of_lt field] at extent
  obtain ⟨_, stridePos, _, dilationPos, _, filterPos, _, fits, count⟩ := extent
  have signed : Word.signed n ≤ n := Word.signed_le
  obtain ⟨room, room_eq⟩ : ∃ room, room =
      Word.signed n + a.padBegin + a.padEnd - (((f - 1) * a.dilation + 1 : Nat) : Int) := ⟨_, rfl⟩
  rw [← room_eq] at count
  -- the last output reads the last place where the filter fits
  have quotient : 0 ≤ room / (a.stride : Int) := Int.ediv_nonneg (by omega) (by omega)
  have last : x ≤ room / (a.stride : Int) := by
    rw [Int.tdiv_eq_ediv_of_nonneg (by omega)] at count
    have below : (o : Int) ≤ room / (a.stride : Int) + 1 := by
      rw [← count]
      exact Word.unsigned_le (by omega)
    omega
  have start : x * a.stride ≤ room := by
    calc x * a.stride ≤ room / (a.stride : Int) * a.stride :=
          Int.mul_le_mul_of_nonneg_right last (by omega)
      _ ≤ room := Int.ediv_mul_le _ (by omega)
  have spread : y * a.dilation ≤ (((f - 1) * a.dilation : Nat) : Int) := by
    push_cast
    exact Int.mul_le_mul_of_nonneg_right (by omega) (by omega)
  refine ⟨Int.add_nonneg (Int.mul_nonneg output.1 (by omega))
    (Int.mul_nonneg filter.1 (by omega)), ?_⟩
  omega

/-- What belongs to an output position of a forward convolution lies within the padded input. -/
theorem inside_of_forwardShape {input filter output : List Nat}
    (shape : w.forwardShape (input.map .fixed) (filter.map .fixed) = .ok (output.map .fixed))
    (signFree : w.SignFree filter) (inside : Inside output p) (offset : Inside filter k) :
    Inside (Volume.paddedLengths w.padsBegin w.padsEnd input) (w.unpadded.reads p k) := by
  obtain ⟨ofRank, filters, outputs, extents⟩ := forwardShape_eq_ok shape
  simp only [List.length_map] at ofRank filters outputs
  rw [inside_iff] at inside offset ⊢
  refine ⟨?_, ?_⟩
  · simp only [Volume.paddedLengths, reads, List.length_map, List.length_zip,
      ofRank.unpadded.length_axes, ofRank.padsBegin, ofRank.padsEnd, ← inside.1, ← offset.1,
      filters, outputs, Nat.min_self]
  · intro i length v lengthAt read
    obtain ⟨_, x, y, axis, xAt, yAt, rfl⟩ := reads_getElem?.1 read
    rw [ofRank.axes_unpadded, List.getElem?_map, Option.map_eq_some_iff] at axis
    obtain ⟨a, axis, rfl⟩ := axis
    have xLt := (List.getElem?_eq_some_iff.1 xAt).1
    have yLt := (List.getElem?_eq_some_iff.1 yAt).1
    have outputAt := List.getElem?_eq_getElem (show i < output.length by omega)
    have filterAt := List.getElem?_eq_getElem (show i < filter.length by omega)
    have inputAt := List.getElem?_eq_getElem (show i < input.length by omega)
    have extent := extents axis (by rw [List.getElem?_map, inputAt, Option.map_some])
      (by rw [List.getElem?_map, filterAt, Option.map_some])
      (by rw [List.getElem?_map, outputAt, Option.map_some])
    obtain ⟨stride, field⟩ := signFree (a, filter[i])
      (List.mem_of_getElem? (List.getElem?_zip_eq_some.2 ⟨axis, filterAt⟩))
    have found := Axis.reads_lt_of_forwardExtent extent stride field (inside.2 outputAt xAt)
      (offset.2 filterAt yAt)
    have padded : length = (input[i] + a.padBegin + a.padEnd).toNat := by
      have pads := axes_getElem?.1 axis
      simp only [Volume.paddedLengths, List.getElem?_map, Option.map_eq_some_iff, Prod.exists,
        List.getElem?_zip_eq_some, inputAt, pads.2.2.1, pads.2.2.2, Option.some.injEq] at lengthAt
      obtain ⟨_, _, _, ⟨rfl, rfl, rfl⟩, rfl⟩ := lengthAt
      rfl
    simp only [Axis.reads]
    omega

end Window

namespace Volume

variable {X : Volume} {begins ends : List Int}

theorem within_of_inside (inside : Inside lengths x) : X.within lengths x = X x := if_pos inside

/-- Shifting a list of numbers there and back. -/
theorem zipWith_sub_add (length : x.length ≤ begins.length) :
    (x.zipWith (· + ·) begins).zipWith (· - ·) begins = x := by
  induction x generalizing begins with
  | nil => simp
  | cons v rest ih =>
    cases begins with
    | nil => simp at length
    | cons pad begins =>
      simp only [List.zipWith_cons_cons, Int.add_sub_cancel]
      rw [ih (by simpa using length)]

/-- Inside the padded volume, what was at a position before is found later by the pads. -/
theorem padded_shifted
    (inside : Inside (paddedLengths begins ends lengths) (x.zipWith (· + ·) begins))
    (length : x.length ≤ begins.length) :
    X.padded begins ends lengths (x.zipWith (· + ·) begins) = X.within lengths x := by
  rw [padded, within_of_inside inside, zipWith_sub_add length]

/-- Batch and channel are not padded. -/
theorem paddedLengths_fullPads {batches channels : Nat} :
    paddedLengths (Window.fullPads begins) (Window.fullPads ends)
        (batches :: channels :: lengths) =
      batches :: channels :: paddedLengths begins ends lengths := by
  simp [paddedLengths, Window.fullPads]

end Volume

/-- The sums of a forward convolution are those over the padded data without pads. -/
theorem Window.OfRank.gathered_padded {batches channels : Nat} {batch channel : Int}
    {filter input : List Nat} {W X : Volume} (ofRank : w.OfRank rank)
    (lead : Inside [batches, channels] [batch, channel])
    (inside : ∀ k ∈ box filter,
      Inside (Volume.paddedLengths w.padsBegin w.padsEnd input) (w.unpadded.reads p k)) :
    w.gathered filter W
        (fun x => X.within (batches :: channels :: input) (batch :: channel :: x)) p =
      w.unpadded.gathered filter W (fun x => X.padded (fullPads w.padsBegin) (fullPads w.padsEnd)
        (batches :: channels :: input) (batch :: channel :: x)) p := by
  simp only [Inside, List.forall₂_cons] at lead
  unfold gathered
  congr 1
  apply List.map_congr_left
  intro k mem
  congr 1
  have inside := inside k mem
  rw [ofRank.reads_unpadded] at inside ⊢
  have shifted : batch :: channel :: (w.reads p k).zipWith (· + ·) w.padsBegin =
      (batch :: channel :: w.reads p k).zipWith (· + ·) (fullPads w.padsBegin) := by
    simp [fullPads]
  dsimp only
  rw [shifted, Volume.padded_shifted]
  · rw [← shifted, Volume.paddedLengths_fullPads]
    exact .cons lead.1 (.cons lead.2.1 inside)
  · have length := ofRank.length_reads_le (p := p) (k := k)
    simp only [fullPads, List.length_cons, ofRank.padsBegin]
    omega

/-- Positions that are as much later are the same. -/
theorem Window.OfRank.reads_unpadded_eq_iff (ofRank : w.OfRank rank) (length : x.length = rank) :
    w.unpadded.reads p k = x.zipWith (· + ·) w.padsBegin ↔ w.reads p k = x := by
  rw [ofRank.reads_unpadded]
  constructor
  · intro same
    have back := congrArg (fun y => y.zipWith (· - ·) w.padsBegin) same
    rwa [Volume.zipWith_sub_add (by rw [ofRank.padsBegin]; exact ofRank.length_reads_le),
      Volume.zipWith_sub_add (Nat.le_of_eq (length.trans ofRank.padsBegin.symm))] at back
  · intro same
    rw [same]

/-- Without its pads, a transposed convolution has its sums as much later as it was padded at the
beginning. -/
theorem Window.OfRank.scattered_unpadded {input filter : List Nat} {W X : Volume}
    (ofRank : w.OfRank rank) (length : x.length = rank) :
    w.unpadded.scattered input filter W X (x.zipWith (· + ·) w.padsBegin) =
      w.scattered input filter W X x := by
  unfold scattered
  simp only [ofRank.reads_unpadded_eq_iff length]

end EvenPad
