import EvenPad.Proofs.Conv.Unpadded
import EvenPad.Proofs.Window.Transposed
import EvenPad.Window.SamePads

/-!
Pads for a wanted shape. A total is split into halves on each axis by itself (`splitPads_spec`).
Main statements: the pads cut an axis down to its wanted length if it is filled so far
(`Asks.samePadsFor`), and what a transposed convolution with them leaves is the smaller of what is
filled and what is wanted (`Asks.transposedShape_eq_ok_iff`).
-/

namespace EvenPad.Window

variable {w : Window} {a : Axis} {upper : Bool} {outputPadding total : Int}

/-! ## One axis -/

/-- A total is split into halves, the odd element aside. -/
theorem splitPads_spec (upper : Bool) (nonneg : 0 ≤ total) :
    0 ≤ (splitPads total upper).1 ∧ 0 ≤ (splitPads total upper).2 ∧
      (splitPads total upper).1 + (splitPads total upper).2 = total ∧
      ((splitPads total upper).1 - (splitPads total upper).2 = 0 ∨
        (splitPads total upper).1 - (splitPads total upper).2 = if upper then 1 else -1) := by
  cases upper with
  | true =>
    simp only [splitPads, if_true]
    omega
  | false =>
    simp only [splitPads, Bool.false_eq_true, if_false]
    omega

/-- The pads of an axis cut what is filled down to a wanted length, if it is filled that far. They
cut on both sides, the odd element at the beginning with `upper`, and at the end otherwise. -/
structure Axis.CutsTo (a : Axis) (upper : Bool) (outputPadding : Int)
    (input filter wanted : Nat) : Prop where
  nonneg : 0 ≤ a.padBegin ∧ 0 ≤ a.padEnd
  balanced : a.padBegin - a.padEnd = 0 ∨ a.padBegin - a.padEnd = if upper then 1 else -1
  reached : wanted ≤ a.filled outputPadding input filter → ∀ axis,
    a.transposedExtent outputPadding axis (.fixed input) (.fixed filter) = .ok (.fixed wanted)
  unreached : a.filled outputPadding input filter < wanted → a.padBegin = 0 ∧ a.padEnd = 0

/-- What is left of an axis after a cut. -/
theorem Axis.CutsTo.transposedExtent_eq_ok_iff {input filter wanted axis : Nat} {e : Extent}
    (cuts : a.CutsTo upper outputPadding input filter wanted) (signFree : a.SignFree input filter)
    (wantedSmall : wanted < 9223372036854775808) :
    a.transposedExtent outputPadding axis (.fixed input) (.fixed filter) = .ok e ↔
      ∃ output : Nat, e = .fixed output ∧
        (output : Int) = min (a.filled outputPadding input filter) wanted := by
  by_cases reached : wanted ≤ a.filled outputPadding input filter
  · rw [cuts.reached reached, Int.min_eq_right reached]
    constructor
    · intro same
      exact ⟨wanted, (Except.ok.inj same).symm, rfl⟩
    · rintro ⟨output, rfl, same⟩
      rw [Int.ofNat.inj same]
  · obtain ⟨padBegin, padEnd⟩ := cuts.unreached (by omega)
    rw [signFree.transposedExtent_eq_ok_iff (by omega), padBegin, padEnd,
      Int.min_eq_left (by omega), Int.sub_zero, Int.sub_zero]

theorem Axis.SignFree.cutsTo {input filter wanted : Nat} (signFree : a.SignFree input filter)
    (wantedSmall : wanted < 9223372036854775808)
    (split : splitPads (max (a.filled outputPadding input filter - wanted) 0) upper =
      (a.padBegin, a.padEnd)) :
    a.CutsTo upper outputPadding input filter wanted := by
  obtain ⟨beginNonneg, endNonneg, sum, balanced⟩ :=
    splitPads_spec upper (Int.le_max_right (a.filled outputPadding input filter - wanted) 0)
  rw [split] at beginNonneg endNonneg sum balanced
  dsimp only at beginNonneg endNonneg sum balanced
  refine ⟨⟨beginNonneg, endNonneg⟩, balanced, fun reached axis => ?_, fun unreached => by omega⟩
  exact (signFree.transposedExtent_eq_ok_iff (by omega)).2 ⟨wanted, rfl, by omega⟩

/-! ## All axes -/

/-- A window, an input and a filter have as many axes as a wanted shape, and steps and lengths are
the same numbers when they are read with a sign. -/
structure Asks (w : Window) (input filter wanted : List Nat) : Prop where
  strides : w.strides.length = input.length
  dilations : w.dilations.length = input.length
  paddings : w.outputPadding.length = input.length
  filters : filter.length = input.length
  outputs : wanted.length = input.length
  small : ∀ n ∈ w.strides ++ w.dilations ++ input ++ filter ++ wanted, n < 9223372036854775808

/-- What a window and the lists over its axes have at one axis. -/
structure Along (w : Window) (input filter wanted : List Nat) (axis : Nat) (a : Axis)
    (p : Int) (i f o : Nat) : Prop where
  axisAt : w.axes[axis]? = some a
  paddingAt : w.outputPadding[axis]? = some p
  inputAt : input[axis]? = some i
  filterAt : filter[axis]? = some f
  wantedAt : wanted[axis]? = some o

variable {input filter wanted : List Nat} {axis i f o : Nat} {p : Int} {output : List Extent}

theorem Asks.signFree (asks : w.Asks input filter wanted)
    (along : w.Along input filter wanted axis a p i f o) :
    a.SignFree i f where
  stride := asks.small _ (by simp [List.mem_of_getElem? (axes_getElem?.1 along.axisAt).1])
  dilation := asks.small _ (by simp [List.mem_of_getElem? (axes_getElem?.1 along.axisAt).2.1])
  input := asks.small _ (by simp [List.mem_of_getElem? along.inputAt])
  filter := asks.small _ (by simp [List.mem_of_getElem? along.filterAt])

theorem Asks.wantedSmall (asks : w.Asks input filter wanted)
    (along : w.Along input filter wanted axis a p i f o) :
    o < 9223372036854775808 :=
  asks.small o (List.mem_append_right _ (List.mem_of_getElem? along.wantedAt))

/-- Other pads are asked for the same. -/
theorem Asks.withPads {w' : Window} (asks : w.Asks input filter wanted) (same : w.SameSteps w') :
    w'.Asks input filter wanted := by
  obtain ⟨strides, dilations, paddings, filters, outputs, small⟩ := asks
  rw [← same.strides] at strides small
  rw [← same.dilations] at dilations small
  rw [← same.outputPadding] at paddings
  exact ⟨strides, dilations, paddings, filters, outputs, small⟩

/-- The pads for a wanted shape are derived on each axis by itself. -/
theorem Asks.samePadsFor_eq_ok (asks : w.Asks input filter wanted) :
    ∃ padsBegin padsEnd, w.samePadsFor input filter wanted = .ok (padsBegin, padsEnd) ∧
      padsBegin.length = input.length ∧ padsEnd.length = input.length ∧
      ∀ {axis a p i f o},
        ({ w with padsBegin, padsEnd } : Window).Along input filter wanted axis a p i f o →
        splitPads (max (a.naturalLength p i f - Word.signed o) 0) (w.mode = .sameUpper) =
          (a.padBegin, a.padEnd) := by
  obtain ⟨strides, dilations, paddings, filters, outputs, -⟩ := asks
  have checked : checkLengths input.length
      [(.filterShape, filter.length), (.outputShape, wanted.length), (.strides, w.strides.length),
        (.dilations, w.dilations.length), (.outputPadding, w.outputPadding.length)] = .ok ⟨⟩ :=
    checkLengths_eq_ok.2 (by simp [strides, dilations, paddings, filters, outputs])
  refine ⟨_, _, by rw [Window.samePadsFor, checked]; rfl, ?_, ?_, ?_⟩
  · simp [strides, dilations, paddings, filters, outputs]
  · simp [strides, dilations, paddings, filters, outputs]
  · rintro axis a p i f o ⟨axisAt, paddingAt, inputAt, filterAt, wantedAt⟩
    obtain ⟨strideAt, dilationAt, beginAt, endAt⟩ := axes_getElem?.1 axisAt
    have operandsAt : (((w.strides.zip w.dilations).zip w.outputPadding).zip
        ((input.zip filter).zip wanted))[axis]? =
        some (((a.stride, a.dilation), p), (i, f), o) := by
      simp only [List.getElem?_zip_eq_some]
      exact ⟨⟨⟨strideAt, dilationAt⟩, paddingAt⟩, ⟨inputAt, filterAt⟩, wantedAt⟩
    simp only [List.unzip_fst, List.unzip_snd, List.map_map, List.getElem?_map,
      operandsAt, Option.map_some]
      at beginAt endAt
    exact Prod.ext (Option.some.inj beginAt) (Option.some.inj endAt)

/-- The pads for a wanted shape cut each axis down to its length. -/
theorem Asks.samePadsFor (asks : w.Asks input filter wanted) :
    ∃ padsBegin padsEnd, w.samePadsFor input filter wanted = .ok (padsBegin, padsEnd) ∧
      padsBegin.length = input.length ∧ padsEnd.length = input.length ∧
      ∀ {axis a p i f o},
        ({ w with padsBegin, padsEnd } : Window).Along input filter wanted axis a p i f o →
        a.CutsTo (w.mode = .sameUpper) p i f o := by
  obtain ⟨padsBegin, padsEnd, derived, begins, ends, splits⟩ := asks.samePadsFor_eq_ok
  refine ⟨padsBegin, padsEnd, derived, begins, ends, fun {axis a p i f o} along => ?_⟩
  have asks' : ({ w with padsBegin, padsEnd } : Window).Asks input filter wanted :=
    asks.withPads ⟨rfl, rfl, rfl⟩
  have signFree := asks'.signFree along
  have wantedSmall := asks'.wantedSmall along
  have split := splits along
  rw [signFree.naturalLength_eq, Word.signed_of_lt wantedSmall] at split
  exact signFree.cutsTo wantedSmall split

/-- With pads that cut each axis down to its length, a transposed convolution has the smaller of
what is filled and what is wanted on each axis, unless that is negative. -/
theorem Asks.transposedShape_eq_ok_iff (asks : w.Asks input filter wanted)
    (ofRank : w.OfRank input.length)
    (cuts : ∀ {axis a p i f o},
      w.Along input filter wanted axis a p i f o → a.CutsTo upper p i f o) :
    w.transposedShape (input.map .fixed) (filter.map .fixed) = .ok output ↔
      output.length = input.length ∧
      ∀ {axis a p i f o e}, w.Along input filter wanted axis a p i f o → output[axis]? = some e →
        ∃ n : Nat, e = .fixed n ∧ (n : Int) = min (a.filled p i f) o := by
  rw [Window.transposedShape_eq_ok_iff]
  simp only [List.length_map]
  constructor
  · rintro ⟨-, -, -, outputs, extents⟩
    refine ⟨outputs, fun {axis a p i f o e} along outputAt => ?_⟩
    rw [← (cuts along).transposedExtent_eq_ok_iff (asks.signFree along) (asks.wantedSmall along)]
    exact extents along.axisAt along.paddingAt
      (by simp [along.inputAt]) (by simp [along.filterAt]) outputAt
  · rintro ⟨outputs, extents⟩
    refine ⟨ofRank, asks.paddings, asks.filters, outputs, ?_⟩
    intro axis a p n k e axisAt paddingAt inputAt filterAt outputAt
    simp only [List.getElem?_map, Option.map_eq_some_iff] at inputAt filterAt
    obtain ⟨i, inputAt, rfl⟩ := inputAt
    obtain ⟨f, filterAt, rfl⟩ := filterAt
    have lt : axis < wanted.length := by
      rw [asks.outputs, ← outputs]
      exact (List.getElem?_eq_some_iff.1 outputAt).1
    have along : w.Along input filter wanted axis a p i f _ :=
      ⟨axisAt, paddingAt, inputAt, filterAt, List.getElem?_eq_getElem lt⟩
    exact ((cuts along).transposedExtent_eq_ok_iff (asks.signFree along)
      (asks.wantedSmall along)).2
      (extents along outputAt)

/-- Where every axis is filled far enough, a transposed convolution with such pads has the wanted
shape. -/
theorem Asks.transposedShape_wanted (asks : w.Asks input filter wanted)
    (ofRank : w.OfRank input.length)
    (cuts : ∀ {axis a p i f o},
      w.Along input filter wanted axis a p i f o → a.CutsTo upper p i f o)
    (reached : ∀ {axis a p i f o}, w.Along input filter wanted axis a p i f o →
      (o : Int) ≤ a.filled p i f) :
    w.transposedShape (input.map .fixed) (filter.map .fixed) = .ok (wanted.map .fixed) := by
  refine (asks.transposedShape_eq_ok_iff ofRank cuts).2 ⟨by simp [asks.outputs], ?_⟩
  intro axis a p i f o e along outputAt
  rw [List.getElem?_map, along.wantedAt] at outputAt
  exact ⟨o, (Option.some.inj outputAt).symm, (Int.min_eq_right (reached along)).symm⟩

end EvenPad.Window
