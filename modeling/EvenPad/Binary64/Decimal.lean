import EvenPad.Binary64

/-!
Shortest decimal text of a double-precision number: the fewest digits that read back as the same
number, the nearest of those, written positionally whatever the magnitude.
-/

namespace EvenPad.Binary64

/-- A finite positive number as `significand * 2 ^ (power - 1074)`. -/
def significand (x : Binary64) : Nat :=
  if x.exponent = 0 then x.fraction else 1 <<< 52 + x.fraction

def power (x : Binary64) : Nat := x.exponent - 1

/-- The reals that round to a number, in quarters of the unit of its last place: `centre` is the
number and `[below, above]` the interval. It is narrower below a power of two, and its ends belong
to it when the significand is even. -/
structure RoundingInterval where
  below : Nat
  centre : Nat
  above : Nat
  closed : Bool

def roundingInterval (x : Binary64) : RoundingInterval where
  below := 4 * x.significand - if x.fraction = 0 && 1 < x.exponent then 1 else 2
  centre := 4 * x.significand
  above := 4 * x.significand + 2
  closed := x.significand % 2 == 0

/-- A decimal grid: `scale` quarters of the last place, over `unit`, count the grid's points. -/
structure Grid where
  scale : Nat
  unit : Nat

/-- The multiples of `10 ^ place` as seen from a number whose quarter unit is
`2 ^ (power - 1076)`. -/
def grid (power : Nat) (place : Int) : Grid where
  scale := Nat.pow 10 (-place).toNat <<< power
  unit := Nat.pow 10 place.toNat <<< 1076

/-- Whether point `c` of the grid rounds to the number. -/
def RoundingInterval.holds (i : RoundingInterval) (g : Grid) (c : Nat) : Bool :=
  if i.closed then i.below * g.scale ≤ c * g.unit && c * g.unit ≤ i.above * g.scale
  else i.below * g.scale < c * g.unit && c * g.unit < i.above * g.scale

/-- The point of the grid nearest to the number among those that round to it, if there is one. If
any point does, one of the number's two neighbours does. A tie goes up. -/
def RoundingInterval.nearest? (i : RoundingInterval) (g : Grid) : Option Nat :=
  let floor := i.centre * g.scale / g.unit
  match i.holds g floor, i.holds g (floor + 1) with
  | false, false => none
  | true, false => some floor
  | false, true => some (floor + 1)
  | true, true =>
    if 2 * (i.centre * g.scale) < (2 * floor + 1) * g.unit then some floor else some (floor + 1)

/-- `coefficient * 10 ^ place`. -/
structure Decimal where
  coefficient : Nat
  place : Int

/-- The place of the leading digit of a positive finite number. -/
def leadingPlace (x : Binary64) : Int :=
  let g := grid x.power (-340)
  ((Nat.toDigits 10 (4 * x.significand * g.scale / g.unit)).length : Int) - 341

/-- The decimal with the fewest digits that rounds to a positive finite number. Seventeen digits
always do. -/
def shortest (x : Binary64) : Decimal :=
  let lead := x.leadingPlace
  let attempt := fun (digits : Nat) =>
    (x.roundingInterval.nearest? (grid x.power (lead - digits))).map
      fun c => Decimal.mk c (lead - digits)
  ((List.range 17).findSome? attempt).getD ⟨0, 0⟩

/-- Digits without an exponent: a point only before a fraction that is not zero, and a zero before
a leading point. -/
def Decimal.text (d : Decimal) : String :=
  let digits := Nat.toDigits 10 d.coefficient
  if 0 ≤ d.place then String.ofList (digits ++ List.replicate d.place.toNat '0')
  else
    let places := (-d.place).toNat
    let padded := List.replicate (places + 1 - digits.length) '0' ++ digits
    let whole := padded.take (padded.length - places)
    let fraction := ((padded.drop (padded.length - places)).reverse.dropWhile (· == '0')).reverse
    String.ofList (if fraction.isEmpty then whole else whole ++ '.' :: fraction)

/-- The text of any number: infinities are `inf` and `-inf`, a NaN is `NaN` without a sign, and
zero keeps its sign. -/
def text (x : Binary64) : String :=
  if x.isNaN then "NaN"
  else
    let sign := if x.isNegative then "-" else ""
    if x.isInfinite then sign ++ "inf"
    else if x.isZero then sign ++ "0"
    else sign ++ x.shortest.text

end EvenPad.Binary64
