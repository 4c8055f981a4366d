import EvenPad.Word

/-!
Double-precision numbers as their sixty-four bits. A constant keeps the bits it was given, so two
constants can be told apart exactly; numeric comparison is a function of its own, under which the
two zeros are equal and a NaN differs from everything, itself included.
-/

namespace EvenPad

/-- A double-precision number: one sign bit, eleven exponent bits, fifty-two fraction bits. -/
structure Binary64 where
  bits : UInt64
  deriving DecidableEq

namespace Binary64

def zero : Binary64 := ⟨0⟩

def isNegative (x : Binary64) : Bool := x.bits.toNat >>> 63 == 1

/-- The biased exponent, below 2048. -/
def exponent (x : Binary64) : Nat := x.bits.toNat >>> 52 % 2048

/-- The fraction bits, below `2 ^ 52`. -/
def fraction (x : Binary64) : Nat := x.bits.toNat % 1 <<< 52

def isNaN (x : Binary64) : Bool := x.exponent == 2047 && x.fraction != 0

def isInfinite (x : Binary64) : Bool := x.exponent == 2047 && x.fraction == 0

def isZero (x : Binary64) : Bool := x.exponent == 0 && x.fraction == 0

/-- Equality of the numbers, not of the bits. -/
def numericEq (a b : Binary64) : Bool :=
  !a.isNaN && !b.isNaN && (a == b || a.isZero && b.isZero)

/-- The number with the given sign, biased exponent and fraction. A fraction of `2 ^ 52` carries
into the exponent, as rounding up to the next power of two has to. -/
def ofFields (negative : Bool) (exponent fraction : Nat) : Binary64 :=
  ⟨UInt64.ofNat ((if negative then 1 <<< 63 else 0) + exponent <<< 52 + fraction)⟩

/-- The 53 leading bits of a positive natural number, a half going to the even neighbour. -/
def leadingBits (n : Nat) : Nat :=
  if n.log2 ≤ 52 then n <<< (52 - n.log2)
  else
    let unit := 1 <<< (n.log2 - 52)
    let below := n / unit
    let rest := n % unit
    if unit < 2 * rest || unit == 2 * rest && below % 2 == 1 then below + 1 else below

/-- The number nearest to an integer, a half going to the even neighbour. -/
def ofInt (v : Int) : Binary64 :=
  if v = 0 then zero
  else
    let n := v.natAbs
    ofFields (v < 0) (n.log2 + 1023) (leadingBits n - 1 <<< 52)

/-- The double-precision number equal to a single-precision one, given by its bits. Every
single-precision number is one, subnormal ones included; a NaN stays one and becomes quiet. -/
def ofBinary32 (word : UInt32) : Binary64 :=
  let negative := word.toNat >>> 31 == 1
  let exponent := word.toNat >>> 23 % 256
  let fraction := word.toNat % 1 <<< 23
  if exponent = 255 then
    ofFields negative 2047 ((fraction % 1 <<< 22) <<< 29 + if fraction = 0 then 0 else 1 <<< 51)
  else if exponent = 0 then
    if fraction = 0 then ofFields negative 0 0
    else
      let top := fraction.log2
      ofFields negative (top + 874) ((fraction - 1 <<< top) <<< (52 - top))
  else ofFields negative (exponent + 896) (fraction <<< 29)

end Binary64

end EvenPad
