/-!
Sixty-four-bit words read with and without a sign. Extents, strides and dilations are counted
without a sign, pads and slice bounds with one, and shape arithmetic reads the first kind as the
second and back. Main statements: below `2 ^ 63` both readings agree.
-/

namespace EvenPad.Word

/-- The number of distinct words. -/
def modulus : Nat := 18446744073709551616

/-- The two's-complement reading of an unsigned word: `2 ^ 63` and above turn negative. -/
def signed (n : Nat) : Int := (n : Int).bmod modulus

/-- The unsigned reading of a two's-complement word: negative values count down from `2 ^ 64`. -/
def unsigned (v : Int) : Nat := (v % (modulus : Int)).toNat

/-- A word below `2 ^ 63` reads the same with a sign. -/
theorem signed_of_lt {n : Nat} (h : n < 9223372036854775808) : signed n = n := by
  unfold signed modulus
  apply Int.bmod_eq_of_le <;> omega

/-- A word reads no larger with a sign than without. -/
theorem signed_le {n : Nat} : signed n ≤ n := by
  unfold signed modulus
  rw [Int.bmod_def]
  split <;> omega

/-- A non-negative number reads no larger as a word. -/
theorem unsigned_le {v : Int} (h : 0 ≤ v) : (unsigned v : Int) ≤ v := by
  unfold unsigned modulus
  omega

/-- A non-negative word reads the same without a sign. -/
theorem unsigned_of_nonneg {v : Int} (h : 0 ≤ v) (below : v < 18446744073709551616) :
    unsigned v = v.toNat := by
  unfold unsigned modulus
  rw [Int.emod_eq_of_lt h (by omega)]

end EvenPad.Word
