import EvenPad.Failure
import EvenPad.Word

/-!
Arithmetic on extents. It is done with signs, since a pad may be negative, and refuses a result
below zero.
-/

namespace EvenPad.Extent

/-- The length of an axis that has to be known. -/
def length (e : Extent) : Checked Nat := Checked.ofOption .dynamicExtent e.length?

/-- The length of an axis that has to be known, for arithmetic with signs. -/
def signedLength (e : Extent) : Checked Int := e.length.map Word.signed

/-- The extent of a length that came out of arithmetic with signs. -/
def ofSigned (length : Int) : Checked Extent :=
  if 0 ≤ length then .ok (.fixed (Word.unsigned length))
    else Checked.refuse (.negativeExtent length)

/-- The extent after an axis grew by a number of elements. An unknown one stays unknown. -/
def offset (e : Extent) (delta : Int) : Checked Extent :=
  match e with
  | .fixed n => ofSigned (Word.signed n + delta)
  | .dynamic => .ok .dynamic

end EvenPad.Extent
