import EvenPad.Failure
import EvenPad.Word

/-!
The axes of a shape. Of an unknown rank, each axis that is asked for is there and dynamic.
-/

namespace EvenPad.Shape

/-- The extent of one axis. -/
def extentAt (s : Shape) (axis : Nat) : Checked Extent :=
  match s with
  | .unranked => .ok .dynamic
  | .ranked extents => Checked.ofOption (.axisOutOfRange axis s) extents[axis]?

/-- The last `rank` extents of a shape of rank `axis + rank`: with `axis` two, the spatial ones.
No shape has a rank that is not a word. -/
def tail (s : Shape) (axis rank : Nat) : Checked (List Extent) :=
  match s with
  | .unranked => .ok (List.replicate rank .dynamic)
  | .ranked extents =>
    if extents.length = axis + rank then .ok (extents.drop axis)
    else if axis + rank < Word.modulus then Checked.refuse (.rankMismatch (axis + rank) s)
    else Checked.fault (.rankTooLarge (axis + rank))

end EvenPad.Shape
