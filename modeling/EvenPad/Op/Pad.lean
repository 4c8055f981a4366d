import EvenPad.Extent.Arithmetic
import EvenPad.Op.Vector

/-!
Constant pads at both ends of each axis: data, begins, ends and, if it is not zero, the scalar to
pad with.
-/

namespace EvenPad.Pad

/-- The padded shape. Of an unknown rank, the pads tell the rank. -/
def shape (data : Fact) (begins ends : List Int) : Checked Shape :=
  match data.shape with
  | .ranked extents => do
    Checked.require (extents.length = begins.length) (.padCount extents.length data begins.length)
    return .ranked (← (extents.zip (begins.zip ends)).mapM fun (e, b, a) => e.offset (b + a))
  | .unranked => .ok (.dynamic begins.length)

/-- The value to pad with is a scalar of the type of the data. -/
def checkValue (data value : Fact) : Checked Unit := do
  Checked.require (value.elementType = data.elementType)
    (.padValueType value.elementType data.elementType)
  Checked.require (value.rank? = some 0) (.padValueRank value)

def outputFact (data begins ends : Fact) (value : Option Fact) : Checked Fact := do
  let before ← begins.vector .padBegin
  let after ← ends.vector .padEnd
  Checked.require (before.length = after.length) .padLengthsDiffer
  match value with
  | some v => checkValue data v
  | none => pure ()
  return .typed data.elementType (← shape data before after)

end EvenPad.Pad
