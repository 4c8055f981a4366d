import EvenPad.Op.Vector
import EvenPad.Word

/-!
Slices: a range `begin : end : stride` on each leading axis, the other axes whole. A negative
bound counts from the end of the axis, a bound outside the axis is moved to its edge, and a masked
bound is that edge.
-/

namespace EvenPad.StridedSlice

/-- The nearest value between two bounds, which have to be in order. -/
def clamp (low high v : Int) : Checked Int :=
  if high < low then Checked.fault (.emptyRange low high) else .ok (max low (min high v))

/-- A bound counted from the beginning of an axis. -/
def fromBeginning (length v : Int) : Int := if v < 0 then v + length else v

/-- The first and the last bound of a range, the last not included, for either direction. -/
def bounds (beginMasked endMasked : Bool) (length first last stride : Int) :
    Checked (Int × Int) := do
  let (low, high) := if 0 < stride then (0, length) else (-1, length - 1)
  let start ←
    if beginMasked then pure (if 0 < stride then 0 else length - 1)
    else clamp low high (fromBeginning length first)
  let stop ←
    if endMasked then pure (if 0 < stride then length else -1)
    else clamp low high (fromBeginning length last)
  return (start, stop)

/-- The number of elements of a range: steps of the stride from `start` that stay before
`stop`. -/
def count (start stop stride : Int) : Int :=
  if 0 < stride then (stop - start + stride - 1) / stride
  else (start - stop - stride - 1) / -stride

/-- The number of elements selected on an axis. -/
def sliceLength (beginMask endMask : AxisMask) (axis length : Nat) (first last stride : Int) :
    Checked Nat := do
  Checked.require (stride ≠ 0) (.nullSliceStride axis)
  let (start, stop) ←
    bounds (beginMask.getLsbD axis) (endMask.getLsbD axis) (Word.signed length) first last stride
  return (max (count start stop stride) 0).toNat

/-- The extent selected on an axis. -/
def sliceExtent (beginMask endMask : AxisMask) (axis : Nat) (extent : Extent)
    (first last stride : Int) : Checked Extent :=
  match extent with
  | .fixed length => (sliceLength beginMask endMask axis length first last stride).map .fixed
  | .dynamic => do
    Checked.require (stride ≠ 0) (.nullSliceStride axis)
    return .dynamic

/-- The sliced shape. Of an unknown rank nothing is known afterwards. -/
def shape (beginMask endMask : AxisMask) (data : Shape) (firsts lasts strides : List Int) :
    Checked Shape :=
  match data with
  | .unranked => .ok .unranked
  | .ranked extents => do
    Checked.require (firsts.length ≤ extents.length)
      (.sliceRangeCount firsts.length extents.length)
    let sliced ← (extents.zip (firsts.zip (lasts.zip strides))).zipIdx.mapM
      fun ((extent, first, last, stride), axis) =>
        sliceExtent beginMask endMask axis extent first last stride
    return .ranked (sliced ++ extents.drop firsts.length)

def outputFact (beginMask endMask : AxisMask) (data begins ends : Fact) (strides : Option Fact) :
    Checked Fact := do
  let firsts ← begins.vector .sliceBegin
  let lasts ← ends.vector .sliceEnd
  let steps ←
    match strides with
    | some s => s.vector .sliceStrides
    | none => pure (firsts.map fun _ => 1)
  Checked.require (firsts.length = lasts.length && firsts.length = steps.length)
    (.sliceLengthsDiffer firsts lasts steps)
  return .typed data.elementType (← shape beginMask endMask data.shape firsts lasts steps)

end EvenPad.StridedSlice
