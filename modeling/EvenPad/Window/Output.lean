import EvenPad.Extent.Arithmetic

/-!
The spatial output shape of a convolution with given pads, forward and transposed. Both count on
each axis by itself, and know nothing of an axis on which the input or the filter is dynamic.
-/

namespace EvenPad.Window

/-- The movement along one spatial axis. -/
structure Axis where
  stride : Nat
  dilation : Nat
  padBegin : Int
  padEnd : Int
  deriving DecidableEq, Inhabited

def axes (w : Window) : List Axis :=
  ((w.strides.zip w.dilations).zip (w.padsBegin.zip w.padsEnd)).map
    fun ((stride, dilation), padBegin, padEnd) => ⟨stride, dilation, padBegin, padEnd⟩

/-- Each list has as many entries as there are spatial axes. -/
def checkLengths (spatialRank : Nat) (lengths : List (SpatialList × Nat)) : Checked Unit :=
  lengths.forM fun (list, length) =>
    Checked.require (length = spatialRank) (.spatialLength list spatialRank length)

/-- The number of places where a dilated filter fits into a padded input, a stride apart. -/
def Axis.forwardExtent (a : Axis) (axis : Nat) (input filter : Extent) : Checked Extent := do
  Checked.require (0 < a.stride) (.nullStrideOn axis)
  Checked.require (0 < a.dilation) (.nullDilationOn axis)
  match input, filter with
  | .fixed i, .fixed f => do
    Checked.require (0 < f) (.emptyFilter axis)
    let field := Word.signed ((f - 1) * a.dilation + 1)
    let padded := Word.signed i + a.padBegin + a.padEnd
    Checked.require (field ≤ padded) (.filterDoesNotFit field padded axis)
    return .fixed (Word.unsigned ((padded - field).tdiv (Word.signed a.stride) + 1))
  | _, _ => return .dynamic

/-- The extent that a transposed convolution fills when it is not padded. -/
def Axis.naturalLength (a : Axis) (outputPadding : Int) (input filter : Nat) : Int :=
  Word.signed a.stride * (Word.signed input - 1) +
    Word.signed a.dilation * (Word.signed filter - 1) + 1 + outputPadding

/-- What is left of the filled extent when the pads are cut off its ends. -/
def Axis.transposedExtent (a : Axis) (outputPadding : Int) (axis : Nat) (input filter : Extent) :
    Checked Extent :=
  match input, filter with
  | .fixed i, .fixed f =>
    (Extent.ofSigned (a.naturalLength outputPadding i f - a.padBegin - a.padEnd)).within
      (.transposedAxis axis)
  | _, _ => .ok .dynamic

/-- The spatial output shape of a forward convolution. -/
def forwardShape (w : Window) (input filter : List Extent) : Checked (List Extent) := do
  checkLengths input.length
    [(.filterShape, filter.length), (.strides, w.strides.length),
      (.dilations, w.dilations.length), (.padsBegin, w.padsBegin.length),
      (.padsEnd, w.padsEnd.length)]
  (w.axes.zip (input.zip filter)).zipIdx.mapM
    fun ((a, i, f), axis) => a.forwardExtent axis i f

/-- The spatial output shape of a transposed convolution. -/
def transposedShape (w : Window) (input filter : List Extent) : Checked (List Extent) := do
  checkLengths input.length
    [(.filterShape, filter.length), (.strides, w.strides.length),
      (.dilations, w.dilations.length), (.padsBegin, w.padsBegin.length),
      (.padsEnd, w.padsEnd.length), (.outputPadding, w.outputPadding.length)]
  ((w.axes.zip w.outputPadding).zip (input.zip filter)).zipIdx.mapM
    fun (((a, outputPadding), i, f), axis) => a.transposedExtent outputPadding axis i f

end EvenPad.Window
