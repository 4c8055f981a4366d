import EvenPad.Window.Output

/-!
Pads of the SAME modes. A forward convolution gets the fewest pads with which its output is
`⌈input / stride⌉` long; a transposed one gets those that cut its output down to a wanted length.
-/

namespace EvenPad.Window

/-- One axis of a forward convolution in a SAME mode. -/
structure SameAxis where
  input : Nat
  output : Nat
  padBefore : Nat
  padAfter : Nat
  deriving DecidableEq, Inhabited

/-- The pads of one axis of a forward convolution. With `upper` the odd unit goes at the end. -/
def samePads (input kernel dilation stride : Nat) (upper : Bool) : Checked SameAxis := do
  Checked.require (0 < stride && 0 < dilation && 0 < kernel) .nullSameGeometry
  let output := (input + stride - 1) / stride
  let total := (max output 1 - 1) * stride + ((kernel - 1) * dilation + 1) - input
  let smaller := total / 2
  let larger := total - smaller
  return if upper then ⟨input, output, smaller, larger⟩ else ⟨input, output, larger, smaller⟩

/-- A total of pads split into two halves. With `upper` the odd unit goes at the beginning. -/
def splitPads (total : Int) (upper : Bool) : Int × Int :=
  if upper then (total - total / 2, total / 2) else (total / 2, total - total / 2)

/-- The pads that a transposed convolution cuts off so that a wanted spatial shape is left. Where
the wanted length is not reached nothing is cut off. -/
def samePadsFor (w : Window) (input filter wanted : List Nat) :
    Checked (List Int × List Int) := do
  checkLengths input.length
    [(.filterShape, filter.length), (.outputShape, wanted.length),
      (.strides, w.strides.length), (.dilations, w.dilations.length),
      (.outputPadding, w.outputPadding.length)]
  let steps := (w.strides.zip w.dilations).zip w.outputPadding
  return ((steps.zip ((input.zip filter).zip wanted)).map
    fun (((stride, dilation), outputPadding), (i, f), o) =>
      let natural := (Axis.mk stride dilation 0 0).naturalLength outputPadding i f
      splitPads (max (natural - Word.signed o) 0) (w.mode = .sameUpper)).unzip

end EvenPad.Window
