import EvenPad.Conv.Forward
import EvenPad.Conv.Transposed
import EvenPad.Op.Pad
import EvenPad.Op.StridedSlice

/-!
What an operator produces, told from the facts of its inputs. Every operator has one output.
-/

namespace EvenPad.Op

/-- The output of a transposed convolution with an addend: the addend has the element type that
the node was built for, and the convolution produces it. Its shape is not looked at. -/
def fusedFact (w : Window) (takesOutputShape : Bool) (built : Fact) (inputs : List Fact) :
    Checked Fact := do
  let resolved ← Conv.resolveFused w takesOutputShape inputs
  match (← Conv.fusedInputs takesOutputShape inputs).addend with
  | some addend =>
    Checked.require (addend.elementType = built.elementType) (.addendType addend built)
  | none => pure ()
  Checked.require (resolved.fact.elementType = built.elementType)
    (.addendOutputType resolved.fact.elementType built.elementType)
  return resolved.fact

/-- The fact of the output, or why the inputs are not what the operator expects. -/
def outputFact (op : Op) (inputs : List Fact) : Checked Fact :=
  match op with
  | .conv kind w => (Conv.resolveForward kind w inputs).map Resolution.fact
  | .deconv kind w takesOutputShape =>
    (Conv.resolveDeconv kind w takesOutputShape inputs).map Resolution.fact
  | .fusedDeconv w takesOutputShape built => fusedFact w takesOutputShape built inputs
  | .pad =>
    match inputs with
    | [data, begins, ends] => Pad.outputFact data begins ends none
    | [data, begins, ends, value] => Pad.outputFact data begins ends (some value)
    | _ => Checked.refuse (.padInputCount inputs.length)
  | .stridedSlice beginMask endMask =>
    match inputs with
    | [data, begins, ends] => StridedSlice.outputFact beginMask endMask data begins ends none
    | [data, begins, ends, strides] =>
      StridedSlice.outputFact beginMask endMask data begins ends (some strides)
    | _ => Checked.refuse (.sliceInputCount inputs.length)
  | .const t => .ok (.constant t)
  | .source fact =>
    if inputs.isEmpty then .ok fact else Checked.refuse .sourceWithInputs

end EvenPad.Op
