import EvenPad.Graph.Event
import EvenPad.Patch

/-!
Transposed convolutions without uneven pads: the output is computed without pads, larger by what
the pads would cut off, and a slice cuts it back.
-/

namespace EvenPad.Unpad

/-- What it takes to compute a transposed convolution without pads. -/
structure Plan where
  /-- The window with its pads. -/
  window : Window
  /-- The spatial lengths of the output before it is cut back. -/
  inflated : List Nat
  deriving DecidableEq, Inhabited

/-- The spatial lengths that a node has to produce: those that are asked for if there is one for
each axis, else those of its output, if they are known. -/
def targetLengths (node : Node) (requested : Shape) (rank : Nat) :
    Checked (Option (List Nat)) := do
  match requested.lengths?.filter (·.length = rank) with
  | some lengths => return some lengths
  | none => do
    let output ← Checked.ofPresent (.missingOutlet ⟨node.id, 0⟩) node.outputs[0]?
    return (← output.fact.shape.tail 2 rank).mapM Extent.length?

/-- The plan for a transposed convolution whose pads are known, uneven and not negative, and whose
output has known lengths. -/
def plan (node : Node) (resolved : Resolution) (requested : Shape) : Logged (Option Plan) := do
  let w := resolved.window
  if !resolved.padsKnown then
    Logged.report (.padsUnknown node)
    return none
  else if !w.isAsymmetric then return none
  else if (w.padsBegin ++ w.padsEnd).any (· < 0) then
    Logged.report (.padsNegative node)
    return none
  else
    Checked.require (w.padsBegin.length = w.padsEnd.length)
      (.padLengthsOf node w.padsBegin w.padsEnd)
    match ← targetLengths node requested w.padsBegin.length with
    | none =>
      Logged.report (.outputUnknown node)
      return none
    | some target =>
      let cut := w.padsBegin.zipWith (fun b e => Word.unsigned (b + e)) w.padsEnd
      return some ⟨w, target.zipWith (· + ·) cut⟩

/-- The lengths of a plan as a constant for an output-shape input. -/
def Plan.outputShape (p : Plan) : Tensor := .vector (p.inflated.map Word.signed)

/-- Where the slice that cuts back starts on each axis: batch and channel are kept whole. -/
def Plan.sliceBegins (p : Plan) : List Int := 0 :: 0 :: p.window.padsBegin

/-- Where the slice that cuts back stops on each axis. -/
def Plan.sliceEnds (p : Plan) : List Int :=
  0 :: 0 :: p.inflated.zipWith (fun length pad => Word.signed length - pad) p.window.padsEnd

/-- The axes that the slice keeps whole. -/
def wholeAxes : AxisMask := 0b11

/-- Cuts the output of a convolution without pads back to that of a node, and lets the slice take
over the node's output. The cut has to change the type of the output and to arrive at the
node's. -/
def cutBack (g : Graph) (node : Node) (p : Plan) (unpadded : Outlet) : Edit Patch Unit := do
  let patch ← get
  let wanted := (← Checked.ofPresent (.missingOutlet ⟨node.id, 0⟩) node.outputs[0]?).fact
  let inflated ← patch.graph.outletFact unpadded
  Checked.require (!inflated.sameType wanted) (.keepsPaddedShape node wanted)
  let sliced ← Patch.onGraph do
    let begins ← Graph.addConst (node.name ++ ".slice_begin") (.vector p.sliceBegins)
    let ends ← Graph.addConst (node.name ++ ".slice_end") (.vector p.sliceEnds)
    let strides ← Graph.addConst (node.name ++ ".slice_strides")
      (.vector (List.replicate (p.inflated.length + 2) 1))
    Graph.wire node.name (.stridedSlice wholeAxes wholeAxes) [unpadded, begins, ends, strides]
  let patch ← get
  let cropped ← patch.graph.outletFact sliced
  Checked.require (cropped.sameType wanted) (.croppedDiffers node cropped wanted)
  Patch.copyProvenance node unpadded.node
  Patch.copyProvenance node sliced.node
  Patch.shunt g ⟨node.id, 0⟩ sliced

/-- The outlet that a node reads in a slot that it has to have. -/
def inputOf (node : Node) (slot : Nat) : Checked Outlet :=
  Checked.ofPresent (.missingInput node.id slot) node.inputs[slot]?

def cropLabel (node : Node) : String := "Cropping " ++ node.text ++ " output instead of padding"

/-- The nodes that replace a transposed convolution. The one without pads is asked for the larger
output, whether or not the node took an output shape. -/
def cropDeconv (g : Graph) (node : Node) (kind : ConvKind) (p : Plan) : Edit Patch Unit := do
  let data ← Patch.tap g (← inputOf node 0)
  let filters ← Patch.tap g (← inputOf node 1)
  let unpadded ← Patch.onGraph do
    let shape ← Graph.addConst (node.name ++ ".unpadded.output_shape") p.outputShape
    Graph.wire (node.name ++ ".unpadded") (.deconv kind p.window.unpadded true)
      [data, filters, shape]
  cutBack g node p unpadded

/-- The nodes that replace a transposed convolution with an addend, which is added before the cut.
The one without pads is asked for the larger output only if the node took an output shape. -/
def cropFused (g : Graph) (node : Node) (takesOutputShape : Bool) (p : Plan) :
    Edit Patch Unit := do
  let data ← Patch.tap g (← inputOf node 0)
  let filters ← Patch.tap g (← inputOf node 1)
  let addend ← Patch.tap g (← inputOf node (2 + takesOutputShape.toNat))
  let unpadded ← Patch.onGraph do
    let shape ←
      if takesOutputShape then
        some <$> Graph.addConst (node.name ++ ".unpadded.output_shape") p.outputShape
      else pure none
    Graph.wireFused (node.name ++ ".unpadded") data filters shape addend p.window.unpadded
  cutBack g node p unpadded

/-- A patch for a transposed convolution. -/
def deconv (kind : ConvKind) (w : Window) (takesOutputShape : Bool) (g : Graph) (node : Node) :
    Logged (Option Patch) := do
  let facts ← g.inputFacts node.id
  let resolved ← Conv.resolveDeconv kind w takesOutputShape facts
  let requested ← Conv.deconvQuery kind w takesOutputShape facts
  match ← plan node resolved requested with
  | none => return none
  | some p => do
    let (_, patch) ← (cropDeconv g node kind p).runFrom (Patch.labelled (cropLabel node))
    return some patch

/-- A patch for a transposed convolution with an addend. -/
def fused (w : Window) (takesOutputShape : Bool) (g : Graph) (node : Node) :
    Logged (Option Patch) := do
  let facts ← g.inputFacts node.id
  let resolved ← Conv.resolveFused w takesOutputShape facts
  let requested ← Conv.fusedQuery w takesOutputShape facts
  match ← plan node resolved requested with
  | none => return none
  | some p => do
    let (_, patch) ← (cropFused g node takesOutputShape p).runFrom
      (Patch.labelled (cropLabel node))
    return some patch

end EvenPad.Unpad
