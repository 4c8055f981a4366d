import EvenPad.Graph.Event
import EvenPad.Patch

/-!
Forward convolutions without uneven pads: the pads move into a node of their own ahead of the
data, and the convolution itself is left without any.
-/

namespace EvenPad.Unpad

/-- The nodes that replace a forward convolution: the pads as constants, the padded data, and the
convolution without pads under the old name. -/
def padAhead (g : Graph) (node : Node) (kind : ConvKind) (resolved : Window)
    (data filters : Outlet) : Edit Patch Unit := do
  let tappedData ← Patch.tap g data
  let tappedFilters ← Patch.tap g filters
  let type := (← g.outletFact data).elementType
  let padded ← Patch.onGraph do
    let begins ← Graph.addConst (node.name ++ ".pads_begin")
      (.vector (Window.fullPads resolved.padsBegin))
    let ends ← Graph.addConst (node.name ++ ".pads_end")
      (.vector (Window.fullPads resolved.padsEnd))
    let value ← Graph.addConst (node.name ++ ".pad_value") (.zeroScalar type)
    Graph.wire (node.name ++ ".pad") .pad [tappedData, begins, ends, value]
  let wire ← Patch.onGraph
    (Graph.wire node.name (.conv kind resolved.unpadded) [padded, tappedFilters])
  Patch.copyProvenance node wire.node
  Patch.shunt g ⟨node.id, 0⟩ wire

/-- A patch for a forward convolution whose pads are known and uneven. -/
def forward (kind : ConvKind) (w : Window) (g : Graph) (node : Node) : Logged (Option Patch) := do
  match node.inputs with
  | [data, filters] => do
    let facts ← g.inputFacts node.id
    let resolved ← Conv.resolveForward kind w facts
    let pads := resolved.window
    if !resolved.padsKnown then
      Logged.report (.padsUnknown node)
      return none
    else if !pads.isAsymmetric then return none
    else
      Checked.require (pads.padsBegin.length = pads.padsEnd.length)
        (.padLengthsOf node pads.padsBegin pads.padsEnd)
      let label := "Moving asymmetric padding of " ++ node.text ++ " to a Pad"
      let (_, patch) ← (padAhead g node kind pads data filters).runFrom (Patch.labelled label)
      return some patch
  | _ => return none

end EvenPad.Unpad
