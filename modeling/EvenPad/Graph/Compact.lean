import EvenPad.Graph.Build
import EvenPad.Graph.Event
import EvenPad.Graph.Order
import EvenPad.Graph.Wires

/-!
Compaction: the nodes that the outputs depend on, renumbered in evaluation order. The inputs of
the graph are kept even if nothing reads them.
-/

namespace EvenPad.Graph

/-- A graph under construction, and where the outlets of the old graph are in it. -/
structure Renumbering where
  graph : Graph
  wires : Wires
  deriving DecidableEq, Inhabited

/-- Lets the node at `id` of the new graph read what stands for some outlets of the old one. -/
def connectMapped (wires : Wires) (node : Node) (id : Nat) : Edit Graph Unit :=
  node.inputs.zipIdx.forM fun (source, slot) => do
    let mapped ← Checked.ofOption (.inputNotCarried node source) (wires.find? source)
    connect mapped ⟨id, slot⟩

/-- Carries one node over. A node that is an input of the graph reads nothing afterwards. -/
def carryNode (old : Graph) (r : Renumbering) (id : Nat) : Checked Renumbering := do
  let node ← old.nodeAt id
  let new := r.graph.size
  let appended := r.graph.append node.name node.op node.facts
  let noted := appended.modifyNode new fun n => { n with provenance := node.provenance }
  let wires := r.wires.addNode node.outputs.length id new
  if old.inputs.contains ⟨node.id, 0⟩ then
    return ⟨noted, wires⟩
  else
    let (_, connected) ← (connectMapped wires node new).runFrom noted
    return ⟨connected, wires⟩

/-- Carries an input of the graph over if nothing else did, without its notes. -/
def carryInput (old : Graph) (r : Renumbering) (input : Outlet) : Logged Renumbering :=
  match r.wires.find? input with
  | some _ => return r
  | none => do
    let node ← old.nodeAt input.node
    Logged.report (.keepingUnused node)
    let output ← old.outputAt ⟨input.node, 0⟩
    return ⟨r.graph.append node.name node.op [output.fact],
      (input, ⟨r.graph.size, 0⟩) :: r.wires⟩

/-- Where an outlet that has to be kept is in the new graph. -/
def Renumbering.located (r : Renumbering) (o : Outlet) : Checked Outlet :=
  Checked.ofPresent (.outletNotKept o) (r.wires.find? o)

/-- The graph without the nodes that nothing depends on, in evaluation order. -/
def compacted (g : Graph) : Logged Graph := do
  let order ← g.evalOrder
  let carried ← (order.foldlM (carryNode g) ⟨.empty, []⟩ : Checked Renumbering)
  let r ← g.inputs.foldlM (carryInput g) carried
  let inputs ← (g.inputs.mapM r.located : Checked (List Outlet))
  let outputs ← (g.outputs.mapM r.located : Checked (List Outlet))
  return { r.graph with inputs, outputs }

/-- Replaces the graph by its compaction, or leaves it as it is if that fails. -/
def compact : Edit LoggedGraph Unit := do
  let s ← get
  let new ← LoggedGraph.onLog s.graph.compacted
  modify fun s => { s with graph := new }

end EvenPad.Graph
