import EvenPad.Graph.Build
import EvenPad.Graph.Wires

/-!
Patches: a small graph of nodes to bring into a target graph. Its inputs are taps, which stand for
outlets of the target, and shunts say which outlets of the target its wires take over.
-/

namespace EvenPad

structure Patch where
  /-- What the patch is for, for messages. -/
  context : List String
  graph : Graph
  /-- Each tap with the outlet of the target that it stands for. -/
  incoming : List (Outlet × Outlet)
  /-- Each outlet of the target that is taken over with the wire that takes it over. -/
  shunts : List (Outlet × Outlet)
  deriving DecidableEq, Inhabited

namespace Patch

def empty : Patch := ⟨[], .empty, [], []⟩

def labelled (label : String) : Patch := { empty with context := [label] }

/-- The patch would change nothing. -/
def isEmpty (p : Patch) : Bool := p.graph.nodes.isEmpty && p.shunts.isEmpty

/-! ## Building a patch -/

/-- A change of the patch's own graph. -/
def onGraph {α : Type} (e : Edit Graph α) : Edit Patch α :=
  e.onPart Patch.graph fun graph p => { p with graph := graph }

/-- The outlet of the patch that stands for an outlet of the target. There is one for each. -/
def tap (target : Graph) (outlet : Outlet) : Edit Patch Outlet := do
  let p ← get
  match p.incoming.find? (·.2 = outlet) with
  | some (known, _) => return known
  | none => do
    let fact ← target.outletFact outlet
    let name := "incoming-" ++ toString outlet.node ++ "/" ++ toString outlet.slot
    let new ← onGraph (Graph.addSource name fact)
    modify fun p => { p with incoming := p.incoming ++ [(new, outlet)] }
    return new

def taps (target : Graph) (outlets : List Outlet) : Edit Patch (List Outlet) :=
  outlets.mapM (tap target)

/-- Lets a wire of the patch take over an outlet of the target. They have the same type and shape,
and a later wire for the same outlet replaces an earlier one. -/
def shunt (target : Graph) (outlet wire : Outlet) : Edit Patch Unit := do
  let p ← get
  let current ← target.outletFact outlet
  let substitute ← p.graph.outletFact wire
  Checked.require (current.sameType substitute)
    (.substitutionDiffers p.context current substitute)
  modify fun p =>
    { p with shunts := p.shunts.filter (fun (taken, _) => taken ≠ outlet) ++ [(outlet, wire)] }

/-- Joins the notes of a node of the target to those of a node of the patch. -/
def copyProvenance (source : Node) (id : Nat) : Edit Patch Unit := do
  let p ← get
  let _ ← p.graph.nodeAt id
  modify fun p =>
    { p with
      graph := p.graph.modifyNode id fun n =>
        { n with provenance := n.provenance.merge source.provenance } }

/-- A patch that puts one operator in the place of a node, under its name and with its notes. -/
def replacing (target : Graph) (node : Node) (inputs : List Outlet)
    (op : Op) : Checked Patch := do
  let build : Edit Patch Unit := do
    let tapped ← taps target inputs
    let wire ← onGraph (Graph.wire node.name op tapped)
    copyProvenance node wire.node
    shunt target ⟨node.id, 0⟩ wire
  let (_, p) ← build.runFrom (labelled ("replacing " ++ node.text))
  return p

/-! ## Applying a patch -/

/-- Where the outlets of a patch are in the target, and the nodes brought in so far, each with the
outlets of the patch that it is still to read. -/
structure Insertion where
  wires : Wires
  added : List (Nat × List Outlet)
  deriving DecidableEq, Inhabited

/-- Brings one node of a patch into the target. A source has to be a tap. -/
def insertNode (context : List String) (i : Insertion) (node : Node) : Edit Graph Insertion := do
  if node.op.isSource then
    Checked.require (i.wires.find? ⟨node.id, 0⟩).isSome (.newGraphInput context node)
    return i
  else
    let id ← Graph.addNode node.name node.op node.facts
    modify fun g => g.modifyNode id fun n => { n with provenance := node.provenance }
    return ⟨i.wires.addNode node.outputs.length node.id id, i.added ++ [(id, node.inputs)]⟩

/-- Lets one reader read another outlet, and adds its node to those that were touched. -/
def redirect (wire : Outlet) (touched : List Nat) (reader : Inlet) : Edit Graph (List Nat) := do
  Graph.connect wire reader
  return if touched.contains reader.node then touched else touched ++ [reader.node]

/-- Lets a wire take over an outlet: all its readers, and the outputs of the target. -/
def takeOver (context : List String) (wires : Wires) (touched : List Nat)
    (shunt : Outlet × Outlet) : Edit Graph (List Nat) := do
  let (outlet, wire) := shunt
  let mapped ← Checked.ofOption (.wireNotMapped context wire) (wires.find? wire)
  let g ← get
  let readers ← g.successorsOf outlet
  let touched ← readers.foldlM (redirect mapped) touched
  modify fun g => { g with outputs := g.outputs.map fun o => if o = outlet then mapped else o }
  return touched

/-- Lets a node that was brought in read what stands for its inputs. -/
def connectAdded (context : List String) (wires : Wires) (added : Nat × List Outlet) :
    Edit Graph Unit :=
  added.2.zipIdx.forM fun (source, slot) => do
    let mapped ← Checked.ofOption (.inputNotMapped context source) (wires.find? source)
    Graph.connect mapped ⟨added.1, slot⟩

/-- Brings a patch into the target, and returns the nodes that came in or were rewired. First come
the nodes, then the shunts and last the inputs of the nodes that came in, so that a node of the
patch still reads the outlet that its own patch takes over. -/
def apply (p : Patch) : Edit Graph (List Nat) := do
  let i ← p.graph.nodes.foldlM (insertNode p.context) ⟨p.incoming.reverse, []⟩
  let touched ← p.shunts.foldlM (takeOver p.context i.wires) (i.added.map (·.1))
  i.added.forM (connectAdded p.context i.wires)
  return touched

end Patch

end EvenPad
