import EvenPad.Failure

/-!
Questions about a graph: the facts of its outlets, its nodes by name, and whether its edges are
known at both ends.
-/

namespace EvenPad.Graph

/-- The node at a position that has to be in the table. -/
def nodeAt (g : Graph) (id : Nat) : Checked Node :=
  Checked.ofPresent (.missingNode id) g.nodes[id]?

/-- What a node holds for an outlet that has to be there. -/
def outputAt (g : Graph) (o : Outlet) : Checked Output :=
  Checked.ofPresent (.missingOutlet o) (g.output? o)

/-- The fact of an outlet. -/
def outletFact (g : Graph) (o : Outlet) : Checked Fact := do
  let node ← Checked.ofOption .outletOutsideGraph g.nodes[o.node]?
  let output ← Checked.ofOption (.noSuchOutlet o) node.outputs[o.slot]?
  return output.fact

/-- The fact of one of the graph's outputs. -/
def outputFact (g : Graph) (index : Nat) : Checked Fact := do
  g.outletFact (← Checked.ofOption (.noOutput index) g.outputs[index]?)

/-- The number of the first node with a name. -/
def idOfName (g : Graph) (name : String) : Checked Nat := do
  let node ← Checked.ofOption (.noNodeNamed name) (g.nodes.find? (·.name = name))
  return node.id

/-- The first node with a name. -/
def nodeOfName (g : Graph) (name : String) : Checked Node := do g.nodeAt (← g.idOfName name)

def inputFacts (g : Graph) (id : Nat) : Checked (List Fact) := do
  (← g.nodeAt id).inputs.mapM g.outletFact

def outputFacts (g : Graph) (id : Nat) : Checked (List Fact) := do
  return (← g.nodeAt id).facts

/-- Those who read an outlet. -/
def successorsOf (g : Graph) (o : Outlet) : Checked (List Inlet) := do
  return (← g.outputAt o).successors

/-- The outlets that no one reads, in the order of the table. -/
def unreadOutlets (g : Graph) : List Outlet :=
  g.nodes.flatMap fun node =>
    (node.outputs.zipIdx.filter fun (output, _) => output.successors.isEmpty).map
      fun (_, slot) => ⟨node.id, slot⟩

/-! ## Edges known at both ends -/

/-- The outlet that an input reads is there and knows of the input. -/
def checkInput (g : Graph) (node : Node) (slot : Nat) (source : Outlet) : Checked Unit := do
  let producer ← Checked.ofOption (.readsMissingNode node slot) g.nodes[source.node]?
  let output ← Checked.ofOption (.readsMissingOutlet node slot) producer.outputs[source.slot]?
  Checked.require (output.successors.contains ⟨node.id, slot⟩) (.readerUnknown node slot source)

/-- The node of a successor is there and reads the outlet that lists it. -/
def checkSuccessor (g : Graph) (node : Node) (slot : Nat) (reader : Inlet) : Checked Unit := do
  let consumer ← Checked.ofOption (.feedsMissingNode node reader) g.nodes[reader.node]?
  Checked.require (consumer.inputs[reader.slot]? == some ⟨node.id, slot⟩)
    (.readerElsewhere consumer node)

def checkNode (g : Graph) (node : Node) : Checked Unit := do
  node.inputs.zipIdx.forM fun (source, slot) => g.checkInput node slot source
  node.outputs.zipIdx.forM fun (output, slot) =>
    output.successors.forM fun reader => g.checkSuccessor node slot reader

/-- Every input is listed by the outlet it reads, every listed reader reads the outlet that lists
it, and the outputs of the graph are there. -/
def checkEdges (g : Graph) : Checked Unit := do
  g.nodes.forM g.checkNode
  g.outputs.forM fun o => do
    let _ ← (g.outletFact o).within .graphOutput
    return ()

end EvenPad.Graph
