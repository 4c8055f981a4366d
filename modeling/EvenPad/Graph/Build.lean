import EvenPad.Edit
import EvenPad.Graph.Query
import EvenPad.Op.Inference

/-!
Building graphs: nodes are appended to the table, and edges are entered at both ends.
-/

namespace EvenPad.Graph

/-- The graph with one more node, which reads nothing and is read by no one. -/
def append (g : Graph) (name : String) (op : Op) (facts : List Fact) : Graph :=
  { g with
    nodes := g.nodes ++
      [⟨g.size, name, op, [], facts.map fun fact => ⟨fact, []⟩, Provenance.empty⟩] }

/-- Appends a node and returns its position. -/
def addNode (name : String) (op : Op) (facts : List Fact) : Edit Graph Nat := do
  let g ← get
  set (g.append name op facts)
  return g.size

/-- Takes an inlet off the readers of the outlet that it read before. -/
def detach (previous : Outlet) (inlet : Inlet) : Edit Graph Unit := do
  let g ← get
  let _ ← g.outputAt previous
  set (g.modifySuccessors previous fun readers => readers.filter (· ≠ inlet))

/-- Lets an inlet read an outlet. An input slot that is there already is rewired, and the slot
after the last one is added; any other slot is refused after the outlet has listed the inlet. -/
def connect (outlet : Outlet) (inlet : Inlet) : Edit Graph Unit := do
  let g ← get
  let producer ← Checked.ofOption (.invalidOutlet outlet) g.nodes[outlet.node]?
  let consumer ← Checked.ofOption (.invalidInlet inlet) g.nodes[inlet.node]?
  Checked.require (outlet.slot < producer.outputs.length) (.outletPastNode outlet producer)
  match consumer.inputs[inlet.slot]? with
  | some previous => detach previous inlet
  | none => pure ()
  modify fun g => g.modifySuccessors outlet (· ++ [inlet])
  if inlet.slot = consumer.inputs.length then
    modify fun g => g.modifyNode inlet.node fun n => { n with inputs := n.inputs ++ [outlet] }
  else if inlet.slot < consumer.inputs.length then
    modify fun g =>
      g.modifyNode inlet.node fun n => { n with inputs := n.inputs.set inlet.slot outlet }
  else
    Checked.refuse (α := Unit) (.inletOutOfOrder inlet.slot consumer)

/-- Appends an input of the graph. -/
def addSource (name : String) (fact : Fact) : Edit Graph Outlet := do
  let id ← addNode name (.source fact) [fact]
  modify fun g => { g with inputs := g.inputs ++ [⟨id, 0⟩] }
  return ⟨id, 0⟩

/-- Appends a constant. -/
def addConst (name : String) (value : Tensor) : Edit Graph Outlet := do
  let id ← addNode name (.const value) [.constant value]
  return ⟨id, 0⟩

/-- Lets the inputs of a node read some outlets, slot after slot. -/
def connectAll (outlets : List Outlet) (id : Nat) : Edit Graph Unit :=
  outlets.zipIdx.forM fun (outlet, slot) => connect outlet ⟨id, slot⟩

/-- Appends a node that reads some outlets, with the fact that its operator infers from theirs. If
the operator refuses them nothing has happened. -/
def wire (name : String) (op : Op) (inputs : List Outlet) : Edit Graph Outlet :=
  Edit.within (.wiring name op) do
    let g ← get
    let facts ← (inputs.mapM g.outletFact : Checked (List Fact))
    let produced ← (op.outputFact facts).within (.inferring name op)
    let id ← addNode name op [produced]
    connectAll inputs id
    return ⟨id, 0⟩

/-- Appends a transposed convolution with an addend, built for the fact that the addend has
now. -/
def wireFused (name : String) (data filters : Outlet) (outputShape : Option Outlet)
    (addend : Outlet) (window : Window) : Edit Graph Outlet := do
  let g ← get
  let fact ← g.outletFact addend
  wire name (.fusedDeconv window outputShape.isSome fact.withoutValue)
    ([data, filters] ++ outputShape.toList ++ [addend])

/-- Appends a transposed convolution with an addend like a given one on other inputs, of which
there have to be as many. -/
def rewireFused (window : Window) (takesOutputShape : Bool) (name : String)
    (inputs : List Outlet) : Edit Graph Outlet :=
  match takesOutputShape, inputs with
  | false, [data, filters, addend] => wireFused name data filters none addend window
  | true, [data, filters, shape, addend] => wireFused name data filters (some shape) addend window
  | _, _ =>
    Checked.refuse (α := Outlet)
      (.convInputCount .fusedConvBackpropData (3 + takesOutputShape.toNat) inputs.length)

def setInputs (outlets : List Outlet) : Edit Graph Unit :=
  modify fun g => { g with inputs := outlets }

def setOutputs (outlets : List Outlet) : Edit Graph Unit :=
  modify fun g => { g with outputs := outlets }

/-- Lets the graph answer with every outlet that no one reads. -/
def guessOutputs : Edit Graph Unit :=
  modify fun g => { g with outputs := g.unreadOutlets }

/-! ## Changes without checks

Each changes one end of what it names and leaves the rest of the graph as it was. -/

/-- Changes a node that has to be in the table. -/
def updateNode (id : Nat) (f : Node → Node) : Edit Graph Unit := do
  let g ← get
  let _ ← g.nodeAt id
  modify fun g => g.modifyNode id f

/-- Changes what a node holds for an outlet that has to be there. -/
def updateOutput (o : Outlet) (f : Output → Output) : Edit Graph Unit := do
  let g ← get
  let _ ← g.outputAt o
  modify fun g =>
    g.modifyNode o.node fun n => { n with outputs := n.outputs.modify o.slot f }

/-- Takes the last node off the table. -/
def dropLast : Edit Graph (Option Node) := do
  let g ← get
  set { g with nodes := g.nodes.dropLast }
  return g.nodes.getLast?

end EvenPad.Graph
