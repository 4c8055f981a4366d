import EvenPad.Op
import EvenPad.Provenance

/-!
Graphs of operators: a table of nodes, each of which reads outlets of other nodes and keeps, for
each of its own outlets, the list of those who read it.
-/

namespace EvenPad

/-- An output slot of a node. -/
structure Outlet where
  node : Nat
  slot : Nat
  deriving DecidableEq, Inhabited

/-- An input slot of a node. -/
structure Inlet where
  node : Nat
  slot : Nat
  deriving DecidableEq, Inhabited

def Outlet.text (o : Outlet) : String := toString o.node ++ "/" ++ toString o.slot ++ ">"

def Inlet.text (i : Inlet) : String := ">" ++ toString i.node ++ "/" ++ toString i.slot

/-- What a node produces in one slot, and who reads it, in the order in which they came. -/
structure Output where
  fact : Fact
  successors : List Inlet
  deriving DecidableEq, Inhabited

structure Node where
  /-- The position of the node in the table that it was made for. -/
  id : Nat
  /-- The name outlives the node: what replaces the node takes it over. -/
  name : String
  op : Op
  inputs : List Outlet
  outputs : List Output
  provenance : Provenance
  deriving DecidableEq, Inhabited

namespace Node

/-- The node as messages name it. -/
def text (n : Node) : String :=
  "#" ++ toString n.id ++ " \"" ++ n.name ++ "\" " ++ n.op.name

/-- Two nodes compute the same from the same inputs. -/
def sameAs (a b : Node) : Bool := a.inputs == b.inputs && a.op.sameAs b.op

def facts (n : Node) : List Fact := n.outputs.map Output.fact

/-- No one reads anything that the node produces. -/
def isUnread (n : Node) : Bool := n.outputs.all (·.successors.isEmpty)

end Node

/-- A graph with the outlets that it reads its inputs from and those that it answers with. -/
structure Graph where
  nodes : List Node
  inputs : List Outlet
  outputs : List Outlet
  deriving DecidableEq, Inhabited

namespace Graph

def empty : Graph := ⟨[], [], []⟩

def size (g : Graph) : Nat := g.nodes.length

/-- The node at a position, with what it holds for one slot. -/
def output? (g : Graph) (o : Outlet) : Option Output := do
  let node ← g.nodes[o.node]?
  node.outputs[o.slot]?

/-- The outlet that an inlet reads. -/
def source? (g : Graph) (i : Inlet) : Option Outlet := do
  let node ← g.nodes[i.node]?
  node.inputs[i.slot]?

/-- The graph with one node changed. -/
def modifyNode (g : Graph) (id : Nat) (f : Node → Node) : Graph :=
  { g with nodes := g.nodes.modify id f }

/-- The graph with the readers of one outlet changed. -/
def modifySuccessors (g : Graph) (o : Outlet) (f : List Inlet → List Inlet) : Graph :=
  g.modifyNode o.node fun node =>
    { node with
      outputs := node.outputs.modify o.slot fun out =>
        { out with successors := f out.successors } }

end Graph

end EvenPad
