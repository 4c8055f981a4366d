import EvenPad.Graph.Basic

/-!
Which outlet of one graph stands for which outlet of another, as nodes are carried over.
-/

namespace EvenPad

/-- Pairs of an outlet and the one that stands for it, the latest first. -/
abbrev Wires := List (Outlet × Outlet)

namespace Wires

/-- The outlet that stands for one, by the latest pair that says so. -/
def find? (w : Wires) (o : Outlet) : Option Outlet := w.lookup o

/-- The first slots of one node stand for those of another. -/
def addNode (w : Wires) (slots : Nat) (old new : Nat) : Wires :=
  ((List.range slots).map fun slot => (⟨old, slot⟩, ⟨new, slot⟩)).reverse ++ w

end Wires

end EvenPad
