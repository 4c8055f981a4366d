import EvenPad.Graph.Wires
import EvenPad.Proofs.Graph.Edges

/-!
Wires that stand for the outlets of nodes which are placed one after the other, at the end of
another table. Main statements: `find?_addNodes` and `find?_addNodes_eq_some`, where the outlets
of those nodes are, and that no others are.
-/

namespace EvenPad

/-- Where an outlet is, if anything stands for it, and else itself. -/
def Wires.place (w : Wires) (o : Outlet) : Outlet := (w.find? o).getD o

/-- The wires with the outlets of nodes that are placed one after the other. -/
def Wires.addNodes (w : Wires) (nodes : List Node) (start : Nat) : Wires :=
  (nodes.zipIdx start).foldl (fun w (n, id) => w.addNode n.outputs.length n.id id) w

/-- The node as it is at a position of another table, reading what stands for its inputs. -/
def Node.placed (w : Wires) (id : Nat) (n : Node) : Node :=
  ⟨id, n.name, n.op, n.inputs.map w.place, n.facts.map fun fact => ⟨fact, []⟩, n.provenance⟩

/-- The node as it is at a position of another table before it reads anything. -/
def Node.landing (n : Node) (id : Nat) : Node :=
  ⟨id, n.name, n.op, [], n.facts.map fun fact => ⟨fact, []⟩, n.provenance⟩

/-- The graph with nodes of another one after its last, which read what stands for their
inputs. -/
def Graph.land (g : Graph) (w : Wires) (nodes : List Node) : Graph :=
  { g with nodes := g.nodes ++ (nodes.zipIdx g.size).map fun (n, id) => n.placed w id }

@[simp] theorem Node.length_facts {n : Node} : n.facts.length = n.outputs.length := by
  simp [Node.facts]

@[simp] theorem Node.bare_placed {w : Wires} {id : Nat} {n : Node} :
    (n.placed w id).bare = n.placed w id := by
  simp [Node.placed, Node.bare, Node.facts, Function.comp_def]

@[simp] theorem Node.facts_placed {w : Wires} {id : Nat} {n : Node} :
    (n.placed w id).facts = n.facts := by
  simp [Node.placed, Node.facts, Function.comp_def]

/-- The lists of readers stay behind. -/
@[simp] theorem Node.placed_bare {w : Wires} {id : Nat} {n : Node} :
    n.bare.placed w id = n.placed w id := by
  simp [Node.placed, Node.bare, Node.facts, Function.comp_def]

/-- Only what stands for the inputs of a node matters. -/
theorem Node.placed_congr {w w' : Wires} {id : Nat} {n : Node}
    (same : ∀ o ∈ n.inputs, w.place o = w'.place o) : n.placed w id = n.placed w' id := by
  rw [Node.placed, Node.placed, List.map_congr_left same]

namespace Wires

variable {w : Wires} {o o' : Outlet} {nodes : List Node} {n : Node} {start j s old new : Nat}

theorem find?_cons {p : Outlet × Outlet} :
    find? (p :: w) o = if o = p.1 then some p.2 else w.find? o := by
  rcases p with ⟨key, stands⟩
  simp only [find?, List.lookup_cons]
  split <;> simp_all

theorem find?_addNode {slots : Nat} :
    (w.addNode slots old new).find? o =
      if o.node = old ∧ o.slot < slots then some ⟨new, o.slot⟩ else w.find? o := by
  induction slots with
  | zero => simp [addNode]
  | succ slots ih =>
    have step : w.addNode (slots + 1) old new =
        (⟨old, slots⟩, ⟨new, slots⟩) :: w.addNode slots old new := by
      simp [addNode, List.range_succ]
    rw [step, find?_cons, ih]
    rcases o with ⟨node, slot⟩
    simp only [Outlet.mk.injEq]
    by_cases last : slot = slots
    · subst last
      by_cases same : node = old <;> simp [same]
    · rw [if_neg (by simp [last])]
      by_cases lt : slot < slots
      · have lt' : slot < slots + 1 := by omega
        simp [lt, lt']
      · have ge : ¬ slot < slots + 1 := by omega
        simp [lt, ge]

theorem addNodes_cons :
    w.addNodes (n :: nodes) start =
      (w.addNode n.outputs.length n.id start).addNodes nodes (start + 1) := rfl

theorem addNodes_concat :
    w.addNodes (nodes ++ [n]) start =
      (w.addNodes nodes start).addNode n.outputs.length n.id (start + nodes.length) := by
  simp [addNodes, List.zipIdx_append]

/-- The lists of readers do not matter. -/
theorem addNodes_bare : w.addNodes (nodes.map Node.bare) start = w.addNodes nodes start := by
  induction nodes generalizing w start with
  | nil => rfl
  | cons n rest ih =>
    rw [List.map_cons, addNodes_cons, addNodes_cons, ih]
    simp [Node.bare]

/-- Outlets of other nodes are where they were. -/
theorem find?_addNodes_of_other (other : ∀ n ∈ nodes, n.id ≠ o.node) :
    (w.addNodes nodes start).find? o = w.find? o := by
  induction nodes generalizing w start with
  | nil => rfl
  | cons n rest ih =>
    rcases List.forall_mem_cons.1 other with ⟨first, other⟩
    rw [addNodes_cons, ih other, find?_addNode, if_neg]
    exact fun same => first same.1.symm

/-- The outlets of nodes that are placed one after the other. -/
theorem find?_addNodes (distinct : (nodes.map Node.id).Nodup) (node : nodes[j]? = some n)
    (slot : s < n.outputs.length) :
    (w.addNodes nodes start).find? ⟨n.id, s⟩ = some ⟨start + j, s⟩ := by
  induction nodes generalizing w start j with
  | nil => simp at node
  | cons m rest ih =>
    rw [List.map_cons, List.nodup_cons] at distinct
    rcases distinct with ⟨first, distinct⟩
    rw [addNodes_cons]
    cases j with
    | zero =>
      cases Option.some.inj node
      rw [find?_addNodes_of_other, find?_addNode, if_pos ⟨rfl, slot⟩, Nat.add_zero]
      intro k mem same
      exact first (List.mem_map.2 ⟨k, mem, same⟩)
    | succ j =>
      rw [List.getElem?_cons_succ] at node
      rw [ih distinct node]
      congr 2
      omega

/-- What stands for an outlet is an outlet of one of the nodes, or stood for it before. -/
theorem find?_addNodes_eq_some (found : (w.addNodes nodes start).find? o = some o') :
    (∃ j n, nodes[j]? = some n ∧ o.node = n.id ∧ o.slot < n.outputs.length ∧
      o' = ⟨start + j, o.slot⟩) ∨ w.find? o = some o' := by
  induction nodes generalizing w start with
  | nil => exact .inr found
  | cons m rest ih =>
    rw [addNodes_cons] at found
    rcases ih found with ⟨j, n, node, same, slot, rfl⟩ | found
    · refine .inl ⟨j + 1, n, node, same, slot, ?_⟩
      congr 1
      omega
    · rw [find?_addNode] at found
      split at found
      · next here =>
        exact .inl ⟨0, m, rfl, here.1, here.2, (Option.some.inj found).symm⟩
      · exact .inr found

/-- An outlet that something stands for is placed there. -/
theorem place_of_find? (found : w.find? o = some o') : w.place o = o' := by
  rw [place, found, Option.getD_some]

/-- Outlets that others stand for are placed there. -/
theorem map_place_of_find? {sources outlets : List Outlet}
    (founds : List.Forall₂ (fun source found => w.find? source = some found) sources outlets) :
    (∀ o ∈ sources, (w.find? o).isSome) ∧ outlets = sources.map w.place := by
  induction founds with
  | nil => simp
  | cons found _ ih =>
    rcases ih with ⟨mapped, same⟩
    refine ⟨List.forall_mem_cons.2 ⟨by rw [found]; rfl, mapped⟩, ?_⟩
    rw [List.map_cons, ← same, place_of_find? found]

/-- Outlets that something stands for are placed there. -/
theorem forall₂_place {sources : List Outlet} (mapped : ∀ o ∈ sources, (w.find? o).isSome) :
    List.Forall₂ (fun source found => w.find? source = some found)
      sources (sources.map w.place) := by
  induction sources with
  | nil => exact .nil
  | cons o rest ih =>
    rcases List.forall_mem_cons.1 mapped with ⟨first, rest⟩
    rcases Option.isSome_iff_exists.1 first with ⟨o', found⟩
    refine .cons ?_ (ih rest)
    rw [found, place_of_find? found]

end Wires

end EvenPad
