import EvenPad.Proofs.Graph.Compact.Normal
import Mathlib.Data.Set.Function
import Mathlib.Order.Interval.Set.Defs

/-!
What compaction keeps of a graph that was built. The nodes that it keeps are those that the
outputs depend on and the inputs of the graph, each once. Main statement: `Built.compact_keeps`,
of these it keeps name, operator, facts and what they read, and the inputs and outputs of the
graph stay in their places; but the notes it keeps of the nodes only that the outputs depend on.
An input that no output depends on has no notes afterwards.
-/

namespace EvenPad

/-- The outlet where it is after nodes have moved. -/
def Outlet.movedBy (place : Nat → Nat) (o : Outlet) : Outlet := ⟨place o.node, o.slot⟩

/-- A node after nodes have moved, up to its notes and readers. -/
structure Node.MovesTo (place : Nat → Nat) (n m : Node) : Prop where
  name : m.name = n.name
  op : m.op = n.op
  facts : m.facts = n.facts
  inputs : m.inputs = n.inputs.map (Outlet.movedBy place)

namespace Graph

variable {g g' : Graph} {order : List Nat} {kept unused : List Node}
  {r : Renumbering} {c n m : Node} {o o' : Outlet} {id k : Nat} {outlets outlets' : List Outlet}

/-- The node is kept by compaction: an output depends on it, or it is an input of the graph. -/
def Kept (g : Graph) (id : Nat) : Prop := g.Live id ∨ ⟨id, 0⟩ ∈ g.inputs

/-- Where a node of the graph is after its first outlet has been carried over. -/
def Renumbering.position (r : Renumbering) (id : Nat) : Nat := (r.wires.place ⟨id, 0⟩).node

namespace Carrying

variable (carrying : g.Carrying order kept unused r g') (wf : g.WellFormed)
include carrying wf

/-- A node that is carried is kept, and has one outlet. -/
theorem kept_of_carried (at_k : (kept.map g.cut ++ unused.map stub)[k]? = some c) :
    g.Kept c.id ∧ c.outputs.length = 1 := by
  rw [carrying.carried_eq wf] at at_k
  rcases List.mem_append.1 (List.mem_of_getElem? at_k) with mem | mem
  · obtain ⟨there, live⟩ := carrying.of_kept wf mem
    exact ⟨.inl live, wf.length_outputs there⟩
  · obtain ⟨n, among, rfl⟩ := List.mem_map.1 mem
    obtain ⟨there, input⟩ := carrying.own n among
    exact ⟨.inr input, wf.length_outputs (n := n) there⟩

theorem position_of_carried (at_k : (kept.map g.cut ++ unused.map stub)[k]? = some c) :
    r.position c.id = k := by
  have slot : 0 < c.outputs.length := by
    rw [(carrying.kept_of_carried wf at_k).2]
    exact Nat.one_pos
  rw [Renumbering.position, Wires.place_of_find? (carrying.carries.find? at_k slot)]

/-- What stands for an outlet is that outlet where its node has moved. -/
theorem moved (found : r.wires.find? o = some o') : o.movedBy r.position = o' := by
  obtain ⟨j, c, at_j, node, -, rfl⟩ := carrying.carries.find?_eq_some found
  rw [Outlet.movedBy, node, carrying.position_of_carried wf at_j]

theorem map_moved
    (found : List.Forall₂ (fun o o' => r.wires.find? o = some o') outlets outlets') :
    outlets' = outlets.map (Outlet.movedBy r.position) := by
  have moved := found.imp fun _ _ found => carrying.moved wf found
  rw [← List.forall₂_map_left_iff, List.forall₂_eq_eq_eq] at moved
  exact moved.symm

theorem movesTo (copies : n.Copies r.wires m) : n.MovesTo r.position m :=
  ⟨copies.name, copies.op, copies.facts, carrying.map_moved wf copies.inputs⟩

/-- A node that is kept is carried: with its notes if an output depends on it, and else
without. -/
theorem carried_of_kept (isKept : g.Kept id) : ∃ (n : Node) (k : Nat) (c : Node),
    g.nodes[id]? = some n ∧ (kept.map g.cut ++ unused.map stub)[k]? = some c ∧ c.id = id ∧
    (g.Live id ∧ c = n ∨ ¬ g.Live id ∧ c = unnoted n) := by
  rw [carrying.carried_eq wf]
  by_cases live : g.Live id
  · obtain ⟨k, n, at_k, rfl, -⟩ := carrying.mem_kept wf live
    have among := List.mem_of_getElem? at_k
    refine ⟨n, k, n, (carrying.of_kept wf among).1, ?_, rfl, .inl ⟨live, rfl⟩⟩
    rw [List.getElem?_append_left (List.getElem?_eq_some_iff.1 at_k).1, at_k]
  · have input := isKept.resolve_left live
    obtain ⟨o', -, found⟩ := forall₂_of_mem carrying.inputs input
    obtain ⟨k, c, at_k, rfl, -⟩ := carrying.carries.find?_eq_some found
    rw [carrying.carried_eq wf] at at_k
    rcases List.mem_append.1 (List.mem_of_getElem? at_k) with mem | mem
    · exact absurd (carrying.of_kept wf mem).2 live
    · obtain ⟨n, among, rfl⟩ := List.mem_map.1 mem
      exact ⟨n, k, unnoted n, (carrying.own n among).1, at_k, rfl, .inr ⟨live, rfl⟩⟩

/-- The nodes that are kept stand in the compaction, each once, and no others do. -/
theorem bijOn_position : Set.BijOn r.position {id | g.Kept id} (Set.Iio g'.size) := by
  refine ⟨fun id isKept => ?_, fun id isKept id' isKept' same => ?_, fun k lt => ?_⟩
  · obtain ⟨n, k, c, -, at_k, rfl, -⟩ := carrying.carried_of_kept wf isKept
    obtain ⟨m, here, -⟩ := carrying.here at_k
    rw [carrying.position_of_carried wf at_k]
    exact (List.getElem?_eq_some_iff.1 here).1
  · obtain ⟨-, k, c, -, at_k, rfl, -⟩ := carrying.carried_of_kept wf isKept
    obtain ⟨-, k', c', -, at_k', rfl, -⟩ := carrying.carried_of_kept wf isKept'
    rw [carrying.position_of_carried wf at_k, carrying.position_of_carried wf at_k'] at same
    subst same
    cases at_k.symm.trans at_k'
    rfl
  · obtain ⟨c, at_k, -⟩ := carrying.copies (List.getElem?_eq_getElem lt)
    exact ⟨c.id, (carrying.kept_of_carried wf at_k).1, carrying.position_of_carried wf at_k⟩

/-- What the compaction says of a node that is kept. -/
theorem keeps_node (isKept : g.Kept id) : ∃ n m, g.nodes[id]? = some n ∧
    g'.nodes[r.position id]? = some m ∧ n.MovesTo r.position m ∧
    (g.Live id → m.provenance = n.provenance) ∧ (¬ g.Live id → m.provenance = .empty) := by
  obtain ⟨n, k, c, there, at_k, rfl, told⟩ := carrying.carried_of_kept wf isKept
  obtain ⟨m, here, copies, notes⟩ := carrying.here at_k
  have moves := carrying.movesTo wf copies
  rw [← carrying.position_of_carried wf at_k] at here
  refine ⟨n, m, there, here, ?_⟩
  rcases told with ⟨live, rfl⟩ | ⟨notLive, rfl⟩
  · exact ⟨moves, fun _ => notes, fun notLive => absurd live notLive⟩
  · exact ⟨⟨moves.name, moves.op, moves.facts, moves.inputs⟩,
      fun live => absurd live notLive, fun _ => notes⟩

end Carrying

/-- A graph that was built can be compacted. Its nodes that the outputs depend on, and its inputs,
move each to a position of its own with all that is known of it, except that an input that no
output depends on loses its notes. -/
theorem Built.compact_keeps (built : g.Built) (log : Log) :
    ∃ (g' : Graph) (log' : Log) (place : Nat → Nat), compact ⟨g, log⟩ = .ok ⟨⟩ ⟨g', log'⟩ ∧
      Set.BijOn place {id | g.Kept id} (Set.Iio g'.size) ∧
      (∀ id, g.Kept id → ∃ n m, g.nodes[id]? = some n ∧ g'.nodes[place id]? = some m ∧
        n.MovesTo place m ∧ (g.Live id → m.provenance = n.provenance) ∧
        (¬ g.Live id → m.provenance = .empty)) ∧
      g'.inputs = g.inputs.map (Outlet.movedBy place) ∧
      g'.outputs = g.outputs.map (Outlet.movedBy place) := by
  have wf := built.wellFormed
  obtain ⟨g', log', compacted⟩ := wf.compacted_ok built.acyclic log
  obtain ⟨order, kept, unused, r, carrying⟩ := compacted_eq_ok wf.referenced compacted
  exact ⟨g', log', r.position, RuleSet.compact_eq_ok.2 compacted, carrying.bijOn_position wf,
    fun _ => carrying.keeps_node wf, carrying.map_moved wf carrying.inputs,
    carrying.map_moved wf carrying.outputs⟩

/-- Two inputs with notes, of which the graph answers with the first. -/
def notedInputs : Edit Graph Unit := do
  let data ← addSource "x" (.typed .f32 (.ofLengths [1]))
  let unused ← addSource "unused" (.typed .i64 (.ofLengths []))
  updateNode data.node fun n => { n with provenance := Provenance.empty.insert "origin" "graph" }
  updateNode unused.node fun n =>
    { n with provenance := Provenance.empty.insert "origin" "graph" }
  setOutputs [data]

theorem built_notedInputs (run : notedInputs .empty = .ok ⟨⟩ g) : g.Built := by
  simp only [notedInputs, Edit.bind_eq_ok] at run
  obtain ⟨data, g₁, addData, unused, g₂, addUnused, _, g₃, noteData, _, g₄, noteUnused, answer⟩ :=
    run
  refine .answer (.note (.note (.source (.source .empty addData) addUnused) noteData) noteUnused)
    ?_ answer
  intro o mem
  cases List.mem_singleton.1 mem
  cases addData
  cases addUnused
  cases noteData
  cases noteUnused
  rfl

/-- The second input has lost its notes. -/
theorem Built.compact_keeps_notedInputs :
    ∃ g, notedInputs .empty = .ok ⟨⟩ g ∧ g.Built ∧
      g.nodes[1]?.map Node.provenance = some (Provenance.empty.insert "origin" "graph") ∧
      ∃ g' log' k, compact ⟨g, []⟩ = .ok ⟨⟩ ⟨g', log'⟩ ∧ g'.inputs[1]? = some ⟨k, 0⟩ ∧
        g'.nodes[k]?.map Node.provenance = some .empty := by
  obtain ⟨g, made, inputs, outputs, reads, notes⟩ : ∃ g, notedInputs .empty = .ok ⟨⟩ g ∧
      g.inputs = [⟨0, 0⟩, ⟨1, 0⟩] ∧ g.outputs = [⟨0, 0⟩] ∧ g.nodes.map Node.inputs = [[], []] ∧
      g.nodes[1]?.map Node.provenance = some (Provenance.empty.insert "origin" "graph") :=
    ⟨_, rfl, rfl, rfl, rfl, rfl⟩
  have built := built_notedInputs made
  obtain ⟨g', log', place, run, -, keeps, inputs', -⟩ := built.compact_keeps []
  obtain ⟨n, m, there, here, -, -, dropped⟩ := keeps 1 (.inr (by simp [inputs]))
  have notLive : ¬ g.Live 1 := by
    intro live
    rcases live.wanted with ⟨o, answer, node⟩ | ⟨_, n, o, there, read, -⟩
    · simp_all
    · have nothing : n.inputs ∈ [[], []] :=
        reads ▸ List.mem_map_of_mem (List.mem_of_getElem? there)
      simp_all
  refine ⟨g, made, built, notes, g', log', place 1, run, ?_, ?_⟩
  · rw [inputs', inputs]
    rfl
  · rw [here, Option.map_some, dropped notLive]

end Graph

end EvenPad
