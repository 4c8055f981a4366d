import EvenPad.Proofs.Graph.Draws
import EvenPad.Proofs.Graph.Twins
import Mathlib

/-!
The form that compaction brings a graph into: nodes carry their positions and come after what they
read, lists of readers are exact, and no node is there for nothing. Main statement:
`Referenced.compact_normal`, compaction brings a graph into this form, and a second compaction
changes nothing any more. A graph and its compaction are twins, so what the second run makes of
the compaction is what the first made of the graph.
-/

namespace EvenPad.Graph

variable {g g' : Graph} {order : List Nat} {kept unused : List Node} {r : Renumbering} {m : Node}
  {o o' : Outlet} {id k : Nat}

/-- Nodes come after what they read, each inlet is listed once by the outlet that it reads and by
no other, and every node is an input of the graph or one that an output depends on. -/
structure Normal (g : Graph) : Prop where
  ids : ∀ {k : Nat} {n : Node}, g.nodes[k]? = some n → n.id = k
  earlier : ∀ {k : Nat} {n : Node} {o : Outlet}, g.nodes[k]? = some n → o ∈ n.inputs → o.node < k
  listed : ∀ o i, (g.readers o).count i = if g.source? i = some o then 1 else 0
  needed : ∀ {k : Nat}, k < g.size → ⟨k, 0⟩ ∈ g.inputs ∨ g.Demanded k

namespace Carrying

variable (carrying : g.Carrying order kept unused r g')
include carrying

/-- What stands for an outlet is there. -/
theorem there (found : r.wires.find? o = some o') : (g'.output? o').isSome := by
  rw [carrying.output?_eq]
  exact isSome_output?_iff_fact?.2 (carrying.carries.there found)

theorem alike (found : r.wires.find? o = some o') : o.Alike r.Places o' := by
  obtain ⟨j, c, -, -, -, rfl⟩ := carrying.carries.find?_eq_some found
  exact ⟨carrying.places found, rfl⟩

variable (referenced : g.Referenced)
include referenced

theorem position_eq (at_k : order[k]? = some id) {j : Nat} (places : r.Places id j) : j = k := by
  obtain ⟨n, there, at_k⟩ := carrying.carried_of_placed at_k
  obtain ⟨c, at_j, node⟩ := carrying.node_of_places places
  exact carrying.carries.position_eq at_j at_k (by rw [node, id_cut, referenced.ids there])

/-- What is carried is a node of the evaluation order, or else an input that is not in it. -/
theorem carried_cases {c : Node} (at_k : (kept.map g.cut ++ unused.map stub)[k]? = some c) :
    (∃ n, order[k]? = some n.id ∧ g.nodes[n.id]? = some n ∧ c = g.cut n) ∨
    (∃ n, order.length ≤ k ∧ g.nodes[n.id]? = some n ∧ ⟨n.id, 0⟩ ∈ g.inputs ∧ c = stub n) := by
  rcases Nat.lt_or_ge k (kept.map g.cut).length with lt | ge
  · rw [List.getElem?_append_left lt, List.getElem?_map, Option.map_eq_some_iff] at at_k
    obtain ⟨n, among, rfl⟩ := at_k
    obtain ⟨id, at_k, there⟩ := forall₂_getElem? carrying.keeps.flip among
    obtain rfl := referenced.ids there
    exact .inl ⟨n, at_k, there, rfl⟩
  · rw [List.getElem?_append_right ge] at at_k
    obtain ⟨n, mem, rfl⟩ := List.mem_map.1 (List.mem_of_getElem? at_k)
    obtain ⟨there, input⟩ := carrying.own n mem
    rw [List.length_map, ← carrying.keeps.length_eq] at ge
    exact .inr ⟨n, ge, there, input, rfl⟩

/-! ## The form of the compaction -/

/-- The evaluation order has what a node reads before the node, so the compaction has. -/
theorem earlier (here : g'.nodes[k]? = some m) (read : o' ∈ m.inputs) : o'.node < k := by
  obtain ⟨c, at_k, -, copies, -⟩ := carrying.copies here
  obtain ⟨o, read, found⟩ := forall₂_of_mem copies.inputs.flip read
  rcases carrying.carried_cases referenced at_k with ⟨n, placed, there, rfl⟩ | ⟨n, -, -, -, rfl⟩
  · have inner : ⟨n.id, 0⟩ ∉ g.inputs := by
      intro input
      simp [inputs_cut_of_mem input] at read
    rw [cut_of_not_mem inner] at read
    obtain ⟨sorted, -, -⟩ := evalOrder_eq_ok carrying.ordered
    obtain ⟨n', there', before⟩ := (sorted.before placed).resolve_left fun listed =>
      inner (referenced.mem_inputs_of_listed listed)
    cases there.symm.trans there'
    obtain ⟨j, lt, at_j⟩ := List.mem_take_iff_getElem.1 (before o read)
    have at_j := List.getElem?_eq_some_iff.2 ⟨_, at_j⟩
    rw [carrying.position_eq referenced at_j (carrying.places found)]
    omega
  · simp [stub] at read

/-- A node that the outputs of the compaction depend on is carried over from the evaluation
order. -/
theorem lt_of_live (live : g'.Live k) : k < order.length := by
  induction live with
  | @answer o' mem =>
    obtain ⟨o, answer, found⟩ := forall₂_of_mem carrying.outputs.flip mem
    obtain ⟨-, -, answers⟩ := evalOrder_eq_ok carrying.ordered
    obtain ⟨j, at_j⟩ := List.mem_iff_getElem?.1 (answers o answer)
    rw [carrying.position_eq referenced at_j (carrying.places found)]
    exact (List.getElem?_eq_some_iff.1 at_j).1
  | read _ here read ih => exact Nat.lt_trans (carrying.earlier referenced here read) ih

/-- The outputs of the compaction depend on what is carried over from the evaluation order. -/
theorem demanded (placed : order[k]? = some id) : g'.Demanded k := by
  obtain ⟨o, answer, path⟩ :=
    (referenced.mem_evalOrder carrying.ordered).1 (List.mem_of_getElem? placed)
  obtain ⟨o', answer', found⟩ := forall₂_of_mem carrying.outputs answer
  obtain ⟨j, places, path'⟩ := carrying.path_copy referenced answer found path
  rw [carrying.position_eq referenced placed places] at path'
  exact ⟨o', answer', path'⟩

/-- No node of the compaction is there for nothing. -/
theorem needed (lt : k < g'.size) : ⟨k, 0⟩ ∈ g'.inputs ∨ g'.Demanded k := by
  obtain ⟨c, at_k, -⟩ := carrying.copies (List.getElem?_eq_getElem lt)
  rcases carrying.carried_cases referenced at_k with ⟨n, placed, -, rfl⟩ | ⟨n, -, -, input, rfl⟩
  · exact .inr (carrying.demanded referenced placed)
  · obtain ⟨o', input', found⟩ := forall₂_of_mem carrying.inputs input
    obtain ⟨j, c, at_j, node, -, rfl⟩ := carrying.carries.find?_eq_some found
    rw [carrying.carries.position_eq at_j at_k node.symm] at input'
    exact .inl input'

theorem normal : g'.Normal where
  ids here := by
    obtain ⟨-, -, id, -⟩ := carrying.copies here
    exact id
  earlier := carrying.earlier referenced
  listed := carrying.linked.listed
  needed := carrying.needed referenced

/-! ## A second compaction -/

theorem referenced_compaction : g'.Referenced where
  ids := (carrying.normal referenced).ids
  reads here read := by
    obtain ⟨c, -, -, copies, -⟩ := carrying.copies here
    obtain ⟨o, -, found⟩ := forall₂_of_mem copies.inputs.flip read
    exact carrying.there found
  answers mem := by
    obtain ⟨o, -, found⟩ := forall₂_of_mem carrying.outputs.flip mem
    exact carrying.there found
  sources mem := by
    obtain ⟨o, input, found⟩ := forall₂_of_mem carrying.inputs.flip mem
    obtain ⟨j, c, -, -, -, rfl⟩ := carrying.carries.find?_eq_some found
    exact ⟨(referenced.sources input).1, carrying.there found⟩

/-- A graph and its compaction are the same up to the positions of their nodes. -/
theorem twins : Twins r.Places g g' where
  unique := ⟨fun _ _ _ => carrying.places_injective, fun _ _ _ => carrying.places_unique⟩
  alike := by
    intro i k places
    obtain ⟨c, at_k, rfl⟩ := carrying.node_of_places places
    obtain ⟨m, here, copies, notes⟩ := carrying.here at_k
    rcases carrying.carried_cases referenced at_k with
      ⟨n, -, there, rfl⟩ | ⟨n, past, there, input, rfl⟩
    · rw [id_cut]
      have facts : n.facts = m.facts := by rw [copies.facts, facts_cut]
      refine ⟨n, m, there, here, ?_, ?_, by rw [facts], fun _ _ => ⟨facts, ?_⟩, fun inner => ?_⟩
      · rw [copies.name, name_cut]
      · rw [copies.op, op_cut]
      · rw [notes, provenance_cut]
      · rw [cut_of_not_mem inner] at copies
        exact copies.inputs.imp fun _ _ found => carrying.alike found
    · refine ⟨n, m, there, here, copies.name.symm, copies.op.symm, ?_,
        fun _ live => ?_, fun inner => ?_⟩
      · rw [copies.facts, facts_stub, List.take_take, Nat.min_self]
      · exact absurd (carrying.lt_of_live referenced live) (Nat.not_lt.2 past)
      · exact absurd input inner
  inputs := carrying.inputs.imp fun _ _ found => carrying.alike found
  outputs := carrying.outputs.imp fun _ _ found => carrying.alike found

end Carrying

theorem Normal.acyclic (normal : g.Normal) : g.Acyclic :=
  ⟨fun k => k, fun _ _ _ here read => normal.earlier here read⟩

/-- A graph whose nodes carry their positions, whose edges, inputs and outputs are there and in
which no node that the outputs depend on depends on itself can be compacted. The compaction is in
normal form, and another one gives the same graph again. -/
theorem Referenced.compact_normal (referenced : g.Referenced)
    (loopFree : g.LoopFree) (log : Log) :
    ∃ g' log', compact ⟨g, log⟩ = .ok ⟨⟩ ⟨g', log'⟩ ∧ g'.Normal ∧
      ∀ log, ∃ log', compact ⟨g', log⟩ = .ok ⟨⟩ ⟨g', log'⟩ := by
  obtain ⟨g', log', compacted⟩ := referenced.compacted_ok loopFree log
  obtain ⟨order, kept, unused, r, carrying⟩ := compacted_eq_ok referenced compacted
  have normal := carrying.normal referenced
  have referenced' := carrying.referenced_compaction referenced
  refine ⟨g', log', RuleSet.compact_eq_ok.2 compacted, normal, fun log => ?_⟩
  obtain ⟨g'', log'', again⟩ := referenced'.compacted_ok normal.acyclic.loopFree log
  obtain rfl := (carrying.twins referenced).compacted_eq referenced referenced' compacted again
  exact ⟨log'', RuleSet.compact_eq_ok.2 again⟩

/-- What is left of `tangled`: the nodes in evaluation order and the unused input, without the
loop. -/
def untangled : Graph :=
  let fact : Fact := .typed .f32 (.ofLengths [3])
  { nodes :=
      [⟨0, "data", .source fact, [], [⟨fact, [⟨1, 0⟩]⟩], .empty⟩,
        ⟨1, "parts", .pad, [⟨0, 0⟩], [⟨fact, [⟨2, 1⟩]⟩, ⟨fact, [⟨2, 0⟩, ⟨2, 2⟩]⟩], .empty⟩,
        ⟨2, "whole", .pad, [⟨1, 1⟩, ⟨1, 0⟩, ⟨1, 1⟩], [⟨fact, []⟩], .empty⟩,
        ⟨3, "unused", .source fact, [], [⟨fact, []⟩], .empty⟩]
    inputs := [⟨0, 0⟩, ⟨3, 0⟩]
    outputs := [⟨2, 0⟩, ⟨1, 1⟩, ⟨2, 0⟩] }

theorem Referenced.compact_normal_tangled :
    tangled.Referenced ∧ tangled.LoopFree ∧
      (∃ log', compact ⟨tangled, []⟩ = .ok ⟨⟩ ⟨untangled, log'⟩) ∧ untangled.Normal ∧
      ∀ log, ∃ log', compact ⟨untangled, log⟩ = .ok ⟨⟩ ⟨untangled, log'⟩ := by
  have run : compact ⟨tangled, []⟩ = .ok ⟨⟩ ⟨untangled, [.keepingUnused tangled.nodes[1]]⟩ := by
    cbv
  obtain ⟨g', log', run', normal, again⟩ := referenced_tangled.compact_normal loopFree_tangled []
  obtain rfl : untangled = g' := by
    rw [run] at run'
    injection run' with _ same
    exact congrArg LoggedGraph.graph same
  exact ⟨referenced_tangled, loopFree_tangled, ⟨_, run⟩, normal, again⟩

end EvenPad.Graph
