import EvenPad.Proofs.Patch.Apply
import EvenPad.Proofs.Patch.Draft

/-!
One rewriting step. A graph is `Rewritten` when nodes came in after its last and one of them has
taken over the output of a node, with the same fact, under the same name and with the same notes.
Main statements: such a step keeps a graph well-formed and every node of it as it was, apart from
where it reads what was taken over (`Rewritten.wellFormed`, `Rewritten.kept`), and applying the
patch that a draft describes is such a step (`Draft.Describes.rewritten`).
-/

namespace EvenPad

/-- What is known of a node apart from its place: its name and operator, the facts that it reads
and the fact that it has. -/
structure Signature where
  name : String
  op : Op
  operands : List Fact
  fact : Fact

/-- The node is what a node of another graph was, apart from what it reads and who reads it. -/
structure Node.Keeps (n n' : Node) : Prop where
  id : n'.id = n.id
  name : n'.name = n.name
  op : n'.op = n.op
  facts : n'.facts = n.facts
  provenance : n'.provenance = n.provenance

/-- A node that differs in what it reads and who reads it only. -/
theorem Node.keeps_of_bare_eq {n n' : Node} {inputs : List Outlet}
    (same : n'.bare = { n.bare with inputs := inputs }) : n.Keeps n' ∧ n'.inputs = inputs := by
  have facts : n'.bare.facts = n.bare.facts := by
    rw [same]
    rfl
  have id : n'.bare.id = n.id := by
    rw [same]
    rfl
  have name : n'.bare.name = n.name := by
    rw [same]
    rfl
  have op : n'.bare.op = n.op := by
    rw [same]
    rfl
  have provenance : n'.bare.provenance = n.provenance := by
    rw [same]
    rfl
  exact ⟨⟨id, name, op, by simpa using facts, provenance⟩, congrArg Node.inputs same⟩

/-- There is an input for the output shape. -/
def Op.takesOutputShape : Op → Bool
  | .deconv _ _ takesOutputShape | .fusedDeconv _ takesOutputShape _ => takesOutputShape
  | _ => false

/-- The outlets that the node reads, apart from what it is told of its output shape. -/
def Node.needs (n : Node) : List Outlet :=
  if n.op.takesOutputShape then n.inputs.eraseIdx 2 else n.inputs

theorem Node.mem_inputs_of_mem_needs {n : Node} {o : Outlet} (mem : o ∈ n.needs) :
    o ∈ n.inputs := by
  unfold Node.needs at mem
  split at mem
  · exact List.mem_of_mem_eraseIdx mem
  · exact mem

namespace Graph

variable {g g' : Graph} {n m node : Node} {o o' : Outlet} {fact : Fact} {σ τ : Signature}
  {nodes : List Node} {id j k : Nat}

/-- The node has a signature in a graph. -/
structure Signed (g : Graph) (n : Node) (σ : Signature) : Prop where
  name : n.name = σ.name
  op : n.op = σ.op
  operands : List.Forall₂ (fun o f => g.fact? o = some f) n.inputs σ.operands
  facts : n.facts = [σ.fact]

/-- The facts of what is read, in a list that can be computed. -/
theorem Signed.of_map (name : n.name = σ.name) (op : n.op = σ.op)
    (known : n.inputs.map g.fact? = σ.operands.map some) (facts : n.facts = [σ.fact]) :
    g.Signed n σ := by
  rw [← List.forall₂_eq_eq_eq, List.forall₂_map_left_iff, List.forall₂_map_right_iff] at known
  exact ⟨name, op, known, facts⟩

theorem Signed.unique (signed : g.Signed n σ) (signed' : g.Signed n τ) : σ = τ := by
  rcases σ with ⟨_, _, _, _⟩
  rcases τ with ⟨_, _, _, _⟩
  have facts := signed.facts.symm.trans signed'.facts
  simp only [List.cons.injEq, and_true] at facts
  rw [Signature.mk.injEq]
  exact ⟨signed.name.symm.trans signed'.name, signed.op.symm.trans signed'.op,
    facts_unique signed.operands signed'.operands, facts⟩

theorem Infers.signed (infers : g.Infers n) :
    ∃ σ, g.Signed n σ ∧ σ.op.outputFact σ.operands = .ok σ.fact := by
  rcases infers with ⟨operands, fact, known, inferred, facts⟩
  exact ⟨⟨n.name, n.op, operands, fact⟩, ⟨rfl, rfl, known, facts⟩, inferred⟩

/-- A node of a well-formed graph has a signature, and its operator infers the fact. -/
theorem Typed.signed (typed : g.Typed) (there : g.nodes[id]? = some n) :
    ∃ σ, g.Signed n σ ∧ σ.op.outputFact σ.operands = .ok σ.fact :=
  (typed.infers there).signed

/-- Nodes came in after the last of a graph, and the one in place `k` of them is read wherever the
output of a node was. -/
structure Grown (g : Graph) (node : Node) (nodes : List Node) (k : Nat) (g' : Graph) : Prop where
  bare : g'.bare =
    ⟨g.bare.nodes.map (Node.redirect ⟨node.id, 0⟩ ⟨g.size + k, 0⟩) ++ nodes, g.inputs,
      g.outputs.map (Outlet.redirect ⟨node.id, 0⟩ ⟨g.size + k, 0⟩)⟩

/-- A graph that grew as a rule has it grow: what has taken over an output has its fact, under the
same name and with the same notes. Apart from those before them, the nodes that came in read what
the node needed whose output was taken over, and what has taken over depends on all of that. -/
structure Rewritten (g : Graph) (node : Node) (nodes : List Node) (k : Nat) (g' : Graph) : Prop
    extends Grown g node nodes k g' where
  there : g.nodes[node.id]? = some node
  linked : g'.Linked
  ids : ∀ {j : Nat} {n : Node}, nodes[j]? = some n → n.id = g.size + j
  inner : ∀ {n}, n ∈ nodes → n.op.isSource = false
  infers : ∀ {n}, n ∈ nodes → g'.Infers n
  reads : ∀ {j : Nat} {n : Node} {o : Outlet}, nodes[j]? = some n → o ∈ n.inputs →
    (g.size ≤ o.node ∧ o.node < g.size + j) ∨ o ∈ node.needs
  taker : ∃ m, nodes[k]? = some m ∧ m.name = node.name ∧ m.provenance = node.provenance ∧
    m.facts = node.facts
  covers : ∀ {S : Nat → Prop}, (∀ {j : Nat} {n : Node} {o : Outlet}, nodes[j]? = some n →
    S (g.size + j) → o ∈ n.inputs → S o.node) → S (g.size + k) → ∀ o ∈ node.needs, S o.node

namespace Grown

variable (grown : g.Grown node nodes k g')
include grown

theorem inputs_eq : g'.inputs = g.inputs := by
  have same : g'.bare.inputs = g.inputs := by rw [grown.bare]
  exact same

theorem outputs_eq :
    g'.outputs = g.outputs.map (Outlet.redirect ⟨node.id, 0⟩ ⟨g.size + k, 0⟩) := by
  have same : g'.bare.outputs = g.outputs.map (Outlet.redirect ⟨node.id, 0⟩ ⟨g.size + k, 0⟩) := by
    rw [grown.bare]
  exact same

/-- A node that was there is there, and reads what has taken over. -/
theorem kept (old : g.nodes[id]? = some n) :
    ∃ n', g'.nodes[id]? = some n' ∧ n.Keeps n' ∧
      n'.inputs = n.inputs.map (Outlet.redirect ⟨node.id, 0⟩ ⟨g.size + k, 0⟩) := by
  have bare : g'.bare.nodes[id]? =
      some (n.bare.redirect ⟨node.id, 0⟩ ⟨g.size + k, 0⟩) := by
    rw [grown.bare]
    rw [List.getElem?_append_left, List.getElem?_map, bare_getElem?, old]
    · rfl
    · simpa [Graph.bare] using (List.getElem?_eq_some_iff.1 old).1
  rw [bare_getElem?, Option.map_eq_some_iff] at bare
  rcases bare with ⟨n', there, same⟩
  exact ⟨n', there, Node.keeps_of_bare_eq same⟩

/-- The nodes that came in. -/
theorem came (new : nodes[j]? = some n) :
    ∃ n', g'.nodes[g.size + j]? = some n' ∧ n'.bare = n := by
  have bare : g'.bare.nodes[g.size + j]? = some n := by
    rw [grown.bare]
    rw [List.getElem?_append_right (by simp [Graph.bare, Graph.size])]
    simpa [Graph.bare, Graph.size] using new
  rwa [bare_getElem?, Option.map_eq_some_iff] at bare

/-- A node was there or came in. -/
theorem kept_or_came (there : g'.nodes[id]? = some n) :
    (∃ m, g.nodes[id]? = some m ∧ m.Keeps n ∧
      n.inputs = m.inputs.map (Outlet.redirect ⟨node.id, 0⟩ ⟨g.size + k, 0⟩)) ∨
    ∃ j, id = g.size + j ∧ nodes[j]? = some n.bare := by
  rcases Nat.lt_or_ge id g.size with lt | ge
  · left
    rcases grown.kept (List.getElem?_eq_getElem lt) with ⟨n', there', keeps, inputs⟩
    cases there.symm.trans there'
    exact ⟨_, List.getElem?_eq_getElem lt, keeps, inputs⟩
  · right
    have bare : g'.bare.nodes[id]? = some n.bare := by rw [bare_getElem?, there, Option.map_some]
    rw [grown.bare] at bare
    rw [List.getElem?_append_right (by simpa [Graph.bare, Graph.size] using ge)] at bare
    refine ⟨id - g.size, by omega, ?_⟩
    simpa [Graph.bare, Graph.size] using bare

/-- What is at the position of a node that was there is what the node has become. -/
theorem keeps {n' : Node} (old : g.nodes[id]? = some n) (there : g'.nodes[id]? = some n') :
    n.Keeps n' ∧ n'.inputs = n.inputs.map (Outlet.redirect ⟨node.id, 0⟩ ⟨g.size + k, 0⟩) := by
  rcases grown.kept old with ⟨n'', there', keeps⟩
  cases there.symm.trans there'
  exact keeps

/-- What is at a later position came in. -/
theorem mem_nodes (there : g'.nodes[g.size + j]? = some n) : n.bare ∈ nodes := by
  rcases grown.kept_or_came there with ⟨m, before, -⟩ | ⟨i, -, new⟩
  · have lt := (List.getElem?_eq_some_iff.1 before).1
    exact absurd lt (Nat.not_lt.2 (Nat.le_add_right _ _))
  · exact List.mem_of_getElem? new

theorem fact?_kept (known : g.fact? o = some fact) : g'.fact? o = some fact := by
  rw [fact?_eq_some] at known ⊢
  rcases known with ⟨n, there, produced⟩
  rcases grown.kept there with ⟨n', there', keeps, -⟩
  exact ⟨n', there', by rw [keeps.facts, produced]⟩

theorem fact?_came {s : Nat} (new : nodes[j]? = some n) (produced : n.facts[s]? = some fact) :
    g'.fact? ⟨g.size + j, s⟩ = some fact := by
  rcases grown.came new with ⟨n', there, rfl⟩
  rw [Node.facts_bare] at produced
  exact fact?_eq_some.2 ⟨n', there, produced⟩

end Grown

namespace Rewritten

variable (rewritten : g.Rewritten node nodes k g')
include rewritten

/-- What has taken over an outlet has its fact. -/
theorem fact?_redirect (known : g.fact? o = some fact) :
    g'.fact? (Outlet.redirect ⟨node.id, 0⟩ ⟨g.size + k, 0⟩ o) = some fact := by
  unfold Outlet.redirect
  split
  · next taken =>
    subst taken
    rcases fact?_eq_some.1 known with ⟨n, there, produced⟩
    cases rewritten.there.symm.trans there
    rcases rewritten.taker with ⟨m, new, -, -, facts⟩
    exact rewritten.fact?_came new (by rw [facts, produced])
  · exact rewritten.fact?_kept known

/-- A node keeps its signature: what has taken over an outlet that it read has the same fact. -/
theorem signed (signed : g.Signed n σ) (keeps : n.Keeps m)
    (inputs : m.inputs = n.inputs.map (Outlet.redirect ⟨node.id, 0⟩ ⟨g.size + k, 0⟩)) :
    g'.Signed m σ where
  name := keeps.name.trans signed.name
  op := keeps.op.trans signed.op
  operands := by
    rw [inputs, List.forall₂_map_left_iff]
    exact signed.operands.imp fun _ _ => rewritten.fact?_redirect
  facts := keeps.facts.trans signed.facts

/-- A rewriting step keeps a graph well-formed. -/
theorem wellFormed (wf : g.WellFormed) : g'.WellFormed where
  id_eq := by
    intro id n there
    rcases rewritten.kept_or_came there with ⟨m, before, keeps, -⟩ | ⟨j, rfl, new⟩
    · rw [keeps.id, wf.id_eq before]
    · have new_id : n.bare.id = g.size + j := rewritten.ids new
      exact new_id
  infers := by
    intro id n there
    rcases rewritten.kept_or_came there with ⟨m, before, keeps, inputs⟩ | ⟨j, rfl, new⟩
    · rcases wf.signed before with ⟨σ, signed, inferred⟩
      have signed := rewritten.signed signed keeps inputs
      exact ⟨σ.operands, σ.fact, signed.operands, by rw [signed.op, inferred], signed.facts⟩
    · have infers := rewritten.infers (List.mem_of_getElem? new)
      simp only [Infers, Node.facts_bare] at infers ⊢
      exact infers
  sources := by
    intro o mem
    rw [rewritten.inputs_eq] at mem
    rcases wf.sources mem with ⟨slot, n, fact, there, op⟩
    rcases rewritten.kept there with ⟨n', there', keeps, -⟩
    exact ⟨slot, n', fact, there', keeps.op.trans op⟩
  answers := by
    intro o mem
    rw [rewritten.outputs_eq, List.mem_map] at mem
    rcases mem with ⟨o, mem, rfl⟩
    rcases isSome_output?_iff_fact?.1 (wf.answers mem) with ⟨fact, known⟩
    exact isSome_output?_iff_fact?.2 ⟨fact, rewritten.fact?_redirect known⟩
  linked := rewritten.linked

end Rewritten

end Graph

/-! ## Drafts -/

namespace Draft

variable {d : Draft} {g g' : Graph} {p : Patch} {n node m : Node} {o o' : Outlet} {fact : Fact}
  {touched : List Nat} {size k s : Nat}

/-- Where the outlets of a patch are in a target of a size. -/
def wires (d : Draft) (size : Nat) : Wires :=
  Wires.addNodes (d.tapped.zipIdx.map fun ((o, _), k) => (⟨k, 0⟩, o)).reverse d.nodes size

/-- The nodes that come after the taps, as they come into a target of a size. -/
def placed (d : Draft) (size : Nat) : List Node :=
  (d.nodes.zipIdx size).map fun (n, id) => n.placed (d.wires size) id

theorem placed_getElem? :
    (d.placed size)[k]? = d.nodes[k]?.map fun n => n.placed (d.wires size) (size + k) := by
  simp [placed, List.getElem?_zipIdx, Function.comp_def]

theorem mem_placed (mem : m ∈ d.placed size) :
    ∃ n id, n ∈ d.nodes ∧ m = n.placed (d.wires size) id := by
  rcases List.mem_map.1 mem with ⟨⟨n, id⟩, before, rfl⟩
  have before : n ∈ d.nodes := by simpa using List.fst_mem_of_mem_zipIdx before
  exact ⟨n, id, before, rfl⟩

/-- A node of the draft reads what an outlet is tapped for, itself or through a node that it
reads. -/
inductive Reaches (d : Draft) : Nat → Outlet → Prop
  | tap {k t : Nat} {n : Node} {o : Outlet} {fact : Fact} :
    d.nodes[k]? = some n → ⟨t, 0⟩ ∈ n.inputs → d.tapped[t]? = some (o, fact) → Reaches d k o
  | through {k j : Nat} {n : Node} {o : Outlet} :
    d.nodes[k]? = some n → d.wire j ∈ n.inputs → Reaches d j o → Reaches d k o

namespace Describes

variable (described : d.Describes g p)
include described

/-- The nodes of the patch's own, apart from who reads them. -/
theorem fresh_bare : p.fresh.map Node.bare = d.nodes := by
  have keep : p.fresh.map Node.bare = p.graph.bare.nodes.filter fun n => !n.op.isSource := by
    rw [Patch.fresh, Graph.bare_nodes, List.filter_map]
    rfl
  have taps : d.taps.filter (fun n => !n.op.isSource) = [] := by
    rw [List.filter_eq_nil_iff]
    intro n mem
    rcases List.mem_map.1 mem with ⟨⟨⟨o, fact⟩, k⟩, -, rfl⟩
    simp [tapNode, Node.fresh, Op.isSource]
  have nodes : d.nodes.filter (fun n => !n.op.isSource) = d.nodes := by
    rw [List.filter_eq_self]
    intro n mem
    simp [described.inner mem]
  rw [keep, described.nodes, List.filter_append, taps, nodes, List.nil_append]

theorem wires_eq : p.wires size = d.wires size := by
  rw [Patch.wires, wires, ← Wires.addNodes_bare, described.fresh_bare, described.incoming]

theorem nodup_ids : (d.nodes.map Node.id).Nodup := by
  have range : d.nodes.map Node.id = List.range' d.tapped.length d.nodes.length := by
    apply List.ext_getElem?
    intro k
    rw [List.getElem?_map]
    rcases Nat.lt_or_ge k d.nodes.length with lt | ge
    · have node := List.getElem?_eq_getElem lt
      rw [node, Option.map_some, described.ids node, List.getElem?_range' lt, Nat.one_mul]
    · rw [List.getElem?_eq_none ge, Option.map_none, List.getElem?_eq_none (by simpa using ge)]
  rw [range]
  exact List.nodup_range'

theorem find?_wire (node : d.nodes[k]? = some n) (slot : s < n.outputs.length) :
    (d.wires size).find? ⟨d.tapped.length + k, s⟩ = some ⟨size + k, s⟩ := by
  rw [← described.ids node]
  exact Wires.find?_addNodes described.nodup_ids node slot

/-- Where the output of a node of the patch is. -/
theorem place_wire (node : d.nodes[k]? = some n) :
    (d.wires size).place (d.wire k) = ⟨size + k, 0⟩ := by
  rcases described.infers (List.mem_of_getElem? node) with ⟨_, _, -, -, single⟩
  refine Wires.place_of_find? (described.find?_wire node ?_)
  rw [← Node.length_facts, single]
  exact Nat.one_pos

/-- What stands for an outlet of the patch is an outlet of a node that came in, or what the outlet
taps. -/
theorem find?_wires_eq_some (found : (d.wires size).find? o = some o') :
    (∃ k n, d.nodes[k]? = some n ∧ o = ⟨d.tapped.length + k, o.slot⟩ ∧ o' = ⟨size + k, o.slot⟩) ∨
      ∃ k fact, d.tapped[k]? = some (o', fact) ∧ o = ⟨k, 0⟩ := by
  rcases Wires.find?_addNodes_eq_some found with ⟨k, n, node, same, -, rfl⟩ | found
  · left
    refine ⟨k, n, node, ?_, rfl⟩
    rw [← described.ids node, ← same]
  · right
    rcases List.lookup_eq_some_iff.1 found with ⟨_, _, split, -⟩
    have mem : (o, o') ∈ (d.tapped.zipIdx.map fun ((o, _), k) =>
        ((⟨k, 0⟩ : Outlet), o)).reverse := by
      rw [split]
      simp
    rw [List.mem_reverse, List.mem_map] at mem
    rcases mem with ⟨⟨⟨tapped, fact⟩, k⟩, mem, same⟩
    rcases Prod.mk.inj same with ⟨rfl, rfl⟩
    exact ⟨k, fact, List.mem_zipIdx_iff_getElem?.1 mem, rfl⟩

/-- The nodes of the patch come in, and one of its wires takes over the output of a node. -/
theorem grown (linked : g.Linked) (last : d.nodes[k]? = some m)
    (shunts : d.shunts = [(⟨node.id, 0⟩, d.wire k)]) (run : p.apply g = .ok touched g') :
    g'.Linked ∧ g.Grown node (d.placed g.size) k g' ∧
      ∀ n ∈ d.nodes, ∀ o ∈ n.inputs, ((d.wires g.size).find? o).isSome := by
  rcases Patch.apply_eq_ok linked.symmetric run with ⟨-, mapped, keeps, bare⟩
  rw [described.wires_eq] at mapped
  have place : (d.wires g.size).place (d.wire k) = ⟨g.size + k, 0⟩ := described.place_wire last
  refine ⟨keeps.linked linked, ⟨?_⟩, ?_⟩
  · have placed : (p.fresh.zipIdx g.size).map (fun (n, id) => n.placed (d.wires g.size) id) =
        d.placed g.size := by
      rw [Draft.placed, ← described.fresh_bare, List.zipIdx_map, List.map_map]
      simp [Function.comp_def]
    rw [bare, Patch.applied, described.wires_eq, described.shunts, shunts]
    simp only [Graph.shunted, List.foldl_cons, List.foldl_nil, place]
    have size : (g.redirect ⟨node.id, 0⟩ ⟨g.size + k, 0⟩).size = g.size := by
      simp [Graph.redirect, Graph.size]
    rw [Graph.land, size, placed]
    simp only [Graph.redirect, Graph.bare, List.map_append, List.map_map,
      Graph.mk.injEq, and_true]
    congr 1
    rw [← List.map_id (d.placed g.size), List.map_map]
    apply List.map_congr_left
    intro n mem
    rcases mem_placed mem with ⟨before, id, -, rfl⟩
    exact Node.bare_placed
  · intro n mem o read
    rw [← described.fresh_bare] at mem
    rcases List.mem_map.1 mem with ⟨fresh, came, rfl⟩
    exact mapped fresh came o read

/-- What stands for an outlet of the patch has its fact. -/
theorem fact?_of_find? (grown : g.Grown node (d.placed g.size) k g')
    (found : (d.wires g.size).find? o = some o') (known : p.graph.fact? o = some fact) :
    g'.fact? o' = some fact := by
  rcases described.find?_wires_eq_some found with
    ⟨j, n, there, here, rfl⟩ | ⟨j, tapped, there, rfl⟩
  · refine grown.fact?_came (n := n.placed (d.wires g.size) (g.size + j)) ?_ ?_
    · rw [placed_getElem?, there, Option.map_some]
    · rw [← Graph.fact?_bare, Graph.fact?_eq_some, described.nodes, here,
        List.getElem?_append_right (by simp), length_taps, Nat.add_sub_cancel_left] at known
      rcases known with ⟨n', there', produced⟩
      cases there.symm.trans there'
      rwa [Node.facts_placed]
  · cases known.symm.trans (described.fact?_tap there)
    exact grown.fact?_kept (described.known (List.mem_of_getElem? there))

/-- Where nodes that came in read, everything is found that their drafts reach. -/
theorem holds_of_reaches {S : Nat → Prop}
    (mapped : ∀ n ∈ d.nodes, ∀ o ∈ n.inputs, ((d.wires size).find? o).isSome)
    (closed : ∀ {j : Nat} {n : Node} {o : Outlet}, (d.placed size)[j]? = some n → S (size + j) →
      o ∈ n.inputs → S o.node)
    (reaches : d.Reaches k o) (here : S (size + k)) : S o.node := by
  have read {j : Nat} {n : Node} {o o' : Outlet} (there : d.nodes[j]? = some n)
      (here : S (size + j)) (read : o ∈ n.inputs)
      (found : (d.wires size).find? o = some o') : S o'.node := by
    have placed : (d.placed size)[j]? = some (n.placed (d.wires size) (size + j)) := by
      rw [placed_getElem?, there, Option.map_some]
    refine closed placed here ?_
    rw [← Wires.place_of_find? found]
    exact List.mem_map_of_mem read
  induction reaches with
  | @tap k t n o fact there reads tapped =>
    have lt := (List.getElem?_eq_some_iff.1 tapped).1
    obtain ⟨o', found⟩ :=
      Option.isSome_iff_exists.1 (mapped n (List.mem_of_getElem? there) _ reads)
    have holds := read there here reads found
    rcases described.find?_wires_eq_some found with ⟨i, _, -, same, -⟩ | ⟨i, _, tapped', same⟩
    · rw [Outlet.mk.injEq] at same
      omega
    · obtain rfl : t = i := congrArg Outlet.node same
      cases (Prod.mk.inj (Option.some.inj (tapped.symm.trans tapped'))).1
      exact holds
  | @through k j n o there reads _ ih =>
    obtain ⟨o', found⟩ :=
      Option.isSome_iff_exists.1 (mapped n (List.mem_of_getElem? there) _ reads)
    have holds := read there here reads found
    apply ih
    rcases described.find?_wires_eq_some found with ⟨i, _, -, same, rfl⟩ | ⟨i, _, tapped, same⟩
    · rw [Draft.wire, Outlet.mk.injEq] at same
      obtain rfl : j = i := by omega
      exact holds
    · have lt := (List.getElem?_eq_some_iff.1 tapped).1
      rw [Draft.wire, Outlet.mk.injEq] at same
      omega

/-- A node that came in has the signature that it has in the patch. -/
theorem signed_placed {σ : Signature} {id : Nat} (grown : g.Grown node (d.placed g.size) k g')
    (mapped : ∀ o ∈ n.inputs, ((d.wires g.size).find? o).isSome) (signed : p.graph.Signed n σ) :
    g'.Signed (n.placed (d.wires g.size) id) σ where
  name := signed.name
  op := signed.op
  operands := by
    change List.Forall₂ _ (n.inputs.map _) _
    rw [List.forall₂_map_left_iff]
    have operands := signed.operands
    generalize n.inputs = inputs at mapped operands
    generalize σ.operands = facts at operands
    induction operands with
    | nil => exact .nil
    | cons known _ ih =>
      rcases List.forall_mem_cons.1 mapped with ⟨first, rest⟩
      rcases Option.isSome_iff_exists.1 first with ⟨o', found⟩
      refine .cons ?_ (ih rest)
      rw [Wires.place_of_find? found]
      exact described.fact?_of_find? grown found known
  facts := by rw [Node.facts_placed, signed.facts]

/-- Applying a patch that puts a node in the place of another is a rewriting step: the nodes that
come in have the signatures that they have in the patch. -/
theorem rewritten (wf : g.WellFormed) (there : g.nodes[node.id]? = some node)
    (last : d.nodes[k]? = some m) (name : m.name = node.name)
    (notes : m.provenance = node.provenance) (facts : m.facts = node.facts)
    (shunts : d.shunts = [(⟨node.id, 0⟩, d.wire k)])
    (tapped : ∀ {o fact}, (o, fact) ∈ d.tapped → o ∈ node.needs)
    (covers : ∀ o ∈ node.needs, d.Reaches k o)
    (run : p.apply g = .ok touched g') : g.Rewritten node (d.placed g.size) k g' := by
  rcases described.grown wf.linked last shunts run with ⟨linked, grown, mapped⟩
  have signed {n σ id} (mem : n ∈ d.nodes) (signed : p.graph.Signed n σ) :
      g'.Signed (n.placed (d.wires g.size) id) σ :=
    described.signed_placed grown (mapped n mem) signed
  refine ⟨grown, there, linked, ?_, ?_, ?_, ?_, ?_, ?_⟩
  · intro j n there
    rw [placed_getElem?, Option.map_eq_some_iff] at there
    rcases there with ⟨n, -, rfl⟩
    rfl
  · intro n mem
    rcases mem_placed mem with ⟨before, id, own, rfl⟩
    have inner : before.op.isSource = false := described.inner own
    exact inner
  · intro n mem
    rcases mem_placed mem with ⟨before, id, own, rfl⟩
    rcases (described.infers own).signed with ⟨σ, there, inferred⟩
    have signed : g'.Signed (before.placed (d.wires g.size) id) σ := signed own there
    exact ⟨σ.operands, σ.fact, signed.operands, by rw [signed.op, inferred], signed.facts⟩
  · intro j n o there read
    rw [placed_getElem?, Option.map_eq_some_iff] at there
    rcases there with ⟨before, there, rfl⟩
    rcases List.mem_map.1 read with ⟨source, reads, rfl⟩
    obtain ⟨o', found⟩ :=
      Option.isSome_iff_exists.1 (mapped before (List.mem_of_getElem? there) source reads)
    have lt := described.earlier there reads
    rw [Wires.place_of_find? found]
    rcases described.find?_wires_eq_some found with ⟨i, _, -, same, rfl⟩ | ⟨_, fact, tap, -⟩
    · left
      rw [same] at lt
      exact ⟨Nat.le_add_right _ _, Nat.add_lt_add_left (Nat.lt_of_add_lt_add_left lt) _⟩
    · right
      exact tapped (List.mem_of_getElem? tap)
  · refine ⟨m.placed (d.wires g.size) (g.size + k), ?_, name, notes, ?_⟩
    · rw [placed_getElem?, last, Option.map_some]
    · rw [Node.facts_placed, facts]
  · intro S closed here o need
    exact described.holds_of_reaches mapped closed (covers o need) here

end Describes

end Draft

end EvenPad
