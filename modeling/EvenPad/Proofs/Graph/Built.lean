import EvenPad.Proofs.Graph.Edges

/-!
Graphs that were built: from the empty graph by adding sources and constants, wiring nodes, naming
outputs that are there and noting where nodes come from. Main statement: a built graph is
`WellFormed` (`Built.wellFormed`): nodes carry their positions, each has the one fact that its
operator infers from the facts of its inputs, and edges are known at both ends.
-/

namespace EvenPad

/-- A node at the end of a table, which no one reads yet. -/
def Node.fresh (id : Nat) (name : String) (op : Op) (inputs : List Outlet) (fact : Fact) : Node :=
  ⟨id, name, op, inputs, [⟨fact, []⟩], Provenance.empty⟩

@[simp] theorem Node.bare_fresh {id : Nat} {name : String} {op : Op} {inputs : List Outlet}
    {fact : Fact} : (Node.fresh id name op inputs fact).bare = .fresh id name op inputs fact :=
  rfl

@[simp] theorem Node.facts_bare {n : Node} : n.bare.facts = n.facts := by
  simp [Node.bare, Node.facts, Function.comp_def]

namespace Graph

variable {g g' : Graph} {n : Node} {o : Outlet} {i : Inlet} {id k : Nat} {name : String} {op : Op}
  {fact : Fact} {u : Unit}

/-- The graph with one more node. -/
def push (g : Graph) (n : Node) : Graph := { g with nodes := g.nodes ++ [n] }

/-! ## Building step by step -/

theorem addSource_eq_ok (run : addSource name fact g = .ok o g') :
    o = ⟨g.size, 0⟩ ∧
      g' = { g.push (.fresh g.size name (.source fact) [] fact) with
        inputs := g.inputs ++ [⟨g.size, 0⟩] } := by
  simp only [addSource, addNode, Edit.bind_eq_ok, Edit.get_bind_apply, Edit.set_bind_apply,
    Edit.pure_eq_ok, Edit.modify_bind_apply] at run
  rcases run with ⟨_, _, ⟨rfl, rfl⟩, rfl, rfl⟩
  exact ⟨rfl, rfl⟩

theorem addConst_eq_ok {value : Tensor} (run : addConst name value g = .ok o g') :
    o = ⟨g.size, 0⟩ ∧
      g' = g.push (.fresh g.size name (.const value) [] (.constant value)) := by
  simp only [addConst, addNode, Edit.bind_eq_ok, Edit.get_bind_apply, Edit.set_bind_apply,
    Edit.pure_eq_ok] at run
  rcases run with ⟨_, _, ⟨rfl, rfl⟩, rfl, rfl⟩
  exact ⟨rfl, rfl⟩

theorem push_getElem? :
    (g.push n).nodes[k]? = if k = g.size then some n else g.nodes[k]? := by
  have length : g.nodes.length = g.size := rfl
  simp only [push]
  rcases Nat.lt_trichotomy k g.size with lt | rfl | gt
  · rw [List.getElem?_append_left (by omega), if_neg (by omega)]
  · rw [List.getElem?_append_right (by omega), if_pos rfl, length, Nat.sub_self]
    rfl
  · rw [List.getElem?_append_right (by omega), if_neg (by omega),
      List.getElem?_eq_none (by simp; omega), List.getElem?_eq_none (by omega)]

theorem push_getElem?_size : (g.push n).nodes[g.size]? = some n :=
  push_getElem?.trans (if_pos rfl)

theorem push_getElem?_of_some {m : Node} (node : g.nodes[k]? = some m) :
    (g.push n).nodes[k]? = some m := by
  have lt : k < g.size := (List.getElem?_eq_some_iff.1 node).1
  rw [push_getElem?, if_neg (by omega), node]

theorem bare_push : (g.push n).bare = g.bare.push n.bare := by
  simp [push, bare]

theorem modifyNode_push {f : Node → Node} : (g.push n).modifyNode g.size f = g.push (f n) := by
  refine eq_of_getElem?_eq (fun k => ?_) rfl rfl
  rw [modifyNode_getElem?, push_getElem?, push_getElem?]
  split
  · next last => rw [if_pos last.symm, if_pos last.symm, Option.map_some]
  · next other => rw [if_neg (Ne.symm other), if_neg (Ne.symm other)]

theorem fact?_eq_some :
    g.fact? o = some fact ↔ ∃ n, g.nodes[o.node]? = some n ∧ n.facts[o.slot]? = some fact := by
  simp only [fact?, Option.map_eq_some_iff, output?_eq_some, Node.facts, List.getElem?_map]
  constructor
  · rintro ⟨out, ⟨n, node, output⟩, rfl⟩
    exact ⟨n, node, out, output, rfl⟩
  · rintro ⟨n, node, out, output, rfl⟩
    exact ⟨out, ⟨n, node, output⟩, rfl⟩

/-- The facts of some outlets are told once. -/
theorem facts_unique {outlets : List Outlet} {facts facts' : List Fact}
    (known : List.Forall₂ (fun o f => g.fact? o = some f) outlets facts)
    (known' : List.Forall₂ (fun o f => g.fact? o = some f) outlets facts') : facts = facts' := by
  induction known generalizing facts' with
  | nil => exact (List.forall₂_nil_left_iff.1 known').symm
  | cons head _ ih =>
    rcases List.forall₂_cons_left_iff.1 known' with ⟨fact, rest, head', tail, rfl⟩
    rw [Option.some.inj (head.symm.trans head'), ih tail]

/-- A new node leaves the facts of the others. -/
theorem fact?_push_of_some (before : g.fact? o = some fact) : (g.push n).fact? o = some fact := by
  rw [fact?_eq_some] at before ⊢
  rcases before with ⟨m, node, produced⟩
  exact ⟨m, push_getElem?_of_some node, produced⟩

theorem isSome_push (there : (g.output? o).isSome) : ((g.push n).output? o).isSome := by
  obtain ⟨fact, known⟩ := isSome_output?_iff_fact?.1 there
  exact isSome_output?_iff_fact?.2 ⟨fact, fact?_push_of_some known⟩

/-- A node that reads nothing adds no inlets. -/
theorem source?_push (inputs : n.inputs = []) : (g.push n).source? i = g.source? i := by
  simp only [source?, push_getElem?]
  split
  · next last =>
    have past : g.nodes[i.node]? = none := List.getElem?_eq_none (Nat.le_of_eq last.symm)
    simp [inputs, past]
  · rfl

/-- A node that no one reads adds no readers. -/
theorem readers_push (unread : ∀ out ∈ n.outputs, out.successors = []) :
    (g.push n).readers o = g.readers o := by
  simp only [readers, output?, push_getElem?]
  split
  · next last =>
    have past : g.nodes[o.node]? = none := List.getElem?_eq_none (Nat.le_of_eq last.symm)
    cases out : n.outputs[o.slot]? with
    | none => simp [past, out]
    | some out' => simp [past, out, unread out' (List.mem_of_getElem? out)]
  · rfl

/-- A node that reads nothing and is read by no one brings no edges. -/
theorem keepsEdges_push (inputs : n.inputs = [])
    (unread : ∀ out ∈ n.outputs, out.successors = []) :
    g.KeepsEdges (g.push n) :=
  .of_eq (fun _ => source?_push inputs) (fun _ => readers_push unread) fun _ there =>
    isSome_push there

/-- Wiring appends one node, with the fact that its operator infers from those of its inputs. -/
theorem wire_eq_ok {inputs : List Outlet} (run : wire name op inputs g = .ok o g') :
    o = ⟨g.size, 0⟩ ∧ ∃ facts fact,
      List.Forall₂ (fun o f => g.fact? o = some f) inputs facts ∧
      op.outputFact facts = .ok fact ∧
      g'.bare = g.bare.push (.fresh g.size name op inputs fact) ∧ g.KeepsEdges g' := by
  simp only [wire, Edit.within_eq_ok, Edit.get_bind_apply, Edit.bind_eq_ok, Edit.lift_eq_ok,
    Checked.mapM_eq_ok_iff, outletFact_eq_ok, Checked.within_eq_ok, addNode, Edit.set_bind_apply,
    Edit.pure_eq_ok] at run
  obtain ⟨facts, _, ⟨known, rfl⟩, fact, _, ⟨inferred, rfl⟩, _, _, ⟨rfl, rfl⟩, _, g₂, run, rfl,
    rfl⟩ := run
  have node : (g.append name op [fact]).nodes[g.size]? = some (.fresh g.size name op [] fact) :=
    push_getElem?_size
  obtain ⟨outlets, founds, -, bare', keeps⟩ :=
    linkSlots_eq_ok .ok inputs node run
  have same : inputs = outlets := by
    rw [← List.forall₂_eq_eq_eq]
    exact founds.imp fun _ _ found => Except.ok.inj found
  subst same
  refine ⟨rfl, facts, fact, known, inferred, ?_, ?_⟩
  · rw [bare']
    have pushed : (g.append name op [fact]).bare =
        g.bare.push (.fresh g.size name op [] fact) := by
      rw [← Node.bare_fresh, ← bare_push]
      rfl
    rw [pushed, ← bare_size, modifyNode_push]
    rfl
  · have pushed : g.KeepsEdges (g.append name op [fact]) :=
      keepsEdges_push (n := .fresh g.size name op [] fact) rfl (by simp [Node.fresh])
    exact pushed.trans keeps

/-! ## Well-formed graphs -/

/-- The node has the one fact that its operator infers from the facts of its inputs. -/
def Infers (g : Graph) (n : Node) : Prop :=
  ∃ facts fact, List.Forall₂ (fun o f => g.fact? o = some f) n.inputs facts ∧
    n.op.outputFact facts = .ok fact ∧ n.facts = [fact]

/-- What a node with a fact reads is there. -/
theorem Infers.lt_size (infers : g.Infers n) (read : o ∈ n.inputs) : o.node < g.size := by
  rcases infers with ⟨facts, _, known, -⟩
  rcases List.mem_iff_getElem?.1 read with ⟨i, at_i⟩
  rcases forall₂_getElem? known at_i with ⟨fact, -, known⟩
  rcases fact?_eq_some.1 known with ⟨m, there, -⟩
  exact (List.getElem?_eq_some_iff.1 there).1

/-- Nodes carry their positions and the facts that their operators infer, the inputs of the graph
are sources, and its outputs are there. The lists of readers do not matter. -/
structure Typed (g : Graph) : Prop where
  id_eq : ∀ {id : Nat} {n : Node}, g.nodes[id]? = some n → n.id = id
  infers : ∀ {id : Nat} {n : Node}, g.nodes[id]? = some n → g.Infers n
  sources : ∀ {o : Outlet}, o ∈ g.inputs →
    o.slot = 0 ∧ ∃ n fact, g.nodes[o.node]? = some n ∧ n.op = .source fact
  answers : ∀ {o : Outlet}, o ∈ g.outputs → (g.output? o).isSome

structure WellFormed (g : Graph) : Prop extends Typed g where
  linked : g.Linked

theorem infers_bare : g.bare.Infers n.bare ↔ g.Infers n := by
  simp only [Infers, fact?_bare, Node.facts_bare]
  rfl

theorem isSome_output?_bare : (g.bare.output? o).isSome = (g.output? o).isSome :=
  isSome_output?_congr (by simp [bare, Node.bare, Node.facts, Function.comp_def])

theorem typed_bare : g.bare.Typed ↔ g.Typed := by
  constructor
  · intro typed
    refine ⟨?_, ?_, ?_, ?_⟩
    · intro id n node
      exact typed.id_eq (n := n.bare) (by rw [bare_getElem?, node, Option.map_some])
    · intro id n node
      exact infers_bare.1 (typed.infers (by rw [bare_getElem?, node, Option.map_some]))
    · intro o mem
      rcases typed.sources mem with ⟨slot, n, fact, node, op⟩
      rw [bare_getElem?, Option.map_eq_some_iff] at node
      rcases node with ⟨m, node, rfl⟩
      exact ⟨slot, m, fact, node, op⟩
    · intro o mem
      rw [← isSome_output?_bare]
      exact typed.answers mem
  · intro typed
    refine ⟨?_, ?_, ?_, ?_⟩
    · intro id n node
      rw [bare_getElem?, Option.map_eq_some_iff] at node
      rcases node with ⟨m, node, rfl⟩
      exact typed.id_eq (n := m) node
    · intro id n node
      rw [bare_getElem?, Option.map_eq_some_iff] at node
      rcases node with ⟨m, node, rfl⟩
      exact infers_bare.2 (typed.infers node)
    · intro o mem
      rcases typed.sources mem with ⟨slot, n, fact, node, op⟩
      exact ⟨slot, n.bare, fact, by rw [bare_getElem?, node, Option.map_some], op⟩
    · intro o mem
      rw [isSome_output?_bare]
      exact typed.answers mem

/-- What an operator infers does not hang on nodes that come later. -/
theorem Infers.push {m : Node} (infers : g.Infers n) : (g.push m).Infers n := by
  rcases infers with ⟨facts, fact, known, inferred, facts_eq⟩
  exact ⟨facts, fact, known.imp fun _ _ => fact?_push_of_some, inferred, facts_eq⟩

theorem Typed.push (typed : g.Typed) (id : n.id = g.size) (infers : g.Infers n) :
    (g.push n).Typed where
  id_eq := by
    intro k m node
    rw [push_getElem?] at node
    split at node
    · next last =>
      cases Option.some.inj node
      rw [id, last]
    · exact typed.id_eq node
  infers := by
    intro k m node
    rw [push_getElem?] at node
    split at node
    · cases Option.some.inj node
      exact infers.push
    · exact (typed.infers node).push
  sources := by
    intro o mem
    rcases typed.sources mem with ⟨slot, m, fact, node, op⟩
    exact ⟨slot, m, fact, push_getElem?_of_some node, op⟩
  answers := by
    intro o mem
    exact isSome_push (typed.answers mem)

theorem WellFormed.push (wf : g.WellFormed) (id : n.id = g.size) (infers : g.Infers n)
    (inputs : n.inputs = []) (readers : ∀ out ∈ n.outputs, out.successors = []) :
    (g.push n).WellFormed :=
  ⟨wf.toTyped.push id infers, (keepsEdges_push inputs readers).linked wf.linked⟩

/-- The outlet that comes out of wiring is there. -/
theorem isSome_of_wire {inputs : List Outlet} (run : wire name op inputs g = .ok o g') :
    (g'.output? o).isSome := by
  rcases wire_eq_ok run with ⟨rfl, _, fact, -, -, bare', -⟩
  have node : g'.bare.nodes[g.size]? = some (.fresh g.size name op inputs fact) := by
    rw [bare', push_getElem?, bare_size, if_pos rfl]
  rw [← isSome_output?_bare, isSome_output?_iff_fact?]
  exact ⟨fact, fact?_eq_some.2 ⟨_, node, rfl⟩⟩

/-- What was there before a node is wired stays there. -/
theorem isSome_wire {inputs : List Outlet} {x : Outlet} (there : (g.output? o).isSome)
    (run : wire name op inputs g = .ok x g') : (g'.output? o).isSome := by
  rcases wire_eq_ok run with ⟨-, _, _, -, -, bare, -⟩
  rw [← isSome_output?_bare, isSome_output?_iff_fact?] at there ⊢
  rcases there with ⟨fact, known⟩
  exact ⟨fact, by rw [bare]; exact fact?_push_of_some known⟩


/-- Only slot 0 of a node has a fact. -/
theorem Typed.slot_eq_zero (typed : g.Typed) (known : g.fact? o = some fact) : o.slot = 0 := by
  rcases fact?_eq_some.1 known with ⟨n, there, produced⟩
  rcases typed.infers there with ⟨_, _, -, -, facts⟩
  rw [facts, List.getElem?_singleton, Option.ite_none_right_eq_some] at produced
  exact produced.1

/-- Nodes read slot 0 of nodes that are there. -/
theorem Typed.read_eq (typed : g.Typed) (there : g.nodes[id]? = some n) (read : o ∈ n.inputs) :
    o.slot = 0 ∧ o.node < g.size := by
  rcases typed.infers there with ⟨facts, _, known, -⟩
  rcases List.mem_iff_getElem?.1 read with ⟨i, at_i⟩
  rcases forall₂_getElem? known at_i with ⟨fact, -, known⟩
  exact ⟨typed.slot_eq_zero known, (typed.infers there).lt_size read⟩

/-- The graph answers with slot 0 of nodes that are there. -/
theorem Typed.answer_eq (typed : g.Typed) (mem : o ∈ g.outputs) :
    o.slot = 0 ∧ o.node < g.size := by
  rcases isSome_output?_iff_fact?.1 (typed.answers mem) with ⟨fact, known⟩
  rcases fact?_eq_some.1 known with ⟨m, there, -⟩
  exact ⟨typed.slot_eq_zero known, (List.getElem?_eq_some_iff.1 there).1⟩

/-! ## Built graphs -/

/-- Graphs built from the empty one. -/
inductive Built : Graph → Prop
  | empty : Built .empty
  | source {g g' : Graph} {name : String} {fact : Fact} {o : Outlet} :
    Built g → addSource name fact g = .ok o g' → Built g'
  | const {g g' : Graph} {name : String} {value : Tensor} {o : Outlet} :
    Built g → addConst name value g = .ok o g' → Built g'
  | wire {g g' : Graph} {name : String} {op : Op} {inputs : List Outlet} {o : Outlet} :
    Built g → Graph.wire name op inputs g = .ok o g' → Built g'
  | fused {g g' : Graph} {name : String} {data filters addend o : Outlet}
      {outputShape : Option Outlet} {window : Window} :
    Built g → wireFused name data filters outputShape addend window g = .ok o g' → Built g'
  | answer {g g' : Graph} {outlets : List Outlet} {u : Unit} :
    Built g → (∀ o ∈ outlets, (g.output? o).isSome) → setOutputs outlets g = .ok u g' → Built g'
  | note {g g' : Graph} {id : Nat} {notes : Provenance} {u : Unit} :
    Built g → updateNode id (fun n => { n with provenance := notes }) g = .ok u g' → Built g'

/-- A graph may answer with the node that was wired last. -/
theorem Built.answerLast {h : Graph} {inputs : List Outlet} {u : Unit} (built : g.Built)
    (run : Graph.wire name op inputs g = .ok o g') (answer : setOutputs [o] g' = .ok u h) :
    h.Built := by
  refine .answer (.wire built run) ?_ answer
  intro o' mem
  cases List.mem_singleton.1 mem
  exact isSome_of_wire run

theorem WellFormed.wire {inputs : List Outlet} (wf : g.WellFormed)
    (run : Graph.wire name op inputs g = .ok o g') : g'.WellFormed := by
  rcases wire_eq_ok run with ⟨-, facts, fact, known, inferred, bare', keeps⟩
  refine ⟨typed_bare.1 ?_, keeps.linked wf.linked⟩
  rw [bare']
  have known : List.Forall₂ (fun o f => g.bare.fact? o = some f) inputs facts := by
    simpa only [fact?_bare] using known
  exact (typed_bare.2 wf.toTyped).push bare_size.symm ⟨facts, fact, known, inferred, rfl⟩

theorem wireFused_eq_ok {data filters addend : Outlet} {outputShape : Option Outlet}
    {window : Window} (run : wireFused name data filters outputShape addend window g = .ok o g') :
    ∃ fact, g.fact? addend = some fact ∧
      Graph.wire name (.fusedDeconv window outputShape.isSome fact.withoutValue)
        ([data, filters] ++ outputShape.toList ++ [addend]) g = .ok o g' := by
  simp only [wireFused, Edit.get_bind_apply, Edit.lift_bind_eq_ok, outletFact_eq_ok] at run
  exact run

/-- Notes change nothing that a graph is asked for to be well-formed. -/
theorem WellFormed.notes {notes : Provenance} (wf : g.WellFormed) :
    (g.modifyNode id fun n => { n with provenance := notes }).WellFormed := by
  set noted := g.modifyNode id fun n => { n with provenance := notes } with noted_eq
  have nodes {k : Nat} : noted.nodes[k]? =
      if id = k then g.nodes[k]?.map fun n => { n with provenance := notes } else g.nodes[k]? :=
    modifyNode_getElem?
  have node {k : Nat} {m : Node} (node : noted.nodes[k]? = some m) :
      ∃ n, g.nodes[k]? = some n ∧ m.id = n.id ∧ m.op = n.op ∧ m.inputs = n.inputs ∧
        m.facts = n.facts := by
    rw [nodes] at node
    split at node
    · rcases Option.map_eq_some_iff.1 node with ⟨n, before, rfl⟩
      exact ⟨n, before, rfl, rfl, rfl, rfl⟩
    · exact ⟨m, node, rfl, rfl, rfl, rfl⟩
  have output : noted.output? = g.output? := by
    funext o
    simp only [output?, nodes]
    split
    · cases g.nodes[o.node]? <;> rfl
    · rfl
  have source : noted.source? = g.source? := by
    funext i
    simp only [source?, nodes]
    split
    · cases g.nodes[i.node]? <;> rfl
    · rfl
  refine ⟨⟨?_, ?_, ?_, ?_⟩, ⟨?_, ?_⟩⟩
  · intro k m nodeAt
    rcases node nodeAt with ⟨n, nodeAt, id_eq, -⟩
    rw [id_eq, wf.id_eq nodeAt]
  · intro k m nodeAt
    rcases node nodeAt with ⟨n, nodeAt, -, op, inputs, facts⟩
    have infers := wf.infers nodeAt
    simp only [Infers, fact?] at infers ⊢
    rw [op, inputs, facts, output]
    exact infers
  · intro o mem
    rcases wf.sources mem with ⟨slot, n, fact, nodeAt, op⟩
    by_cases here : id = o.node
    · exact ⟨slot, { n with provenance := notes }, fact,
        by rw [nodes, if_pos here, nodeAt, Option.map_some], op⟩
    · exact ⟨slot, n, fact, by rw [nodes, if_neg here, nodeAt], op⟩
  · intro o mem
    rw [output]
    exact wf.answers mem
  · intro i o read
    rw [source] at read
    rw [output]
    exact wf.linked.there read
  · intro o i
    rw [source, readers, output]
    exact wf.linked.listed o i

theorem wellFormed_empty : WellFormed .empty where
  id_eq node := by simp [empty] at node
  infers node := by simp [empty] at node
  sources mem := by simp [empty] at mem
  answers mem := by simp [empty] at mem
  linked := by
    refine ⟨?_, ?_⟩
    · intro i o read
      simp [source?, empty] at read
    · intro o i
      simp [readers, output?, source?, empty]

theorem WellFormed.source (wf : g.WellFormed) (run : addSource name fact g = .ok o g') :
    g'.WellFormed := by
  rcases addSource_eq_ok run with ⟨-, rfl⟩
  have pushed : (g.push (.fresh g.size name (.source fact) [] fact)).WellFormed :=
    wf.push rfl ⟨[], fact, .nil, rfl, rfl⟩ rfl (by simp [Node.fresh])
  refine ⟨⟨pushed.id_eq, pushed.infers, ?_, pushed.answers⟩, ⟨pushed.linked.1, pushed.linked.2⟩⟩
  intro o mem
  rcases List.mem_append.1 mem with mem | mem
  · exact pushed.sources mem
  · cases List.mem_singleton.1 mem
    exact ⟨rfl, .fresh g.size name (.source fact) [] fact, fact, push_getElem?_size, rfl⟩

theorem WellFormed.const {value : Tensor} (wf : g.WellFormed)
    (run : addConst name value g = .ok o g') : g'.WellFormed := by
  rcases addConst_eq_ok run with ⟨-, rfl⟩
  exact wf.push rfl ⟨[], .constant value, .nil, rfl, rfl⟩ rfl (by simp [Node.fresh])

theorem Built.wellFormed (built : g.Built) : g.WellFormed := by
  induction built with
  | empty => exact wellFormed_empty
  | source _ run wf => exact wf.source run
  | const _ run wf => exact wf.const run
  | wire _ run wf => exact wf.wire run
  | fused _ run wf =>
    rcases wireFused_eq_ok run with ⟨_, -, run⟩
    exact wf.wire run
  | answer _ there run wf =>
    simp only [setOutputs, Edit.modify_apply, EStateM.Result.ok.injEq] at run
    rcases run with ⟨-, rfl⟩
    exact ⟨⟨wf.id_eq, wf.infers, wf.sources, fun mem => there _ mem⟩,
      ⟨wf.linked.1, wf.linked.2⟩⟩
  | note _ run wf =>
    simp only [updateNode, Edit.get_bind_apply, Edit.lift_bind_eq_ok, Edit.modify_apply,
      EStateM.Result.ok.injEq] at run
    rcases run with ⟨_, -, -, rfl⟩
    exact wf.notes

end Graph

end EvenPad
