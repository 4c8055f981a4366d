import EvenPad.Proofs.Patch.Progress
import Mathlib.Data.List.Nodup

/-!
Patches that a client builds against a target: from an empty one by tapping outlets of the target,
adding sources and constants, wiring nodes, noting where they come from and taking over outlets,
each of which may be refused. Main statements: each step keeps a patch `Coherent`
(`Assembled.coherent`), and a patch whose sources are all taps is `Ready` (`BuiltFor.ready`): each
of its outlets is mapped to `Patch.outletIn` (`Ready.find?_wires`), which is there once the nodes
of the patch came in (`Ready.there`).
-/

namespace EvenPad

/-! ## Tables with one entry for a key -/

theorem lookup_reverse {α β : Type} [BEq α] [LawfulBEq α] {l : List (α × β)} {a : α}
    (distinct : (l.map Prod.fst).Nodup) : l.reverse.lookup a = l.lookup a := by
  have reversed : (l.reverse.map Prod.fst).Nodup := by
    rw [List.map_reverse]
    exact List.nodup_reverse.2 distinct
  ext b
  rw [lookup_eq_some_iff_mem reversed, lookup_eq_some_iff_mem distinct, List.mem_reverse]

namespace Graph

variable {g : Graph} {n : Node} {o : Outlet} {outlets : List Outlet}

/-- Every source of the graph is among some outlets. -/
def SourcesAmong (g : Graph) (outlets : List Outlet) : Prop :=
  ∀ (k : Nat) (n : Node), g.nodes[k]? = some n → n.op.isSource = true → ⟨k, 0⟩ ∈ outlets

theorem sourcesAmong_bare : g.bare.SourcesAmong outlets ↔ g.SourcesAmong outlets := by
  constructor
  · intro among k n there source
    exact among k n.bare (by rw [bare_getElem?, there, Option.map_some]) source
  · intro among k n there source
    rw [bare_getElem?, Option.map_eq_some_iff] at there
    obtain ⟨m, there, rfl⟩ := there
    exact among k _ there source

theorem SourcesAmong.push (among : g.SourcesAmong outlets) (inner : n.op.isSource = false) :
    (g.push n).SourcesAmong outlets := by
  intro k m there source
  rw [push_getElem?] at there
  split at there
  · cases Option.some.inj there
    rw [inner] at source
    cases source
  · exact among k _ there source

/-- Nodes are numbered by their positions. -/
theorem Typed.map_id (typed : g.Typed) : g.nodes.map Node.id = List.range g.size := by
  apply List.ext_getElem?
  intro k
  rw [List.getElem?_map]
  rcases Nat.lt_or_ge k g.size with lt | ge
  · rw [List.getElem?_range lt, List.getElem?_eq_getElem lt, Option.map_some,
      typed.id_eq (List.getElem?_eq_getElem lt)]
  · rw [List.getElem?_eq_none ge, List.getElem?_eq_none (by simpa using ge), Option.map_none]

/-- The inputs of a well-formed graph are its sources. -/
theorem Typed.isSource_of_mem (typed : g.Typed) (mem : o ∈ g.inputs)
    (there : g.nodes[o.node]? = some n) :
    n.op.isSource = true := by
  obtain ⟨-, m, fact, here, op⟩ := typed.sources mem
  cases here.symm.trans there
  rw [op]
  rfl

end Graph

namespace Patch

/-! ## Building -/

/-- Patches that are built against a target, with sources of their own or without. What is refused
leaves the patch as it was. -/
inductive Assembled (g : Graph) : Patch → Prop
  | start (context : List String) : Assembled g ⟨context, .empty, [], []⟩
  | tap {p : Patch} (o : Outlet) : Assembled g p → Assembled g ((tap g o).after p)
  | source {p : Patch} (name : String) (fact : Fact) :
    Assembled g p → Assembled g ((onGraph (Graph.addSource name fact)).after p)
  | const {p : Patch} (name : String) (value : Tensor) :
    Assembled g p → Assembled g ((onGraph (Graph.addConst name value)).after p)
  | wire {p : Patch} (name : String) (op : Op) (inputs : List Outlet) :
    Assembled g p → Assembled g ((onGraph (Graph.wire name op inputs)).after p)
  | note {p : Patch} (source : Node) (id : Nat) :
    Assembled g p → Assembled g ((copyProvenance source id).after p)
  | shunt {p : Patch} (o wire : Outlet) : Assembled g p → Assembled g ((shunt g o wire).after p)

/-- Patches that are built against a target. What is refused leaves the patch as it was. -/
inductive BuiltFor (g : Graph) : Patch → Prop
  | start (context : List String) : BuiltFor g ⟨context, .empty, [], []⟩
  | tap {p : Patch} (o : Outlet) : BuiltFor g p → BuiltFor g ((tap g o).after p)
  | const {p : Patch} (name : String) (value : Tensor) :
    BuiltFor g p → BuiltFor g ((onGraph (Graph.addConst name value)).after p)
  | wire {p : Patch} (name : String) (op : Op) (inputs : List Outlet) :
    op.isSource = false → BuiltFor g p →
    BuiltFor g ((onGraph (Graph.wire name op inputs)).after p)
  | note {p : Patch} (source : Node) (id : Nat) :
    BuiltFor g p → BuiltFor g ((copyProvenance source id).after p)
  | shunt {p : Patch} (o wire : Outlet) : BuiltFor g p → BuiltFor g ((shunt g o wire).after p)

theorem BuiltFor.assembled {g : Graph} {p : Patch} (built : BuiltFor g p) : Assembled g p := by
  induction built with
  | start context => exact .start context
  | tap o _ assembled => exact assembled.tap o
  | const name value _ assembled => exact assembled.const name value
  | wire name op inputs _ _ assembled => exact assembled.wire name op inputs
  | note source id _ assembled => exact assembled.note source id
  | shunt o wire _ assembled => exact assembled.shunt o wire

section Steps

variable {g : Graph} {p : Patch}

/-- A tap that is there, or that is refused, leaves the patch as it is. -/
theorem after_tap (o : Outlet) : (tap g o).after p = p ∨ ∃ name fact h,
    g.fact? o = some fact ∧ Graph.addSource name fact p.graph = .ok ⟨p.graph.size, 0⟩ h ∧
      (tap g o).after p =
        { p with graph := h, incoming := p.incoming ++ [(⟨p.graph.size, 0⟩, o)] } := by
  cases run : tap g o p with
  | error failure p' =>
    rw [Edit.after_of_error run]
    simp only [tap, Edit.get_bind_apply] at run
    cases found : p.incoming.find? (·.2 = o) with
    | some pair =>
      rw [found] at run
      cases run
    | none =>
      rw [found] at run
      rcases Edit.lift_bind_eq_error.1 run with ⟨-, rfl⟩ | ⟨fact, -, added⟩
      · exact .inl rfl
      · cases added
  | ok x p' =>
    rw [Edit.after_of_ok run]
    simp only [tap, Edit.get_bind_apply] at run
    cases found : p.incoming.find? (·.2 = o) with
    | some pair =>
      rw [found] at run
      obtain ⟨-, rfl⟩ := Edit.pure_eq_ok.1 run
      exact .inl rfl
    | none =>
      simp only [found, Edit.lift_eq_ok, Graph.outletFact_eq_ok, Edit.bind_eq_ok, onGraph,
        Edit.onPart_eq_ok, Edit.modify_bind_apply, Edit.pure_eq_ok] at run
      obtain ⟨fact, _, ⟨known, rfl⟩, new, p₁, ⟨h, added, rfl⟩, rfl, rfl⟩ := run
      obtain ⟨rfl, -⟩ := Graph.addSource_eq_ok added
      exact .inr ⟨_, fact, h, known, added, rfl⟩

theorem after_copyProvenance (source : Node) (id : Nat) : (copyProvenance source id).after p = p ∨
    ∃ notes, (copyProvenance source id).after p =
      { p with graph := p.graph.modifyNode id fun n => { n with provenance := notes } } := by
  cases run : copyProvenance source id p with
  | error failure p' =>
    rw [Edit.after_of_error run]
    rw [copyProvenance, Edit.get_bind_apply] at run
    rcases Edit.lift_bind_eq_error.1 run with ⟨-, rfl⟩ | ⟨n, -, noted⟩
    · exact .inl rfl
    · cases noted
  | ok u p' =>
    rw [Edit.after_of_ok run]
    simp only [copyProvenance, Edit.get_bind_apply, Edit.lift_bind_eq_ok, Graph.nodeAt,
      Checked.ofPresent_eq_ok, Edit.modify_apply, EStateM.Result.ok.injEq] at run
    obtain ⟨n, there, -, rfl⟩ := run
    refine .inr ⟨n.provenance.merge source.provenance, ?_⟩
    congr 1
    refine Graph.modifyNode_congr fun m here => ?_
    cases here.symm.trans there
    rfl

/-- A wire takes over an outlet of the target if both are there, in the place of a wire that did
before. -/
theorem after_shunt (o wire : Outlet) : (shunt g o wire).after p = p ∨
    ((g.output? o).isSome ∧ (p.graph.output? wire).isSome ∧ (shunt g o wire).after p =
      { p with shunts := p.shunts.filter (fun (taken, _) => taken ≠ o) ++ [(o, wire)] }) := by
  cases run : shunt g o wire p with
  | error failure p' =>
    rw [Edit.after_of_error run]
    rw [shunt, Edit.get_bind_apply] at run
    rcases Edit.lift_bind_eq_error.1 run with ⟨-, rfl⟩ | ⟨current, -, run⟩
    · exact .inl rfl
    rcases Edit.lift_bind_eq_error.1 run with ⟨-, rfl⟩ | ⟨substitute, -, run⟩
    · exact .inl rfl
    rcases Edit.lift_bind_eq_error.1 run with ⟨-, rfl⟩ | ⟨_, -, run⟩
    · exact .inl rfl
    cases run
  | ok u p' =>
    rw [Edit.after_of_ok run]
    simp only [shunt, Edit.get_bind_apply, Edit.lift_bind_eq_ok, Graph.outletFact_eq_ok,
      Checked.require_eq_ok, Edit.modify_apply, EStateM.Result.ok.injEq] at run
    obtain ⟨current, known, substitute, made, -, -, -, rfl⟩ := run
    exact .inr ⟨Graph.isSome_output?_iff_fact?.2 ⟨current, known⟩,
      Graph.isSome_output?_iff_fact?.2 ⟨substitute, made⟩, rfl⟩

/-- A change of the patch's own graph. -/
theorem after_onGraph {α : Type} {e : Edit Graph α} :
    (onGraph e).after p = { p with graph := e.after p.graph } :=
  Edit.after_onPart

end Steps

/-- What a patch that is built against a target can rely on. -/
structure Coherent (p : Patch) (g : Graph) : Prop where
  wellFormed : p.graph.WellFormed
  /-- The taps are inputs of the patch's own graph. -/
  taps : ∀ t ∈ p.incoming, t.1 ∈ p.graph.inputs
  distinct : (p.incoming.map Prod.fst).Nodup
  stands : ∀ t ∈ p.incoming, (g.output? t.2).isSome
  taken : ∀ s ∈ p.shunts, (g.output? s.1).isSome
  takers : ∀ s ∈ p.shunts, (p.graph.output? s.2).isSome
  apart : (p.shunts.map Prod.fst).Nodup

namespace Coherent

variable {g h : Graph} {p : Patch}

theorem start (context : List String) : Coherent ⟨context, .empty, [], []⟩ g where
  wellFormed := Graph.wellFormed_empty
  taps := by simp
  distinct := .nil
  stands := by simp
  taken := by simp
  takers := by simp
  apart := .nil

variable (coherent : p.Coherent g)
include coherent

/-- The patch's own graph may change as long as it keeps what it has. -/
theorem withGraph (wf : h.WellFormed) (inputs : p.graph.inputs ⊆ h.inputs)
    (stays : ∀ {o}, (p.graph.output? o).isSome → (h.output? o).isSome) :
    Coherent { p with graph := h } g where
  wellFormed := wf
  taps t mem := inputs (coherent.taps t mem)
  distinct := coherent.distinct
  stands := coherent.stands
  taken := coherent.taken
  takers s mem := stays (coherent.takers s mem)
  apart := coherent.apart

theorem withSource {name : String} {fact : Fact} {x : Outlet}
    (added : Graph.addSource name fact p.graph = .ok x h) : Coherent { p with graph := h } g := by
  have wf := coherent.wellFormed.source added
  obtain ⟨-, rfl⟩ := Graph.addSource_eq_ok added
  exact coherent.withGraph wf (List.subset_append_left _ _) Graph.isSome_push

theorem tap (o : Outlet) : ((tap g o).after p).Coherent g := by
  rcases after_tap o with same | ⟨name, fact, h, known, added, after⟩
  · rwa [same]
  · have grown := coherent.withSource added
    obtain ⟨-, rfl⟩ := Graph.addSource_eq_ok added
    have unknown : (⟨p.graph.size, 0⟩ : Outlet) ∉ p.incoming.map Prod.fst := by
      intro mem
      obtain ⟨t, mem, tapped⟩ := List.mem_map.1 mem
      obtain ⟨-, n, _, there, -⟩ := coherent.wellFormed.sources (tapped ▸ coherent.taps t mem)
      exact Nat.lt_irrefl _ (List.getElem?_eq_some_iff.1 there).1
    rw [after]
    refine { grown with taps := ?_, distinct := ?_, stands := ?_ }
    · intro t mem
      rcases List.mem_append.1 mem with mem | mem
      · exact grown.taps t mem
      · cases List.mem_singleton.1 mem
        exact List.mem_append_right _ (List.mem_singleton_self _)
    · rw [List.map_append, List.map_singleton, List.nodup_append]
      refine ⟨coherent.distinct, List.pairwise_singleton _ _, fun a mem b single => ?_⟩
      cases List.mem_singleton.1 single
      exact ne_of_mem_of_not_mem mem unknown
    · intro t mem
      rcases List.mem_append.1 mem with mem | mem
      · exact coherent.stands t mem
      · cases List.mem_singleton.1 mem
        exact Graph.isSome_output?_iff_fact?.2 ⟨fact, known⟩

theorem source (name : String) (fact : Fact) :
    ((onGraph (Graph.addSource name fact)).after p).Coherent g := by
  obtain ⟨h, added⟩ : ∃ h, Graph.addSource name fact p.graph = .ok _ h := Graph.addSource_ok
  rw [after_onGraph, Edit.after_of_ok added]
  exact coherent.withSource added

theorem const (name : String) (value : Tensor) :
    ((onGraph (Graph.addConst name value)).after p).Coherent g := by
  obtain ⟨h, run⟩ := Graph.addConst_ok (g := p.graph) name value
  rw [after_onGraph, Edit.after_of_ok run]
  have wf := coherent.wellFormed.const run
  obtain ⟨-, rfl⟩ := Graph.addConst_eq_ok run
  exact coherent.withGraph wf (List.Subset.refl _) Graph.isSome_push

theorem wire (name : String) (op : Op) (inputs : List Outlet) :
    ((onGraph (Graph.wire name op inputs)).after p).Coherent g := by
  rw [after_onGraph]
  cases run : Graph.wire name op inputs p.graph with
  | error failure h =>
    rw [Edit.after_of_error run, Graph.wire_eq_error run]
    exact coherent
  | ok x h =>
    rw [Edit.after_of_ok run]
    obtain ⟨-, facts, fact, -, -, bare, -⟩ := Graph.wire_eq_ok run
    have inputs : h.bare.inputs ⊆ h.bare.inputs := List.Subset.refl _
    nth_rewrite 1 [bare] at inputs
    exact coherent.withGraph (coherent.wellFormed.wire run) inputs
      fun there => Graph.isSome_wire there run

theorem note (source : Node) (id : Nat) : ((copyProvenance source id).after p).Coherent g := by
  rcases after_copyProvenance source id with same | ⟨notes, after⟩
  · rwa [same]
  · rw [after]
    refine coherent.withGraph coherent.wellFormed.notes (List.Subset.refl _) fun {o} there => ?_
    simp only [Graph.output?, Graph.modifyNode_getElem?] at there ⊢
    split
    · cases node : p.graph.nodes[o.node]? with
      | none => simp [node] at there
      | some m => simpa [node] using there
    · exact there

theorem shunt (o wire : Outlet) : ((shunt g o wire).after p).Coherent g := by
  rcases after_shunt o wire with same | ⟨there, made, after⟩
  · rwa [same]
  · have before {s : Outlet × Outlet} (mem : s ∈ p.shunts.filter fun (taken, _) => taken ≠ o) :
        s ∈ p.shunts ∧ s.1 ≠ o := by
      simpa using mem
    rw [after]
    refine { coherent with taken := ?_, takers := ?_, apart := ?_ }
    · intro s mem
      rcases List.mem_append.1 mem with mem | mem
      · exact coherent.taken s (before mem).1
      · cases List.mem_singleton.1 mem
        exact there
    · intro s mem
      rcases List.mem_append.1 mem with mem | mem
      · exact coherent.takers s (before mem).1
      · cases List.mem_singleton.1 mem
        exact made
    · rw [List.map_append, List.map_singleton, List.nodup_append]
      refine ⟨coherent.apart.sublist (List.filter_sublist.map _), List.pairwise_singleton _ _, ?_⟩
      intro a mem b single
      obtain ⟨s, kept, rfl⟩ := List.mem_map.1 mem
      cases List.mem_singleton.1 single
      exact (before kept).2

/-- What the taps stand for is known before any node comes in. -/
theorem isSome_find?_incoming {o : Outlet} :
    (Wires.find? p.incoming.reverse o).isSome ↔ o ∈ p.incoming.map Prod.fst := by
  rw [Wires.find?, lookup_reverse coherent.distinct, Option.isSome_iff_exists, List.mem_map]
  simp only [lookup_eq_some_iff_mem coherent.distinct, Prod.exists,
    exists_and_right, exists_eq_right]

end Coherent

theorem Assembled.coherent {g : Graph} {p : Patch}
    (assembled : Assembled g p) : p.Coherent g := by
  induction assembled with
  | start context => exact .start context
  | tap o _ coherent => exact coherent.tap o
  | source name fact _ coherent => exact coherent.source name fact
  | const name value _ coherent => exact coherent.const name value
  | wire name op inputs _ coherent => exact coherent.wire name op inputs
  | note source id _ coherent => exact coherent.note source id
  | shunt o wire _ coherent => exact coherent.shunt o wire

/-! ## Sources -/

/-- Every source of the patch is a tap. -/
def Closed (p : Patch) : Prop := p.graph.SourcesAmong (p.incoming.map Prod.fst)

section Closed

variable {g : Graph} {p : Patch} (closed : p.Closed)
include closed

theorem Closed.tap (o : Outlet) : ((tap g o).after p).Closed := by
  rcases after_tap o with same | ⟨name, fact, h, -, added, after⟩
  · rwa [same]
  · obtain ⟨-, rfl⟩ := Graph.addSource_eq_ok added
    rw [after]
    intro k n there source
    change (p.graph.push _).nodes[k]? = some n at there
    rw [Graph.push_getElem?] at there
    split at there
    · next last => simp [last]
    · have tapped := closed k n there source
      simp only [List.map_append, List.mem_append]
      exact .inl tapped

theorem Closed.const (name : String) (value : Tensor) :
    ((onGraph (Graph.addConst name value)).after p).Closed := by
  obtain ⟨h, run⟩ := Graph.addConst_ok (g := p.graph) name value
  rw [after_onGraph, Edit.after_of_ok run]
  obtain ⟨-, rfl⟩ := Graph.addConst_eq_ok run
  exact closed.push rfl

theorem Closed.wire (name : String) {op : Op} (inputs : List Outlet)
    (inner : op.isSource = false) :
    ((onGraph (Graph.wire name op inputs)).after p).Closed := by
  rw [after_onGraph]
  cases run : Graph.wire name op inputs p.graph with
  | error failure h =>
    rw [Edit.after_of_error run, Graph.wire_eq_error run]
    exact closed
  | ok x h =>
    rw [Edit.after_of_ok run]
    obtain ⟨-, facts, fact, -, -, bare, -⟩ := Graph.wire_eq_ok run
    rw [Closed, ← Graph.sourcesAmong_bare, bare]
    exact (Graph.sourcesAmong_bare.2 closed).push inner

theorem Closed.note (source : Node) (id : Nat) : ((copyProvenance source id).after p).Closed := by
  rcases after_copyProvenance source id with same | ⟨notes, after⟩
  · rwa [same]
  · rw [after]
    intro k m there source
    rw [Graph.modifyNode_getElem?] at there
    split at there
    · obtain ⟨m, before, rfl⟩ := Option.map_eq_some_iff.1 there
      exact closed k m before source
    · exact closed k _ there source

theorem Closed.shunt (o wire : Outlet) : ((shunt g o wire).after p).Closed := by
  rcases after_shunt o wire with same | ⟨-, -, after⟩
  · rwa [same]
  · rw [after]
    exact closed

end Closed

theorem BuiltFor.closed {g : Graph} {p : Patch} (built : BuiltFor g p) : p.Closed := by
  induction built with
  | start context =>
    intro k n there
    simp [Graph.empty] at there
  | tap o _ closed => exact closed.tap o
  | const name value _ closed => exact closed.const name value
  | wire name op inputs inner _ closed => exact closed.wire name inputs inner
  | note source id _ closed => exact closed.note source id
  | shunt o wire _ closed => exact closed.shunt o wire

/-- What a patch can rely on that is built against a target and has no sources but its taps. -/
structure Ready (p : Patch) (g : Graph) : Prop extends Coherent p g where
  closed : p.Closed

theorem BuiltFor.ready {g : Graph} {p : Patch} (built : BuiltFor g p) : p.Ready g :=
  ⟨built.assembled.coherent, built.closed⟩

/-! ## Where the outlets of a patch are in a target -/

/-- What an outlet of a patch becomes in a target of a size: a tap the outlet that it stands for,
and any other an outlet of the node that comes in. -/
def outletIn (p : Patch) (size : Nat) (o : Outlet) : Outlet :=
  (p.incoming.lookup o).getD ⟨size + (p.fresh.map Node.id).idxOf o.node, o.slot⟩

theorem landed_getElem? {g : Graph} {nodes : List Node} {n : Node} {j : Nat}
    (there : nodes[j]? = some n) :
    (landed g nodes).nodes[g.size + j]? = some (n.landing (g.size + j)) := by
  rw [landed, Graph.size, List.getElem?_append_right (Nat.le_add_right _ _),
    Nat.add_sub_cancel_left, List.getElem?_map, List.getElem?_zipIdx, there]
  rfl

namespace Ready

variable {g : Graph} {p : Patch} {o tap : Outlet} {n : Node}
  {size j slot : Nat} (ready : p.Ready g)
include ready

/-- The nodes that come in are not taps. -/
theorem ne_of_fresh (mem : n ∈ p.fresh) (tapped : tap ∈ p.graph.inputs) : n.id ≠ tap.node := by
  intro same
  obtain ⟨mem, inner⟩ := List.mem_filter.1 mem
  obtain ⟨k, there⟩ := List.mem_iff_getElem?.1 mem
  have id := ready.wellFormed.id_eq there
  rw [← id, same] at there
  have source := ready.wellFormed.isSource_of_mem tapped there
  simp [source] at inner

theorem nodup_ids : (p.fresh.map Node.id).Nodup := by
  have sublist : (p.fresh.map Node.id).Sublist (p.graph.nodes.map Node.id) :=
    List.filter_sublist.map _
  exact (ready.wellFormed.map_id ▸ List.nodup_range).sublist sublist

theorem find?_tap (mem : (tap, o) ∈ p.incoming) :
    (p.wires size).find? tap = some o ∧ p.outletIn size tap = o := by
  have tapped : tap ∈ p.graph.inputs := ready.taps _ mem
  have known : p.incoming.lookup tap = some o := (lookup_eq_some_iff_mem ready.distinct).2 mem
  constructor
  · rw [wires, Wires.find?_addNodes_of_other fun n mem => ready.ne_of_fresh mem tapped,
      Wires.find?, lookup_reverse ready.distinct, known]
  · rw [outletIn, known, Option.getD_some]

theorem find?_fresh (there : p.fresh[j]? = some n) (lt : slot < n.outputs.length) :
    (p.wires size).find? ⟨n.id, slot⟩ = some ⟨size + j, slot⟩ ∧
      p.outletIn size ⟨n.id, slot⟩ = ⟨size + j, slot⟩ := by
  refine ⟨Wires.find?_addNodes ready.nodup_ids there lt, ?_⟩
  have unknown : p.incoming.lookup ⟨n.id, slot⟩ = none := by
    rw [Option.eq_none_iff_forall_ne_some]
    intro o known
    have mem := (lookup_eq_some_iff_mem ready.distinct).1 known
    exact ready.ne_of_fresh (List.mem_of_getElem? there) (ready.taps _ mem) rfl
  have position : (p.fresh.map Node.id).idxOf n.id = j := by
    obtain ⟨lt, rfl⟩ := List.getElem?_eq_some_iff.1 there
    have mapped : j < (p.fresh.map Node.id).length := by rwa [List.length_map]
    rw [← List.getElem_map Node.id (h := mapped), ready.nodup_ids.idxOf_getElem j mapped]
  rw [outletIn, unknown, Option.getD_none, position]

/-- An outlet of a patch is a tap or belongs to a node that comes in. -/
theorem tap_or_fresh (there : (p.graph.output? o).isSome) :
    (∃ stands, (o, stands) ∈ p.incoming) ∨
      ∃ (j : Nat) (n : Node), p.fresh[j]? = some n ∧ o.node = n.id ∧
        o.slot < n.outputs.length := by
  obtain ⟨output, found⟩ := Option.isSome_iff_exists.1 there
  obtain ⟨n, there, produced⟩ := Graph.output?_eq_some.1 found
  have id := ready.wellFormed.id_eq there
  cases source : n.op.isSource with
  | true =>
    obtain ⟨fact, known⟩ :=
      Graph.isSome_output?_iff_fact?.1 (Option.isSome_iff_exists.2 ⟨output, found⟩)
    have first := ready.wellFormed.slot_eq_zero known
    have tapped : o ∈ p.incoming.map Prod.fst := by
      obtain ⟨node, slot⟩ := o
      cases first
      exact ready.closed node n there source
    obtain ⟨⟨_, stands⟩, mem, rfl⟩ := List.mem_map.1 tapped
    exact .inl ⟨stands, mem⟩
  | false =>
    have mem : n ∈ p.fresh := List.mem_filter.2 ⟨List.mem_of_getElem? there, by simp [source]⟩
    obtain ⟨j, position⟩ := List.mem_iff_getElem?.1 mem
    exact .inr ⟨j, n, position, id.symm, (List.getElem?_eq_some_iff.1 produced).1⟩

/-- Each outlet of a patch is mapped to what it becomes. -/
theorem find?_wires (there : (p.graph.output? o).isSome) :
    (p.wires size).find? o = some (p.outletIn size o) := by
  rcases ready.tap_or_fresh there with ⟨stands, mem⟩ | ⟨j, n, position, node, slot⟩
  · rw [(ready.find?_tap mem).1, (ready.find?_tap mem).2]
  · obtain ⟨_, _⟩ := o
    cases node
    rw [(ready.find?_fresh position slot).1, (ready.find?_fresh position slot).2]

/-- That is there once the nodes of the patch came in. -/
theorem there (there : (p.graph.output? o).isSome) :
    ((landed g p.fresh).output? (p.outletIn g.size o)).isSome := by
  rcases ready.tap_or_fresh there with ⟨stands, mem⟩ | ⟨j, n, position, node, slot⟩
  · rw [(ready.find?_tap mem).2]
    obtain ⟨fact, known⟩ := Graph.isSome_output?_iff_fact?.1 (ready.stands _ mem)
    exact Graph.isSome_output?_iff_fact?.2 ⟨fact, fact?_landed known⟩
  · obtain ⟨_, s⟩ := o
    cases node
    rw [(ready.find?_fresh position slot).2, Graph.isSome_output?_iff_fact?]
    have produced : s < (n.landing (g.size + j)).facts.length := by
      simpa [Node.landing] using slot
    exact ⟨_, Graph.fact?_eq_some.2
      ⟨_, landed_getElem? position, List.getElem?_eq_getElem produced⟩⟩

/-- What is not a tap comes in after the last node of the target. -/
theorem le_outletIn (there : (p.graph.output? o).isSome) (inner : o ∉ p.incoming.map Prod.fst) :
    size ≤ (p.outletIn size o).node := by
  rcases ready.tap_or_fresh there with ⟨stands, mem⟩ | ⟨j, n, position, node, slot⟩
  · exact absurd (List.mem_map_of_mem (f := Prod.fst) mem) inner
  · obtain ⟨_, _⟩ := o
    cases node
    rw [(ready.find?_fresh position slot).2]
    exact Nat.le_add_right _ _

end Ready

end Patch

end EvenPad
