import EvenPad.Graph.Build
import EvenPad.Proofs.Edit

/-!
Edges of a graph, known at both ends. A graph is `Symmetric` when each of its inlets reads an
outlet that is there and is listed by that outlet and by no other, and `Linked` when it is listed
once.

`link` is what a successful `connect` does. Apart from the lists of readers it changes the one
inlet only (`bare_link`), and it keeps edges known at both ends (`keepsEdges_link`).
-/

namespace EvenPad

/-! ## Tables -/

theorem modify_append_left {α : Type} {front rest : List α} {f : α → α} {k : Nat}
    (lt : k < front.length) : (front ++ rest).modify k f = front.modify k f ++ rest := by
  induction front generalizing k with
  | nil => simp at lt
  | cons a front ih =>
    cases k with
    | zero => rfl
    | succ k =>
      rw [List.cons_append, List.modify_succ_cons, List.modify_succ_cons,
        ih (by simpa using lt), List.cons_append]

theorem modify_append_right {α : Type} {front rest : List α} {f : α → α} {j : Nat} :
    (front ++ rest).modify (front.length + j) f = front ++ rest.modify j f := by
  induction front with
  | nil => simp
  | cons a front ih =>
    have next : (a :: front).length + j = front.length + j + 1 := by
      rw [List.length_cons]
      omega
    rw [next, List.cons_append, List.modify_succ_cons, ih, List.cons_append]

section Related

variable {α β : Type} {R : α → β → Prop} {l : List α} {l' : List β} {a : α} {k : Nat}

/-- Lists that are related element by element are related at each position. -/
theorem forall₂_getElem? (related : List.Forall₂ R l l') (here : l[k]? = some a) :
    ∃ b, l'[k]? = some b ∧ R a b := by
  induction related generalizing k with
  | nil => simp at here
  | @cons _ b _ _ head _ ih =>
    cases k with
    | zero =>
      cases Option.some.inj here
      exact ⟨b, rfl, head⟩
    | succ k => exact ih here

/-- Each element of the first list has one in the second. -/
theorem forall₂_of_mem (related : List.Forall₂ R l l') (mem : a ∈ l) : ∃ b ∈ l', R a b := by
  obtain ⟨k, here⟩ := List.mem_iff_getElem?.1 mem
  obtain ⟨b, there, holds⟩ := forall₂_getElem? related here
  exact ⟨b, List.mem_of_getElem? there, holds⟩

theorem forall₂_getLast? (related : List.Forall₂ R l l') (last : l.getLast? = some a) :
    ∃ b, l'.getLast? = some b ∧ R a b := by
  rw [List.getLast?_eq_getElem?] at last ⊢
  rw [← related.length_eq]
  exact forall₂_getElem? related last

end Related

/-- Relations between lists, element by element, are composed element by element. -/
theorem forall₂_trans {α β γ : Type} {R : α → β → Prop} {S : β → γ → Prop} {T : α → γ → Prop}
    {l : List α} {l' : List β} {l'' : List γ} (trans : ∀ {a b c}, R a b → S b c → T a c)
    (first : List.Forall₂ R l l') (second : List.Forall₂ S l' l'') : List.Forall₂ T l l'' := by
  induction first generalizing l'' with
  | nil =>
    cases List.forall₂_nil_left_iff.1 second
    exact .nil
  | cons head _ ih =>
    obtain ⟨c, rest, next, tail, rfl⟩ := List.forall₂_cons_left_iff.1 second
    exact .cons (trans head next) (ih tail)

/-- Lists that are related to one list element by element are related to each other. -/
theorem forall₂_join {α β γ : Type} {R : α → γ → Prop} {S : β → γ → Prop} {T : α → β → Prop}
    {l : List α} {l' : List β} {l'' : List γ} (first : List.Forall₂ R l l'')
    (second : List.Forall₂ S l' l'') (join : ∀ {a b c}, a ∈ l → b ∈ l' → R a c → S b c → T a b) :
    List.Forall₂ T l l' :=
  forall₂_trans (fun one two => join one.1 two.1 one.2 two.2)
    ((List.forall₂_and_left _ _).2 ⟨fun _ mem => mem, first⟩)
    ((List.forall₂_and_left _ _).2 ⟨fun _ mem => mem, second⟩).flip

/-- The node without the lists of its readers. -/
def Node.bare (n : Node) : Node := { n with outputs := n.facts.map fun fact => ⟨fact, []⟩ }

/-- The node with one slot reading an outlet: a slot that is there, or the one after the last. -/
def Node.reading (slot : Nat) (o : Outlet) (n : Node) : Node :=
  { n with
    inputs := if slot < n.inputs.length then n.inputs.set slot o else n.inputs ++ [o] }

/-- The node reading some more outlets in the slots after its last. -/
def Node.readingMore (outlets : List Outlet) (n : Node) : Node :=
  { n with inputs := n.inputs ++ outlets }

namespace Graph

variable {g g' : Graph} {o p : Outlet} {i j : Inlet} {id k : Nat}

/-- The graph without the lists of readers. -/
def bare (g : Graph) : Graph := { g with nodes := g.nodes.map Node.bare }

/-- The fact of an outlet, if it is there. -/
def fact? (g : Graph) (o : Outlet) : Option Fact := (g.output? o).map Output.fact

/-- Those who read an outlet; an outlet that is not there has no readers. -/
def readers (g : Graph) (o : Outlet) : List Inlet := (g.output? o).elim [] Output.successors

/-- Every inlet reads an outlet that is there, and is listed once by it and by no other. -/
structure Linked (g : Graph) : Prop where
  there : ∀ {i o}, g.source? i = some o → (g.output? o).isSome
  listed : ∀ o i, (g.readers o).count i = if g.source? i = some o then 1 else 0

theorem Linked.mem_readers (linked : g.Linked) : i ∈ g.readers o ↔ g.source? i = some o := by
  rw [← List.count_pos_iff, linked.listed]
  split <;> simp_all

/-- Every inlet reads an outlet that is there, and the outlets that list it are those that it
reads. -/
structure Symmetric (g : Graph) : Prop where
  there : ∀ {i o}, g.source? i = some o → (g.output? o).isSome
  mem_readers : ∀ {i o}, i ∈ g.readers o ↔ g.source? i = some o

theorem Linked.symmetric (linked : g.Linked) : g.Symmetric := ⟨linked.there, linked.mem_readers⟩

/-- Edges that were known at both ends are so in another graph. -/
structure KeepsEdges (g g' : Graph) : Prop where
  symmetric : g.Symmetric → g'.Symmetric
  linked : g.Linked → g'.Linked

theorem KeepsEdges.refl : g.KeepsEdges g := ⟨id, id⟩

theorem KeepsEdges.trans {g'' : Graph} (first : g.KeepsEdges g') (second : g'.KeepsEdges g'') :
    g.KeepsEdges g'' :=
  ⟨fun symmetric => second.symmetric (first.symmetric symmetric),
    fun linked => second.linked (first.linked linked)⟩

/-- Nothing but the table matters, and of that what is read, who is listed and which outlets are
there. -/
theorem KeepsEdges.of_eq (sources : ∀ i, g'.source? i = g.source? i)
    (readers : ∀ o, g'.readers o = g.readers o)
    (there : ∀ o, (g.output? o).isSome → (g'.output? o).isSome) : g.KeepsEdges g' where
  symmetric symmetric := by
    refine ⟨fun {i o} read => ?_, fun {i o} => ?_⟩
    · rw [sources] at read
      exact there o (symmetric.there read)
    · rw [readers, sources, symmetric.mem_readers]
  linked linked := by
    refine ⟨fun {i o} read => ?_, fun o i => ?_⟩
    · rw [sources] at read
      exact there o (linked.there read)
    · rw [readers, sources, linked.listed]

/-! ## Looking into a graph -/

/-- Graphs are equal when they are equal at every position. -/
theorem eq_of_getElem?_eq (nodes : ∀ k : Nat, g.nodes[k]? = g'.nodes[k]?)
    (inputs : g.inputs = g'.inputs)
    (outputs : g.outputs = g'.outputs) : g = g' := by
  rcases g with ⟨_, _, _⟩
  rcases g' with ⟨_, _, _⟩
  simp only [Graph.mk.injEq]
  exact ⟨List.ext_getElem? nodes, inputs, outputs⟩

theorem output?_eq_some {out : Output} :
    g.output? o = some out ↔ ∃ n, g.nodes[o.node]? = some n ∧ n.outputs[o.slot]? = some out := by
  simp [output?, Option.bind_eq_some_iff]

theorem source?_eq_some :
    g.source? i = some o ↔ ∃ n, g.nodes[i.node]? = some n ∧ n.inputs[i.slot]? = some o := by
  simp [source?, Option.bind_eq_some_iff]

theorem outletFact_eq_ok {fact : Fact} : g.outletFact o = .ok fact ↔ g.fact? o = some fact := by
  simp only [outletFact, fact?, Checked.bind_eq_ok, Checked.ofOption_eq_ok, Checked.pure_eq_ok,
    Option.map_eq_some_iff, output?_eq_some]
  constructor
  · rintro ⟨n, node, out, output, rfl⟩
    exact ⟨out, ⟨n, node, output⟩, rfl⟩
  · rintro ⟨out, ⟨n, node, output⟩, rfl⟩
    exact ⟨n, node, out, output, rfl⟩

theorem isSome_output?_iff_fact? : (g.output? o).isSome ↔ ∃ fact, g.fact? o = some fact := by
  simp [fact?, Option.isSome_iff_exists]

theorem lt_size_of_isSome (there : (g.output? o).isSome) : o.node < g.size := by
  obtain ⟨output, found⟩ := Option.isSome_iff_exists.1 there
  obtain ⟨n, here, -⟩ := output?_eq_some.1 found
  exact (List.getElem?_eq_some_iff.1 here).1

theorem successorsOf_eq_ok {l : List Inlet} :
    g.successorsOf o = .ok l ↔ (g.output? o).isSome ∧ g.readers o = l := by
  cases h : g.output? o <;> simp [successorsOf, outputAt, readers, h, Checked.ofPresent]

/-! ## What the lists of readers do not change -/

theorem bare_nodes : g.bare.nodes = g.nodes.map Node.bare := rfl

@[simp] theorem bare_size : g.bare.size = g.size := by
  simp [size, bare]

theorem bare_getElem? : g.bare.nodes[k]? = g.nodes[k]?.map Node.bare := by
  simp [bare]

theorem source?_bare : g.bare.source? i = g.source? i := by
  simp only [source?, bare_getElem?, Option.bind_eq_bind, Option.bind_map]
  rfl

theorem fact?_bare : g.bare.fact? o = g.fact? o := by
  simp only [fact?, output?, bare_getElem?, Option.bind_eq_bind, Option.bind_map, Option.map_bind]
  congr 1
  funext n
  simp [Node.bare, Node.facts, Function.comp_def]

/-- Graphs that differ in the lists of readers only have the same facts. -/
theorem fact?_congr (same : g.bare = g'.bare) : g.fact? = g'.fact? := by
  funext o
  rw [← fact?_bare, same, fact?_bare]

theorem modifyNode_getElem? {f : Node → Node} :
    (g.modifyNode id f).nodes[k]? = if id = k then g.nodes[k]?.map f else g.nodes[k]? := by
  simp [modifyNode, List.getElem?_modify]
  split <;> simp

theorem bare_modifySuccessors {f : List Inlet → List Inlet} :
    (g.modifySuccessors o f).bare = g.bare := by
  have same (n : Node) (slot : Nat) : Node.bare { n with
      outputs := n.outputs.modify slot fun out => { out with successors := f out.successors } } =
      n.bare := by
    simp only [Node.bare, Node.facts, Node.mk.injEq, List.map_map, true_and, and_true]
    apply List.ext_getElem?
    intro k
    simp only [List.getElem?_map, List.getElem?_modify]
    cases n.outputs[k]? <;> simp
    split <;> simp
  refine eq_of_getElem?_eq (fun k => ?_) rfl rfl
  simp only [bare_getElem?, modifySuccessors, modifyNode_getElem?]
  split
  · simp [Function.comp_def, same]
  · rfl

theorem output?_modifySuccessors {f : List Inlet → List Inlet} :
    (g.modifySuccessors o f).output? p =
      if p = o then (g.output? p).map fun out => { out with successors := f out.successors }
      else g.output? p := by
  rcases o with ⟨node, slot⟩
  rcases p with ⟨node', slot'⟩
  simp only [output?, modifySuccessors, modifyNode_getElem?]
  by_cases sameNode : node = node'
  · subst sameNode
    cases g.nodes[node]? with
    | none => simp
    | some n =>
      simp only [if_true, Option.map_some, Option.bind_eq_bind, Option.bind_some,
        List.getElem?_modify]
      by_cases sameSlot : slot = slot'
      · subst sameSlot
        simp
      · simp [sameSlot, Ne.symm sameSlot]
  · rw [if_neg sameNode, if_neg (by simp [Ne.symm sameNode])]

theorem readers_modifySuccessors {f : List Inlet → List Inlet} (there : (g.output? o).isSome) :
    (g.modifySuccessors o f).readers p = if p = o then f (g.readers p) else g.readers p := by
  simp only [readers, output?_modifySuccessors]
  split
  · next same =>
    subst same
    rcases Option.isSome_iff_exists.1 there with ⟨out, output⟩
    simp [output]
  · rfl

/-! ## Linking -/

/-- The graph with an inlet taken off the outlet that it reads, if it reads one. -/
def unlink (g : Graph) (i : Inlet) : Graph :=
  (g.source? i).elim g fun previous => g.modifySuccessors previous (·.filter (· ≠ i))

/-- The graph with an inlet reading an outlet. -/
def link (g : Graph) (o : Outlet) (i : Inlet) : Graph :=
  ((g.unlink i).modifySuccessors o (· ++ [i])).modifyNode i.node (Node.reading i.slot o)

theorem bare_unlink : (g.unlink i).bare = g.bare := by
  unfold unlink
  cases g.source? i with
  | none => rfl
  | some previous => exact bare_modifySuccessors

theorem isSome_output?_congr (same : g.bare = g'.bare) :
    (g.output? o).isSome = (g'.output? o).isSome := by
  have fact := congrFun (fact?_congr same) o
  simp only [fact?] at fact
  rw [← Option.isSome_map (f := Output.fact), fact, Option.isSome_map]

theorem modifyNode_congr {f f' : Node → Node}
    (same : ∀ n, g.nodes[id]? = some n → f n = f' n) :
    g.modifyNode id f = g.modifyNode id f' := by
  refine eq_of_getElem?_eq (fun k => ?_) rfl rfl
  rw [modifyNode_getElem?, modifyNode_getElem?]
  split
  · next here =>
    subst here
    cases node : g.nodes[id]? with
    | none => rfl
    | some n => simp [same n node]
  · rfl

/-- Nodes of graphs that differ in the lists of readers only read the same. -/
theorem inputs_of_bare_eq {n n' : Node} (same : g.bare = g'.bare) (node : g.nodes[k]? = some n)
    (node' : g'.nodes[k]? = some n') : n.inputs = n'.inputs := by
  have bares : g.bare.nodes[k]? = g'.bare.nodes[k]? := by rw [same]
  rw [bare_getElem?, bare_getElem?, node, node', Option.map_some, Option.map_some] at bares
  have same : n.bare.inputs = n'.bare.inputs := by rw [Option.some.inj bares]
  exact same

theorem detach_eq_ok {u : Unit} :
    detach o i g = .ok u g' ↔
      (g.output? o).isSome ∧ g' = g.modifySuccessors o (·.filter (· ≠ i)) := by
  simp only [detach, outputAt, Edit.get_bind_apply, Edit.lift_bind_eq_ok,
    Checked.ofPresent_eq_ok, Edit.set_apply, EStateM.Result.ok.injEq, true_and,
    Option.isSome_iff_exists, exists_and_right]
  rw [and_congr_right_iff]
  intro _
  exact eq_comm

/-- What `connect` does once both nodes are found: the outlet lists the inlet, and the node of
that reads it. -/
def enter (outlet : Outlet) (inlet : Inlet) (consumer : Node) : Edit Graph Unit := do
  modify fun g => g.modifySuccessors outlet (· ++ [inlet])
  if inlet.slot = consumer.inputs.length then
    modify fun g => g.modifyNode inlet.node fun n => { n with inputs := n.inputs ++ [outlet] }
  else if inlet.slot < consumer.inputs.length then
    modify fun g => g.modifyNode inlet.node fun n =>
      { n with inputs := n.inputs.set inlet.slot outlet }
  else
    Checked.refuse (α := Unit) (.inletOutOfOrder inlet.slot consumer)

theorem connect_eq : connect o i = (do
    let g ← get
    let producer ← Checked.ofOption (.invalidOutlet o) g.nodes[o.node]?
    let consumer ← Checked.ofOption (.invalidInlet i) g.nodes[i.node]?
    Checked.require (o.slot < producer.outputs.length) (.outletPastNode o producer)
    (consumer.inputs[i.slot]?).elim (pure ()) fun previous => detach previous i
    enter o i consumer) := by
  unfold connect
  refine bind_congr fun g => bind_congr fun producer => bind_congr fun consumer =>
    bind_congr fun _ => ?_
  cases consumer.inputs[i.slot]? <;> rfl

/-- What a successful `connect` asks for and what it does. -/
theorem connect_eq_ok {u : Unit} (run : connect o i g = .ok u g') :
    (g.output? o).isSome ∧ (∃ n, g.nodes[i.node]? = some n ∧ i.slot ≤ n.inputs.length) ∧
      g' = g.link o i := by
  simp only [connect, Edit.get_bind_apply, Edit.lift_bind_eq_ok, Checked.ofOption_eq_ok,
    Checked.require_eq_ok, decide_eq_true_eq] at run
  rcases run with ⟨producer, producerAt, consumer, consumerAt, -, slotLt, run⟩
  have there : (g.output? o).isSome := by
    rw [Option.isSome_iff_exists]
    exact ⟨_, output?_eq_some.2 ⟨producer, producerAt, List.getElem?_eq_getElem slotLt⟩⟩
  have source : g.source? i = consumer.inputs[i.slot]? := by
    simp [source?, consumerAt]
  have inputs (n : Node)
      (node : ((g.unlink i).modifySuccessors o (· ++ [i])).nodes[i.node]? = some n) :
      n.inputs = consumer.inputs :=
    inputs_of_bare_eq (bare_modifySuccessors.trans bare_unlink) node consumerAt
  cases read : consumer.inputs[i.slot]? with
  | none =>
    rw [read] at source
    have unlinked : g.unlink i = g := by rw [unlink, source, Option.elim_none]
    have past : consumer.inputs.length ≤ i.slot := List.getElem?_eq_none_iff.1 read
    simp only [read, Edit.modify_bind_apply] at run
    split at run
    · next last =>
      rw [Edit.modify_apply] at run
      refine ⟨there, ⟨consumer, consumerAt, Nat.le_of_eq last⟩, ?_⟩
      rw [link, ← (EStateM.Result.ok.inj run).2]
      rw [unlinked] at inputs ⊢
      refine modifyNode_congr fun n node => ?_
      rw [Node.reading, inputs n node, if_neg (by omega)]
    · rw [if_neg (by omega)] at run
      simp at run
  | some previous =>
    rw [read] at source
    have slotLt : i.slot < consumer.inputs.length := (List.getElem?_eq_some_iff.1 read).1
    have unlinked : g.unlink i = g.modifySuccessors previous (·.filter (· ≠ i)) := by
      rw [unlink, source, Option.elim_some]
    simp only [read, Edit.bind_eq_ok, detach_eq_ok, Edit.modify_bind_apply] at run
    rcases run with ⟨_, _, ⟨-, rfl⟩, run⟩
    rw [if_neg (by omega), if_pos slotLt, Edit.modify_apply] at run
    refine ⟨there, ⟨consumer, consumerAt, Nat.le_of_lt slotLt⟩, ?_⟩
    rw [link, ← (EStateM.Result.ok.inj run).2]
    rw [unlinked] at inputs ⊢
    refine modifyNode_congr fun n node => ?_
    rw [Node.reading, inputs n node, if_pos slotLt]

/-- Apart from the lists of readers, linking changes one node. -/
theorem bare_link : (g.link o i).bare = g.bare.modifyNode i.node (Node.reading i.slot o) := by
  have pushed : ((g.unlink i).modifySuccessors o (· ++ [i])).bare = g.bare :=
    bare_modifySuccessors.trans bare_unlink
  rw [← pushed, link]
  refine eq_of_getElem?_eq (fun k => ?_) rfl rfl
  simp only [bare_getElem?, modifyNode_getElem?]
  split <;> simp [Function.comp_def, Node.bare, Node.reading, Node.facts]

theorem fact?_link : (g.link o i).fact? p = g.fact? p := by
  rw [← fact?_bare, bare_link, ← fact?_bare (g := g)]
  simp only [fact?, output?, modifyNode_getElem?]
  split
  · cases g.bare.nodes[p.node]? <;> simp [Node.reading]
  · rfl

theorem source?_link {n : Node} (node : g.nodes[i.node]? = some n)
    (slot : i.slot ≤ n.inputs.length) :
    (g.link o i).source? j = if j = i then some o else g.source? j := by
  rcases i with ⟨inode, islot⟩
  rcases j with ⟨jnode, jslot⟩
  rw [← source?_bare, bare_link, ← source?_bare (g := g)]
  simp only [source?, modifyNode_getElem?, Option.bind_eq_bind]
  by_cases sameNode : inode = jnode
  · subst sameNode
    simp only [bare_getElem?, node, if_true, Option.map_some, Option.bind_some, Node.reading,
      Node.bare, Inlet.mk.injEq, true_and]
    dsimp only at slot
    split
    · next within =>
      simp only [List.getElem?_set, within, if_true, eq_comm (a := islot)]
    · next last =>
      rcases Nat.lt_trichotomy jslot n.inputs.length with lt | eq | gt
      · rw [List.getElem?_append_left lt, if_neg (by omega)]
      · rw [List.getElem?_append_right (by omega), if_pos (by omega)]
        simp [eq]
      · rw [List.getElem?_append_right (by omega), if_neg (by omega),
          List.getElem?_eq_none (by simp; omega), List.getElem?_eq_none (by omega)]
  · rw [if_neg sameNode, if_neg (by simp [Ne.symm sameNode])]

theorem readers_modifyNode {f : Node → Node} (same : ∀ n, (f n).outputs = n.outputs) :
    (g.modifyNode id f).readers p = g.readers p := by
  simp only [readers, output?, modifyNode_getElem?]
  split
  · cases g.nodes[p.node]? <;> simp [same]
  · rfl

theorem readers_link (read_there : ∀ {i o}, g.source? i = some o → (g.output? o).isSome)
    (there : (g.output? o).isSome) :
    (g.link o i).readers p =
      (if g.source? i = some p then (g.readers p).filter (· ≠ i) else g.readers p) ++
        if p = o then [i] else [] := by
  rw [link, readers_modifyNode (f := Node.reading i.slot o) fun _ => rfl,
    readers_modifySuccessors (by rwa [isSome_output?_congr bare_unlink])]
  have unlinked : (g.unlink i).readers p =
      if g.source? i = some p then (g.readers p).filter (· ≠ i) else g.readers p := by
    unfold unlink
    cases read : g.source? i with
    | none => simp
    | some previous =>
      rw [Option.elim_some, readers_modifySuccessors (read_there read)]
      simp only [Option.some.injEq, eq_comm]
  rw [unlinked]
  split <;> simp

section Link

variable {n : Node} (there : (g.output? o).isSome) (node : g.nodes[i.node]? = some n)
  (slot : i.slot ≤ n.inputs.length)
include there node slot

/-- What the inlets read is there after one of them reads another outlet that is there. -/
theorem there_link (read_there : ∀ {i o}, g.source? i = some o → (g.output? o).isSome)
    (read : (g.link o i).source? j = some p) : ((g.link o i).output? p).isSome := by
  rw [isSome_output?_iff_fact?, fact?_link, ← isSome_output?_iff_fact?]
  rw [source?_link node slot] at read
  split at read
  · cases Option.some.inj read
    exact there
  · exact read_there read

/-- An inlet is listed by the outlet that it reads now, and the others by those that they read
before. -/
theorem Symmetric.link (symmetric : g.Symmetric) : (g.link o i).Symmetric where
  there := there_link there node slot symmetric.there
  mem_readers := by
    intro j p
    rw [readers_link symmetric.there there, source?_link node slot, List.mem_append]
    have added : j ∈ (if p = o then [i] else []) ↔ p = o ∧ j = i := by
      split <;> simp_all
    have kept : j ∈ (if g.source? i = some p then (g.readers p).filter (· ≠ i) else g.readers p) ↔
        j ≠ i ∧ g.source? j = some p := by
      split
      · simp [symmetric.mem_readers, and_comm]
      · next other =>
        rw [symmetric.mem_readers]
        exact ⟨fun read => ⟨fun same => other (same ▸ read), read⟩, And.right⟩
    rw [kept, added]
    by_cases same : j = i
    · simp [same, eq_comm]
    · simp [same]

theorem Linked.link (linked : g.Linked) : (g.link o i).Linked where
  there := there_link there node slot linked.there
  listed := by
    intro p j
    rw [readers_link linked.there there, source?_link node slot, List.count_append]
    have before := linked.listed p j
    by_cases same : j = i
    · subst same
      have gone : (if g.source? j = some p then (g.readers p).filter (· ≠ j)
          else g.readers p).count j = 0 := by
        split
        · rw [List.count_eq_zero]
          simp
        · next other => rw [before, if_neg other]
      rw [gone]
      by_cases here : p = o
      · simp [here]
      · simp [here, Ne.symm here]
    · have kept : (if g.source? i = some p then (g.readers p).filter (· ≠ i)
          else g.readers p).count j = (g.readers p).count j := by
        split
        · rw [List.count_filter (by simpa using same)]
        · rfl
      have added : (if p = o then [i] else []).count j = 0 := by
        split <;> simp [Ne.symm same]
      rw [kept, added, before, if_neg same, Nat.add_zero]

/-- Linking an inlet to an outlet that is there keeps every edge known at both ends. -/
theorem keepsEdges_link : g.KeepsEdges (g.link o i) :=
  ⟨.link there node slot, .link there node slot⟩

end Link

/-! ## Linking slot after slot -/

theorem modifyNode_modifyNode {f f' : Node → Node} :
    (g.modifyNode id f).modifyNode id f' = g.modifyNode id fun n => f' (f n) := by
  simp only [modifyNode, List.modify_modify_eq]
  rfl

/-- What a loop that links the next slots of a node to outlets does: the outlets are there, the
node reads them in its new slots, and nothing else has changed. -/
theorem linkSlots_eq_ok (find : Outlet → Checked Outlet) (sources : List Outlet) {u : Unit}
    {n : Node} (node : g.nodes[id]? = some n)
    (run : (forM (sources.zipIdx n.inputs.length) fun (source, slot) => do
      let found ← liftM (find source)
      connect found ⟨id, slot⟩ : Edit Graph Unit) g = .ok u g') :
    ∃ outlets, List.Forall₂ (fun source found => find source = .ok found) sources outlets ∧
      (∀ o ∈ outlets, (g.output? o).isSome) ∧
      g'.bare = g.bare.modifyNode id (Node.readingMore outlets) ∧ g.KeepsEdges g' := by
  induction sources generalizing g n with
  | nil =>
    rcases Edit.pure_eq_ok.1 run with ⟨-, rfl⟩
    have nothing : Node.readingMore [] = fun m => m := funext fun m => by simp [Node.readingMore]
    have same : g.bare = g.bare.modifyNode id (Node.readingMore []) := by
      rw [nothing, modifyNode]
      exact congrArg (Graph.mk · g.inputs g.outputs) (List.modify_id id g.bare.nodes).symm
    exact ⟨[], .nil, by simp, same, .refl⟩
  | cons source rest ih =>
    rw [List.zipIdx_cons, List.forM_cons] at run
    rcases Edit.bind_eq_ok.1 run with ⟨_, g₁, head, tail⟩
    rcases Edit.lift_bind_eq_ok.1 head with ⟨found, foundAt, head⟩
    rcases connect_eq_ok head with ⟨there, -, rfl⟩
    have bareNode : (g.link found ⟨id, n.inputs.length⟩).bare.nodes[id]? =
        some (Node.readingMore [found] n.bare) := by
      rw [bare_link, modifyNode_getElem?, if_pos rfl, bare_getElem?, node]
      simp [Node.reading, Node.readingMore, Node.bare]
    rw [bare_getElem?] at bareNode
    rcases Option.map_eq_some_iff.1 bareNode with ⟨n₁, node₁, bare₁⟩
    have inputs₁ : n₁.inputs = n.inputs ++ [found] := congrArg Node.inputs bare₁
    have length₁ : n₁.inputs.length = n.inputs.length + 1 := by rw [inputs₁]; simp
    rw [← length₁] at tail
    rcases ih node₁ tail with ⟨outlets, founds, allThere, bare', keeps⟩
    refine ⟨found :: outlets, .cons foundAt founds, ?_, ?_, ?_⟩
    · intro o mem
      rcases List.mem_cons.1 mem with rfl | mem
      · exact there
      · have thereAfter := allThere o mem
        rw [isSome_output?_iff_fact?] at thereAfter ⊢
        simpa only [fact?_link] using thereAfter
    · rw [bare', bare_link, modifyNode_modifyNode]
      refine modifyNode_congr fun m nodeAt => ?_
      rw [bare_getElem?, node] at nodeAt
      cases Option.some.inj nodeAt
      simp [Node.reading, Node.readingMore, Node.bare]
    · exact (keepsEdges_link there node (Nat.le_refl _)).trans keeps

end Graph

end EvenPad
