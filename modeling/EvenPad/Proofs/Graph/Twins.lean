import EvenPad.Proofs.Graph.Compact
import Mathlib.Data.List.Forall2

/-!
Graphs that differ in the positions of their nodes. Two graphs are `Twins` if a relation between
positions leads from the one to the other along all that their outputs depend on and along their
inputs. Main statement: `Twins.compacted_eq`, the compactions of twins are equal.
-/

namespace EvenPad

variable {R : Nat → Nat → Prop}

/-- Outlets of nodes that correspond. -/
def Outlet.Alike (R : Nat → Nat → Prop) (o o' : Outlet) : Prop :=
  R o.node o'.node ∧ o.slot = o'.slot

theorem Outlet.biUnique_alike (unique : Relator.BiUnique R) :
    Relator.BiUnique (Outlet.Alike R) := by
  constructor
  · rintro ⟨i, s⟩ o ⟨j, t⟩ left right
    rw [Outlet.mk.injEq]
    exact ⟨unique.1 left.1 right.1, left.2.trans right.2.symm⟩
  · rintro o ⟨i, s⟩ ⟨j, t⟩ left right
    rw [Outlet.mk.injEq]
    exact ⟨unique.2 left.1 right.1, left.2.symm.trans right.2⟩

namespace Graph

/-- The same is known of two nodes, and what they read corresponds. Of an input that no output
depends on the first outlet matters only, and what an input reads does not matter at all. -/
structure Counterparts (R : Nat → Nat → Prop) (a b : Graph) (i j : Nat) (n m : Node) : Prop where
  there : a.nodes[i]? = some n
  there' : b.nodes[j]? = some m
  name : n.name = m.name
  op : n.op = m.op
  fact : n.facts.take 1 = m.facts.take 1
  live : a.Live i → b.Live j → n.facts = m.facts ∧ n.provenance = m.provenance
  reads : ⟨i, 0⟩ ∉ a.inputs → List.Forall₂ (Outlet.Alike R) n.inputs m.inputs

/-- Two graphs are the same up to the positions of their nodes. Nodes that are not related are
nodes that the outputs do not depend on. -/
structure Twins (R : Nat → Nat → Prop) (a b : Graph) : Prop where
  unique : Relator.BiUnique R
  alike : ∀ {i j : Nat}, R i j → ∃ n m, Counterparts R a b i j n m
  inputs : List.Forall₂ (Outlet.Alike R) a.inputs b.inputs
  outputs : List.Forall₂ (Outlet.Alike R) a.outputs b.outputs

variable {a b : Graph} {i j : Nat} {n m : Node}

/-! ## Evaluation orders -/

namespace Twins

variable (twins : Twins R a b)
include twins

theorem mem_iff {is js : List Nat} (rel : R i j)
    (lists : List.Forall₂ R is js) : i ∈ is ↔ j ∈ js :=
  List.rel_mem twins.unique rel lists

/-- Nodes that correspond are listed as inputs, or are not. -/
theorem mem_listed (rel : R i j) :
    i ∈ a.inputs.map Outlet.node ↔ j ∈ b.inputs.map Outlet.node := by
  refine twins.mem_iff rel ?_
  rw [List.forall₂_map_left_iff, List.forall₂_map_right_iff]
  exact twins.inputs.imp fun _ _ alike => alike.1

/-- What a node waits for corresponds to what the other waits for. -/
theorem before_iff {is js : List Nat} (inputs : List.Forall₂ (Outlet.Alike R) n.inputs m.inputs)
    (orders : List.Forall₂ R is js) :
    (∀ source ∈ n.inputs, source.node ∈ is) ↔ ∀ source ∈ m.inputs, source.node ∈ js := by
  generalize n.inputs = l at inputs
  generalize m.inputs = l' at inputs
  induction inputs with
  | nil => simp
  | cons alike _ ih =>
    rw [List.forall_mem_cons, List.forall_mem_cons, ih, twins.mem_iff alike.1 orders]

/-- A node is ready to be placed if the other is. -/
theorem ready_iff {is js : List Nat} (rel : R i j) (orders : List.Forall₂ R is js) :
    (i ∈ a.inputs.map Outlet.node ∨ ∃ n, a.nodes[i]? = some n ∧
      ∀ source ∈ n.inputs, source.node ∈ is) ↔
      (j ∈ b.inputs.map Outlet.node ∨ ∃ m, b.nodes[j]? = some m ∧
        ∀ source ∈ m.inputs, source.node ∈ js) := by
  obtain ⟨n, m, pair⟩ := twins.alike rel
  rw [← twins.mem_listed rel]
  refine or_congr_right' fun inner => ?_
  simp only [pair.there, pair.there', Option.some.injEq, exists_eq_left']
  exact twins.before_iff (pair.reads fun mem => inner (List.mem_map_of_mem mem)) orders

/-- The searches for the evaluation orders go side by side. -/
theorem place {stack stack' opened' is is' js js' : List Nat} {opened : List Nat}
    (run : Graph.place a.nodes (a.inputs.map Outlet.node) stack opened is = .ok is')
    (run' : Graph.place b.nodes (b.inputs.map Outlet.node) stack' opened' js = .ok js')
    (tails : List.Forall₂ R stack stack') (orders : List.Forall₂ R is js) :
    List.Forall₂ R is' js' := by
  refine place_induction (motive := fun stack is is' => ∀ {stack' opened' js js'},
    Graph.place b.nodes (b.inputs.map Outlet.node) stack' opened' js = .ok js' →
      List.Forall₂ R stack stack' → List.Forall₂ R is js →
      List.Forall₂ R is' js') ?_ ?_ ?_ ?_ run run'
      tails orders
  · intro is stack' opened' js js' run' tails orders
    cases tails
    rw [Graph.place] at run'
    exact Except.ok.inj run' ▸ orders
  · intro i rest is is' here ih stack' opened' js js' run' tails orders
    obtain ⟨j, rest', rel, others, rfl⟩ := List.forall₂_cons_left_iff.1 tails
    have here' := (twins.mem_iff rel orders).1 here
    rw [place_of_mem here'] at run'
    exact ih run' others orders
  · intro i rest is is' fresh ready ih stack' opened' js js' run' tails orders
    obtain ⟨j, rest', rel, others, rfl⟩ := List.forall₂_cons_left_iff.1 tails
    have fresh' := mt (twins.mem_iff rel orders).2 fresh
    rw [place_of_ready fresh' ((twins.ready_iff rel orders).1 ready)] at run'
    exact ih run' others (List.rel_append orders (.cons rel .nil))
  · intro i rest is is' n fresh inner there waits ih stack' opened' js js' run' tails orders
    obtain ⟨j, rest', rel, others, rfl⟩ := List.forall₂_cons_left_iff.1 tails
    have fresh' := mt (twins.mem_iff rel orders).2 fresh
    have inner' := mt (twins.mem_listed rel).2 inner
    obtain ⟨n', m, pair⟩ := twins.alike rel
    cases there.symm.trans pair.there
    have reads := pair.reads fun mem => inner (List.mem_map_of_mem mem)
    have waits' := mt (twins.before_iff reads orders).2 waits
    rw [place_of_waiting rest' fresh' inner' pair.there' waits'] at run'
    split at run'
    · cases run'
    · refine ih run' (List.rel_append ?_ (.cons rel others)) orders
      refine List.rel_filter ?_ ?_
      · intro i j rel
        simp [twins.mem_iff rel orders]
      · rw [List.forall₂_map_left_iff, List.forall₂_map_right_iff]
        exact reads.imp fun _ _ alike => alike.1

/-- Corresponding nodes are evaluated side by side. -/
theorem evalOrder {is js : List Nat} (ordered : a.evalOrder = .ok is)
    (ordered' : b.evalOrder = .ok js) :
    List.Forall₂ R is js := by
  simp only [Graph.evalOrder, orderFor, Checked.bind_eq_ok] at ordered ordered'
  obtain ⟨-, -, run⟩ := ordered
  obtain ⟨-, -, run'⟩ := ordered'
  refine twins.place run run' ?_ .nil
  rw [List.forall₂_reverse_iff, List.forall₂_map_left_iff, List.forall₂_map_right_iff]
  exact twins.outputs.imp fun _ _ alike => alike.1

end Twins

/-! ## Carrying nodes over -/

/-- Two renumberings have come to the same graph, and the same stands there for outlets that
correspond. -/
structure Renumbering.Alike (R : Nat → Nat → Prop) (r t : Renumbering) : Prop where
  graph : r.graph = t.graph
  found : ∀ {o o' : Outlet}, o.Alike R o' → r.wires.find? o = t.wires.find? o'

variable {r r' t t' : Renumbering} {w w' : Wires} {g g' : Graph} {u : Unit} {id : Nat}
  {log log' log₁ log₁' : Log} {inputs inputs' : List Outlet}

theorem Renumbering.Alike.addNode {slots new : Nat} (unique : Relator.BiUnique R)
    (alike : r.Alike R t) (rel : R i j) {o o' : Outlet} (same : o.Alike R o') :
    (r.wires.addNode slots i new).find? o = (t.wires.addNode slots j new).find? o' := by
  have here : o.node = i ↔ o'.node = j := by
    constructor
    · rintro rfl
      exact unique.2 same.1 rel
    · rintro rfl
      exact unique.1 same.1 rel
  rw [Wires.find?_addNode, Wires.find?_addNode, alike.found same, same.2]
  simp only [here]

/-- Outlets that correspond are located alike. -/
theorem Renumbering.Alike.located {outlets outlets' : List Outlet} (alike : r.Alike R t)
    (sames : List.Forall₂ (Outlet.Alike R) inputs inputs')
    (run : inputs.mapM r.located = .ok outlets) (run' : inputs'.mapM t.located = .ok outlets') :
    outlets = outlets' := by
  rw [Checked.mapM_eq_ok_iff] at run run'
  induction sames generalizing outlets outlets' with
  | nil =>
    cases run
    cases run'
    rfl
  | cons same _ ih =>
    obtain ⟨o, rest, here, tail, rfl⟩ := List.forall₂_cons_left_iff.1 run
    obtain ⟨o', rest', here', tail', rfl⟩ := List.forall₂_cons_left_iff.1 run'
    rw [located_eq_ok] at here here'
    rw [alike.found same, here'] at here
    rw [ih tail tail', Option.some.inj here]

/-- Inputs are connected alike if the same stands for them. -/
theorem connectMapped_congr
    (same : List.Forall₂ (fun o o' => w.find? o = w'.find? o') n.inputs m.inputs)
    (run : connectMapped w n id g = .ok u g') : connectMapped w' m id g = .ok u g' := by
  unfold connectMapped at run ⊢
  generalize n.inputs = l at same run
  generalize m.inputs = l' at same ⊢
  generalize 0 = start at run ⊢
  induction same generalizing start g with
  | nil => exact run
  | @cons o o' _ _ found _ ih =>
    rw [List.zipIdx_cons] at run ⊢
    change (forM (_ :: _) _ : Edit Graph Unit) g = _ at run
    change (forM (_ :: _) _ : Edit Graph Unit) g = _
    rw [List.forM_cons] at run ⊢
    simp only [Edit.bind_eq_ok, Edit.lift_eq_ok, Checked.ofOption_eq_ok] at run ⊢
    obtain ⟨⟨⟩, g₁, ⟨mapped, _, ⟨found', rfl⟩, connected⟩, rest⟩ := run
    exact ⟨⟨⟩, g₁, ⟨mapped, g, ⟨found ▸ found', rfl⟩, connected⟩, ih _ rest⟩

namespace Twins

variable (twins : Twins R a b) (referenced : a.Referenced) (referenced' : b.Referenced)
include twins referenced referenced'

/-- What nodes that correspond are carried over to is alike. -/
theorem carryNode (rel : R i j) (live : a.Live i) (live' : b.Live j) (alike : r.Alike R t)
    (run : carryNode a r i = .ok r') (run' : carryNode b t j = .ok t') : r'.Alike R t' := by
  obtain ⟨n, m, pair⟩ := twins.alike rel
  obtain ⟨facts, notes⟩ := pair.live live live'
  rcases r with ⟨made, w⟩
  rcases t with ⟨made', w'⟩
  obtain rfl : made = made' := alike.graph
  simp only [Graph.carryNode, Checked.bind_eq_ok, nodeAt, Checked.ofPresent_eq_ok, append_noted]
    at run run'
  obtain ⟨n', here, run⟩ := run
  obtain ⟨m', here', run'⟩ := run'
  cases pair.there.symm.trans here
  cases pair.there'.symm.trans here'
  have landing : n.landing made.size = m.landing made.size := by
    simp only [Node.landing, pair.name, pair.op, facts, notes]
  have slots : n.outputs.length = m.outputs.length := by
    rw [← Node.length_facts, ← Node.length_facts, facts]
  have found {o o' : Outlet} (same : o.Alike R o') :
      (w.addNode m.outputs.length i made.size).find? o =
        (w'.addNode m.outputs.length j made.size).find? o' :=
    alike.addNode twins.unique rel same
  have isInput : ⟨n.id, 0⟩ ∈ a.inputs ↔ ⟨m.id, 0⟩ ∈ b.inputs := by
    refine List.rel_mem (Outlet.biUnique_alike twins.unique) ?_ twins.inputs
    rw [referenced.ids here, referenced'.ids here']
    exact ⟨rel, rfl⟩
  rw [landing, slots] at run
  split at run
  · next isListed =>
    rw [if_pos (by simpa [isInput] using isListed)] at run'
    cases Checked.pure_eq_ok.1 run
    cases Checked.pure_eq_ok.1 run'
    exact ⟨rfl, found⟩
  · next inner =>
    rw [if_neg (by simpa [isInput] using inner)] at run'
    simp only [Checked.bind_eq_ok, Checked.pure_eq_ok] at run run'
    obtain ⟨⟨_, g₁⟩, connected, rfl⟩ := run
    obtain ⟨⟨_, g₂⟩, connected', rfl⟩ := run'
    have reads := pair.reads (by simpa [referenced.ids here] using inner)
    have connected :=
      connectMapped_congr (reads.imp fun _ _ => found) (Edit.runFrom_eq_ok.1 connected)
    cases connected.symm.trans (Edit.runFrom_eq_ok.1 connected')
    exact ⟨rfl, found⟩

/-- So is what nodes are carried over to one after the other. -/
theorem carryAll {is js : List Nat} (rels : List.Forall₂ R is js) (live : ∀ i ∈ is, a.Live i)
    (live' : ∀ j ∈ js, b.Live j) (alike : r.Alike R t)
    (run : is.foldlM (Graph.carryNode a) r = .ok r')
    (run' : js.foldlM (Graph.carryNode b) t = .ok t') : r'.Alike R t' := by
  induction rels generalizing r t with
  | nil =>
    cases Checked.pure_eq_ok.1 run
    cases Checked.pure_eq_ok.1 run'
    exact alike
  | cons rel _ ih =>
    obtain ⟨first, live⟩ := List.forall_mem_cons.1 live
    obtain ⟨first', live'⟩ := List.forall_mem_cons.1 live'
    rw [List.foldlM_cons, Checked.bind_eq_ok] at run run'
    obtain ⟨r₁, head, run⟩ := run
    obtain ⟨t₁, head', run'⟩ := run'
    exact ih live live'
      (twins.carryNode referenced referenced' rel first first' alike head head') run run'

/-- Inputs that nothing else carried over are carried over alike. -/
theorem carryInput {o o' : Outlet} (same : o.Alike R o') (mem : o ∈ a.inputs)
    (mem' : o' ∈ b.inputs) (alike : r.Alike R t) (run : carryInput a r o log = .ok r' log₁)
    (run' : carryInput b t o' log' = .ok t' log₁') : r'.Alike R t' := by
  rcases r with ⟨made, w⟩
  rcases t with ⟨made', w'⟩
  obtain rfl : made = made' := alike.graph
  rcases carryInput_eq_ok referenced mem run with
    ⟨rfl, isSome⟩ | ⟨n, there, rfl, -, none, graph, wires⟩
  · rcases carryInput_eq_ok referenced' mem' run' with ⟨rfl, -⟩ | ⟨_, -, -, -, none, -⟩
    · exact alike
    · rw [alike.found same, none] at isSome
      simp at isSome
  · rcases carryInput_eq_ok referenced' mem' run' with
      ⟨rfl, isSome⟩ | ⟨m, there', rfl, -, -, graph', wires'⟩
    · rw [← alike.found same, none] at isSome
      simp at isSome
    · obtain ⟨n', m', pair⟩ := twins.alike same.1
      cases there.symm.trans pair.there
      cases there'.symm.trans pair.there'
      have landing : (stub n).landing made.size = (stub m).landing made.size := by
        rw [Node.landing, Node.landing, facts_stub, facts_stub, pair.fact]
        simp only [stub, unnoted, pair.name, pair.op]
      refine ⟨by rw [graph, graph', landing], ?_⟩
      intro o o' same'
      rw [wires, wires']
      exact alike.addNode twins.unique same.1 same'

theorem carryInputs (sames : List.Forall₂ (Outlet.Alike R) inputs inputs')
    (among : ∀ o ∈ inputs, o ∈ a.inputs) (among' : ∀ o ∈ inputs', o ∈ b.inputs)
    (alike : r.Alike R t) (run : inputs.foldlM (Graph.carryInput a) r log = .ok r' log₁)
    (run' : inputs'.foldlM (Graph.carryInput b) t log' = .ok t' log₁') : r'.Alike R t' := by
  induction sames generalizing r t log log' with
  | nil =>
    obtain ⟨rfl, -⟩ := Edit.pure_eq_ok.1 run
    obtain ⟨rfl, -⟩ := Edit.pure_eq_ok.1 run'
    exact alike
  | cons same _ ih =>
    obtain ⟨first, among⟩ := List.forall_mem_cons.1 among
    obtain ⟨first', among'⟩ := List.forall_mem_cons.1 among'
    rw [List.foldlM_cons, Edit.bind_eq_ok] at run run'
    obtain ⟨r₁, _, head, run⟩ := run
    obtain ⟨t₁, _, head', run'⟩ := run'
    exact ih among among'
      (twins.carryInput referenced referenced' same first first' alike head head') run run'

/-- Twins have one compaction. -/
theorem compacted_eq (run : a.compacted log = .ok g log₁)
    (run' : b.compacted log' = .ok g' log₁') :
    g = g' := by
  simp only [compacted, Edit.bind_eq_ok, Edit.lift_eq_ok, Edit.pure_eq_ok] at run run'
  obtain ⟨is, _, ⟨ordered, rfl⟩, r₁, _, ⟨carried, rfl⟩, r₂, _, unused, inputs, _,
      ⟨locatedInputs, rfl⟩, outputs, _, ⟨locatedOutputs, rfl⟩, rfl, -⟩ := run
  obtain ⟨js, _, ⟨ordered', rfl⟩, t₁, _, ⟨carried', rfl⟩, t₂, _, unused', inputs', _,
    ⟨locatedInputs', rfl⟩, outputs', _, ⟨locatedOutputs', rfl⟩, rfl, -⟩ := run'
  have orders := twins.evalOrder ordered ordered'
  have carries := twins.carryAll referenced referenced' orders (evalOrder_eq_ok ordered).2.1
    (evalOrder_eq_ok ordered').2.1 ⟨rfl, fun _ => rfl⟩ carried carried'
  have alike := twins.carryInputs referenced referenced' twins.inputs
    (fun _ mem => mem) (fun _ mem => mem) carries
    unused unused'
  rw [alike.located twins.inputs locatedInputs locatedInputs',
    alike.located twins.outputs locatedOutputs locatedOutputs', alike.graph]

end Twins

end Graph

end EvenPad
