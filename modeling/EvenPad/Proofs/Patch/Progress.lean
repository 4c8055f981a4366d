import EvenPad.Proofs.Graph.Progress
import EvenPad.Proofs.Patch.Rewrite

/-!
When a patch can be built and applied. Main statements: `Patch.apply_ok`, a patch can be applied
if what it takes over is there and everything that it names is mapped to what is there once its
nodes came in; and `Draft.Describes.apply_ok`, for a patch that a draft describes.
-/

namespace EvenPad

/-! ## Building -/

namespace Patch

variable {target : Graph} {p : Patch} {o wire : Outlet} {fact : Fact} {id : Nat}

theorem tap_ok (known : target.fact? o = some fact) : ∃ x p', tap target o p = .ok x p' := by
  simp only [tap, Edit.get_bind_apply]
  cases found : p.incoming.find? (·.2 = o) with
  | some pair => exact ⟨pair.1, p, rfl⟩
  | none =>
    simp only [Edit.lift_bind_eq_ok, Graph.outletFact_eq_ok]
    exact ⟨⟨p.graph.size, 0⟩, _, fact, known, rfl⟩

theorem copyProvenance_ok (source : Node) (lt : id < p.graph.size) :
    ∃ p', copyProvenance source id p = .ok ⟨⟩ p' := by
  simp only [copyProvenance, Edit.get_bind_apply, Edit.lift_bind_eq_ok, Graph.nodeAt,
    Checked.ofPresent_eq_ok]
  exact ⟨_, _, List.getElem?_eq_getElem lt, rfl⟩

theorem shunt_ok {substitute : Fact} (known : target.fact? o = some fact)
    (made : p.graph.fact? wire = some substitute) (same : fact.sameType substitute = true) :
    ∃ p', shunt target o wire p = .ok ⟨⟩ p' := by
  simp only [shunt, Edit.get_bind_apply, Edit.lift_bind_eq_ok, Graph.outletFact_eq_ok,
    Checked.require_eq_ok]
  exact ⟨_, fact, known, substitute, made, ⟨⟩, same, rfl⟩

end Patch

namespace Draft.Describes

variable {d : Draft} {target : Graph} {p : Patch} {o x : Outlet} {fact : Fact} {name : String}
  {k : Nat} (described : d.Describes target p)
include described

/-- An outlet of the target can be tapped. -/
theorem tap_ok (first : d.nodes = []) (known : target.fact? o = some fact) :
    ∃ tapped k p', Patch.tap target o p = .ok ⟨k, 0⟩ p' ∧ tapped[k]? = some (o, fact) ∧
      (∀ {j : Nat} {tap : Outlet × Fact}, d.tapped[j]? = some tap → tapped[j]? = some tap) ∧
      Describes { d with tapped := tapped } target p' := by
  obtain ⟨_, p', run⟩ := Patch.tap_ok (p := p) known
  obtain ⟨tapped, k, fact', rfl, there, stays, -, described⟩ := described.tap first run
  cases known.symm.trans (described.known (List.mem_of_getElem? there))
  exact ⟨tapped, k, p', run, there, stays, described⟩

theorem addConst_ok (name : String) (value : Tensor) :
    ∃ g, Graph.addConst name value p.graph = .ok (d.wire d.nodes.length) g ∧
      (d.push fun id => .fresh id name (.const value) [] (.constant value)).Describes target
        { p with graph := g } := by
  obtain ⟨g, run⟩ := Graph.addConst_ok (g := p.graph) name value
  obtain ⟨same, described⟩ := described.addConst run
  exact ⟨g, same ▸ run, described⟩

/-- A node can be wired to what its operator takes. -/
theorem wiring_ok (name : String) (op : Op) {inputs : List Outlet} {facts : List Fact}
    (inner : op.isSource = false)
    (known : List.Forall₂ (fun o f => p.graph.fact? o = some f) inputs facts)
    (inferred : op.outputFact facts = .ok fact) :
    ∃ g, Graph.wire name op inputs p.graph = .ok (d.wire d.nodes.length) g ∧
      (d.push fun id => .fresh id name op inputs fact).Describes target
        { p with graph := g } := by
  obtain ⟨_, g, run⟩ := Graph.wire_ok name known inferred
  obtain ⟨rfl, facts', fact', known', inferred', described⟩ := described.wiring inner run
  cases Graph.facts_unique known known'
  cases inferred.symm.trans inferred'
  exact ⟨g, run, described⟩

theorem copyProvenance_ok (k : Nat) (source : Node) (here : k < d.nodes.length) :
    ∃ p', Patch.copyProvenance source (d.tapped.length + k) p = .ok ⟨⟩ p' ∧
      p'.graph.fact? = p.graph.fact? ∧ (d.note k source.provenance).Describes target p' := by
  obtain ⟨p', run⟩ := Patch.copyProvenance_ok source
    (show d.tapped.length + k < p.graph.size by rw [described.size]; omega)
  exact ⟨p', run, fact?_copyProvenance run, described.copyProvenance run⟩

end Draft.Describes

/-! ## Applying -/

/-- The facts stay where an outlet is taken over. -/
theorem Graph.fact?_redirect {g : Graph} {taken taker : Outlet} :
    (g.redirect taken taker).fact? = g.fact? := by
  funext o
  simp only [fact?, output?, Graph.redirect, List.getElem?_map]
  cases g.nodes[o.node]? <;> rfl

theorem Graph.fact?_shunted {g : Graph} {w : Wires} {shunts : List (Outlet × Outlet)} :
    (g.shunted w shunts).fact? = g.fact? := by
  induction shunts generalizing g with
  | nil => rfl
  | cons shunt rest ih =>
    unfold Graph.shunted at ih ⊢
    rw [List.foldl_cons, ih, fact?_redirect]

namespace Patch

variable {g : Graph} {context : List String} {touched : List Nat} {w : Wires}

/-- Nodes can be brought in if the sources among them are taps. -/
theorem insertAll_ok (context : List String) {nodes : List Node} {i : Insertion}
    (taps : ∀ n ∈ nodes, n.op.isSource = true → (i.wires.find? ⟨n.id, 0⟩).isSome) :
    ∃ i' g', nodes.foldlM (insertNode context) i g = .ok i' g' := by
  induction nodes generalizing i g with
  | nil => exact ⟨i, g, rfl⟩
  | cons n rest ih =>
    obtain ⟨first, taps⟩ := List.forall_mem_cons.1 taps
    have insert : ∃ i₁ g₁, insertNode context i n g = .ok i₁ g₁ ∧
        ∀ o, (i.wires.find? o).isSome → (i₁.wires.find? o).isSome := by
      cases source : n.op.isSource with
      | true =>
        refine ⟨i, g, ?_, fun _ found => found⟩
        simp only [insertNode, source, if_true, Edit.lift_bind_eq_ok, Checked.require_eq_ok]
        exact ⟨⟨⟩, first source, rfl⟩
      | false =>
        refine ⟨⟨i.wires.addNode n.outputs.length n.id g.size, i.added ++ [(g.size, n.inputs)]⟩,
          _, by simp only [insertNode, source, Bool.false_eq_true, if_false]; rfl, ?_⟩
        intro o found
        rw [Wires.find?_addNode]
        split
        · rfl
        · exact found
    obtain ⟨i₁, g₁, inserted, kept⟩ := insert
    obtain ⟨i', g', rest⟩ := ih (i := i₁) (g := g₁) fun m mem isSource =>
      kept _ (taps m mem isSource)
    exact ⟨i', g', by rw [List.foldlM_cons]; exact Edit.bind_eq_ok.2 ⟨i₁, g₁, inserted, rest⟩⟩

/-- Readers can be rewired to an outlet that is there. -/
theorem redirectAll_ok (touched : List Nat) {readers : List Inlet} (symmetric : g.Symmetric)
    (there : (g.output? wire).isSome)
    (inlets : ∀ i ∈ readers, (g.source? i).isSome) :
    ∃ touched' g', readers.foldlM (redirect wire) touched g = .ok touched' g' := by
  induction readers generalizing g touched with
  | nil => exact ⟨touched, g, rfl⟩
  | cons reader rest ih =>
    obtain ⟨first, inlets⟩ := List.forall_mem_cons.1 inlets
    obtain ⟨previous, source⟩ := Option.isSome_iff_exists.1 first
    obtain ⟨n, node, read⟩ := Graph.source?_eq_some.1 source
    have slot : reader.slot ≤ n.inputs.length := Nat.le_of_lt (List.getElem?_eq_some_iff.1 read).1
    obtain ⟨_, connected⟩ := Graph.connect_ok there node slot symmetric.there
    obtain ⟨-, -, rfl⟩ := Graph.connect_eq_ok connected
    have stays : ((g.link wire reader).output? wire).isSome := by
      rw [Graph.isSome_output?_iff_fact?] at there ⊢
      simpa only [Graph.fact?_link] using there
    have others : ∀ i ∈ rest, ((g.link wire reader).source? i).isSome := by
      intro i mem
      rw [Graph.source?_link node slot]
      split
      · rfl
      · exact inlets i mem
    obtain ⟨touched', g', rest⟩ := @ih _ (if touched.contains reader.node then touched
      else touched ++ [reader.node]) (symmetric.link there node slot) stays others
    refine ⟨touched', g', ?_⟩
    rw [List.foldlM_cons]
    refine Edit.bind_eq_ok.2 ⟨_, _, ?_, rest⟩
    exact Edit.bind_eq_ok.2 ⟨⟨⟩, _, connected, rfl⟩

/-- An outlet that is there can be taken over by a wire that is mapped to one that is there. -/
theorem takeOver_ok (context : List String) (touched : List Nat) {taken mapped : Outlet}
    (symmetric : g.Symmetric) (found : w.find? wire = some mapped)
    (there : (g.output? mapped).isSome) (taken_there : (g.output? taken).isSome) :
    ∃ touched' g', takeOver context w touched (taken, wire) g = .ok touched' g' := by
  have inlets : ∀ i ∈ g.readers taken, (g.source? i).isSome := by
    intro i mem
    rw [symmetric.mem_readers.1 mem]
    rfl
  obtain ⟨touched', g', redirected⟩ := redirectAll_ok touched symmetric there inlets
  simp only [takeOver, Edit.lift_bind_eq_ok, Checked.ofOption_eq_ok, Edit.get_bind_apply,
    Graph.successorsOf_eq_ok]
  exact ⟨touched', _, mapped, found, _, ⟨taken_there, rfl⟩,
    Edit.bind_eq_ok.2 ⟨touched', g', redirected, rfl⟩⟩

theorem takeOverAll_ok (context : List String) (touched : List Nat)
    {shunts : List (Outlet × Outlet)} (symmetric : g.Symmetric)
    (taken : ∀ s ∈ shunts, (g.output? s.1).isSome)
    (takers : ∀ s ∈ shunts, ∃ o, w.find? s.2 = some o ∧ (g.output? o).isSome) :
    ∃ touched' g', shunts.foldlM (takeOver context w) touched g = .ok touched' g' := by
  induction shunts generalizing g touched with
  | nil => exact ⟨touched, g, rfl⟩
  | cons shunt rest ih =>
    obtain ⟨first, taken⟩ := List.forall_mem_cons.1 taken
    obtain ⟨⟨mapped, found, there⟩, takers⟩ := List.forall_mem_cons.1 takers
    obtain ⟨touched₁, g₁, head⟩ := takeOver_ok context touched symmetric found there first
    obtain ⟨-, -, keeps, bare⟩ := takeOver_eq_ok symmetric head
    have stays {o : Outlet} (there : (g.output? o).isSome) : (g₁.output? o).isSome := by
      rw [Graph.isSome_output?_iff_fact?] at there ⊢
      rwa [Graph.fact?_congr bare, Graph.fact?_redirect]
    obtain ⟨touched', g', tail⟩ := ih touched₁ (keeps.symmetric symmetric)
      (fun s mem => stays (taken s mem))
      fun s mem => (takers s mem).imp fun _ => And.imp_right stays
    exact ⟨touched', g',
      by rw [List.foldlM_cons]; exact Edit.bind_eq_ok.2 ⟨touched₁, g₁, head, tail⟩⟩

/-- Nodes at the end of a table can read what stands for their inputs if it is there. -/
theorem connectAll_ok (context : List String) {nodes front : List Node}
    (bare : g.bare.nodes = front ++ (nodes.zipIdx front.length).map fun (n, id) => n.landing id)
    (founds : ∀ n ∈ nodes, ∀ o ∈ n.inputs, ∃ o', w.find? o = some o' ∧ (g.output? o').isSome) :
    ∃ g', forM ((nodes.zipIdx front.length).map fun (n, id) => (id, n.inputs))
      (connectAdded context w) g = .ok ⟨⟩ g' := by
  induction nodes generalizing g front with
  | nil => exact ⟨g, rfl⟩
  | cons n rest ih =>
    obtain ⟨first, founds⟩ := List.forall_mem_cons.1 founds
    rw [List.zipIdx_cons, List.map_cons] at bare
    have there : g.bare.nodes[front.length]? = some (n.landing front.length) := by
      rw [bare, List.getElem?_append_right (Nat.le_refl _), Nat.sub_self]
      rfl
    rw [Graph.bare_getElem?, Option.map_eq_some_iff] at there
    obtain ⟨m, node, landed⟩ := there
    have nothing : m.inputs = [] := congrArg Node.inputs landed
    have mapped : ∀ o ∈ n.inputs, (w.find? o).isSome := by
      intro o read
      obtain ⟨o', found, -⟩ := first o read
      rw [found]
      rfl
    have allFound : List.Forall₂ (fun source found =>
        Checked.ofOption (.inputNotMapped context source) (w.find? source) = .ok found)
        n.inputs (n.inputs.map w.place) := by
      simpa only [Checked.ofOption_eq_ok] using Wires.forall₂_place mapped
    have allThere : ∀ o ∈ n.inputs.map w.place, (g.output? o).isSome := by
      intro o mem
      obtain ⟨source, read, rfl⟩ := List.mem_map.1 mem
      obtain ⟨o', found, there⟩ := first source read
      rwa [Wires.place_of_find? found]
    obtain ⟨g₁, head⟩ := Graph.linkSlots_ok (fun source =>
      Checked.ofOption (.inputNotMapped context source) (w.find? source)) allFound allThere node
    obtain ⟨outlets, found, -, bare₁, -⟩ := Graph.linkSlots_eq_ok (fun source =>
      Checked.ofOption (.inputNotMapped context source) (w.find? source)) n.inputs node head
    simp only [Checked.ofOption_eq_ok] at found
    obtain ⟨-, rfl⟩ := Wires.map_place_of_find? found
    rw [nothing] at head
    have placed : g₁.bare.nodes = (front ++ [n.placed w front.length]) ++
        (rest.zipIdx (front.length + 1)).map fun (n, id) => n.landing id := by
      rw [bare₁, Graph.modifyNode, bare, ← Nat.add_zero front.length, modify_append_right,
        List.append_assoc]
      rfl
    have length : (front ++ [n.placed w front.length]).length = front.length + 1 := by simp
    rw [← length] at placed
    have sameFact : g₁.fact? = g.fact? := by
      funext o
      rw [← Graph.fact?_bare, bare₁, ← Graph.fact?_bare (g := g)]
      simp only [Graph.fact?, Graph.output?, Graph.modifyNode_getElem?]
      split
      · cases g.bare.nodes[o.node]? <;> rfl
      · rfl
    obtain ⟨g', tail⟩ := ih placed fun n mem o read => by
      obtain ⟨o', found, there⟩ := founds n mem o read
      refine ⟨o', found, ?_⟩
      rw [Graph.isSome_output?_iff_fact?, sameFact, ← Graph.isSome_output?_iff_fact?]
      exact there
    rw [length] at tail
    refine ⟨g', ?_⟩
    rw [List.zipIdx_cons, List.map_cons, List.forM_cons]
    exact Edit.bind_eq_ok.2 ⟨⟨⟩, g₁, head, tail⟩

/-- Nodes that come in leave the facts of the others. -/
theorem fact?_landed {nodes : List Node} {o : Outlet} {fact : Fact}
    (known : g.fact? o = some fact) : (landed g nodes).fact? o = some fact := by
  obtain ⟨n, there, produced⟩ := Graph.fact?_eq_some.1 known
  refine Graph.fact?_eq_some.2 ⟨n, ?_, produced⟩
  rw [landed, List.getElem?_append_left (List.getElem?_eq_some_iff.1 there).1, there]

/-- A patch can be applied if its sources are taps, what it takes over is there, and the wires
that take over and the inputs of its nodes are mapped to what is there once the nodes came in. -/
theorem apply_ok {p : Patch} (symmetric : g.Symmetric)
    (taps : ∀ n ∈ p.graph.nodes, n.op.isSource = true →
      (Wires.find? p.incoming.reverse ⟨n.id, 0⟩).isSome)
    (taken : ∀ s ∈ p.shunts, (g.output? s.1).isSome)
    (takers : ∀ s ∈ p.shunts, ∃ o, (p.wires g.size).find? s.2 = some o ∧
      ((landed g p.fresh).output? o).isSome)
    (reads : ∀ n ∈ p.fresh, ∀ o ∈ n.inputs, ∃ o', (p.wires g.size).find? o = some o' ∧
      ((landed g p.fresh).output? o').isSome) :
    ∃ touched g', p.apply g = .ok touched g' := by
  obtain ⟨i, g₁, inserted⟩ := insertAll_ok (g := g) p.context (i := ⟨p.incoming.reverse, []⟩) taps
  obtain ⟨graph, wires, added, keeps⟩ := insertAll_eq_ok inserted
  have graph : g₁ = landed g p.fresh := graph
  have wires : i.wires = p.wires g.size := wires
  have added : i.added = (p.fresh.zipIdx g.size).map fun (n, id) => (id, n.inputs) := added
  simp only [apply, Edit.bind_eq_ok, Edit.pure_eq_ok]
  generalize p.wires g.size = w at *
  rw [← graph] at takers reads
  have takenThere : ∀ s ∈ p.shunts, (g₁.output? s.1).isSome := by
    intro s mem
    obtain ⟨fact, known⟩ := Graph.isSome_output?_iff_fact?.1 (taken s mem)
    rw [graph]
    exact Graph.isSome_output?_iff_fact?.2 ⟨fact, fact?_landed known⟩
  obtain ⟨touched, g₂, shunted⟩ := takeOverAll_ok p.context (i.added.map (·.1))
    (keeps.symmetric symmetric) takenThere takers
  obtain ⟨-, -, bare₂⟩ := takeOverAll_eq_ok (keeps.symmetric symmetric) shunted
  -- the nodes that came in stand at the end of the table, and what they read is there
  have length : (g.shunted w p.shunts).bare.nodes.length = g.size :=
    Graph.bare_size.trans size_shunted
  have nodes : g₂.bare.nodes = (g.shunted w p.shunts).bare.nodes ++
      (p.fresh.zipIdx g.size).map fun (n, id) => n.landing id := by
    rw [bare₂, graph, shunted_landed, landed, size_shunted]
    simp [Graph.bare, Node.landing, Node.bare, Node.facts]
  have founds : ∀ n ∈ p.fresh, ∀ o ∈ n.inputs, ∃ o', w.find? o = some o' ∧
      (g₂.output? o').isSome := by
    intro n mem o read
    obtain ⟨o', found, there⟩ := reads n mem o read
    refine ⟨o', found, ?_⟩
    rw [Graph.isSome_output?_iff_fact?] at there ⊢
    rwa [Graph.fact?_congr bare₂, Graph.fact?_shunted]
  rw [← length] at nodes
  obtain ⟨g', connected⟩ := connectAll_ok p.context nodes founds
  rw [length, ← added] at connected
  rw [← wires] at shunted connected
  exact ⟨touched, g', i, g₁, inserted, touched, g₂, shunted, ⟨⟩, g', connected, rfl, rfl⟩

end Patch

namespace Draft.Describes

open Patch (fact?_landed)

variable {d : Draft} {g : Graph} {p : Patch} {o : Outlet} {n : Node}
  {fact : Fact} {size k s : Nat} (described : d.Describes g p)
include described

/-- What a tap stands for is known before any node comes in. -/
theorem find?_incoming (tapped : d.tapped[k]? = some (o, fact)) :
    Wires.find? p.incoming.reverse ⟨k, 0⟩ = some o := by
  have stands {o : Outlet} : (⟨k, 0⟩, o) ∈ p.incoming.reverse ↔
      ∃ fact, d.tapped[k]? = some (o, fact) := by
    rw [List.mem_reverse, described.incoming, List.mem_map]
    constructor
    · rintro ⟨⟨⟨o', fact⟩, j⟩, mem, same⟩
      simp only [Prod.mk.injEq, Outlet.mk.injEq, and_true] at same
      obtain ⟨rfl, rfl⟩ := same
      exact ⟨fact, List.mem_zipIdx_iff_getElem?.1 mem⟩
    · rintro ⟨fact, tapped⟩
      exact ⟨((o, fact), k), List.mem_zipIdx_iff_getElem?.2 tapped, rfl⟩
  cases found : Wires.find? p.incoming.reverse ⟨k, 0⟩ with
  | none =>
    rw [Wires.find?, List.lookup_eq_none_iff] at found
    exact absurd (found _ (stands.2 ⟨fact, tapped⟩)) (by simp)
  | some o' =>
    obtain ⟨_, _, split, -⟩ := List.lookup_eq_some_iff.1 found
    obtain ⟨_, tapped'⟩ := stands.1 (split ▸ List.mem_append_right _ List.mem_cons_self)
    cases tapped.symm.trans tapped'
    rfl

/-- What a tap stands for is found. -/
theorem find?_tap (tapped : d.tapped[k]? = some (o, fact)) :
    (d.wires size).find? ⟨k, 0⟩ = some o := by
  have lt := (List.getElem?_eq_some_iff.1 tapped).1
  have other : ∀ n ∈ d.nodes, n.id ≠ k := by
    intro n mem
    obtain ⟨j, at_j⟩ := List.mem_iff_getElem?.1 mem
    rw [described.ids at_j]
    omega
  rw [wires, Wires.find?_addNodes_of_other other, ← described.incoming]
  exact described.find?_incoming tapped

/-- Every outlet of a patch is mapped: a tap to the outlet that it stands for, and an outlet of a
node to where that comes in. -/
theorem mapped (known : p.graph.fact? o = some fact) :
    ∃ o', (d.wires g.size).find? o = some o' ∧
      ((Patch.landed g p.fresh).output? o').isSome := by
  rw [← Graph.fact?_bare, Graph.fact?_eq_some, described.nodes] at known
  obtain ⟨n, there, produced⟩ := known
  rcases Nat.lt_or_ge o.node d.tapped.length with lt | ge
  · rw [List.getElem?_append_left (by simpa using lt), taps_getElem?, Option.map_eq_some_iff]
      at there
    obtain ⟨⟨target, fact'⟩, tapped, rfl⟩ := there
    have slot : o.slot = 0 := by
      have single : (tapNode target fact' o.node).facts = [fact'] := rfl
      rw [single, List.getElem?_singleton, Option.ite_none_right_eq_some] at produced
      exact produced.1
    refine ⟨target, ?_, Graph.isSome_output?_iff_fact?.2
      ⟨fact', fact?_landed (described.known (List.mem_of_getElem? tapped))⟩⟩
    rw [← described.find?_tap tapped, ← slot]
  · obtain ⟨k, node_eq⟩ := Nat.exists_eq_add_of_le ge
    rw [List.getElem?_append_right (by simpa using ge), node_eq, length_taps,
      Nat.add_sub_cancel_left] at there
    have slot : o.slot < n.outputs.length := by
      rw [← Node.length_facts]
      exact (List.getElem?_eq_some_iff.1 produced).1
    refine ⟨⟨g.size + k, o.slot⟩, ?_, ?_⟩
    · rw [← described.find?_wire there slot, ← node_eq]
    · rw [← described.fresh_bare, List.getElem?_map, Option.map_eq_some_iff] at there
      obtain ⟨m, fresh, rfl⟩ := there
      rw [Graph.isSome_output?_iff_fact?]
      refine ⟨fact, Graph.fact?_eq_some.2 ⟨m.landing (g.size + k), ?_, ?_⟩⟩
      · change (g.nodes ++ _)[g.size + k]? = _
        rw [List.getElem?_append_right
          (show g.nodes.length ≤ g.size + k from Nat.le_add_right _ _)]
        simp [Graph.size, List.getElem?_zipIdx, fresh]
      · have same : (m.landing (g.size + k)).facts = m.bare.facts := by
          simp [Node.landing, Node.facts, Node.bare, Function.comp_def]
        rw [same, produced]

/-- A patch can be applied if the outlet that one of its wires takes over is there. -/
theorem apply_ok {taken : Outlet} {m : Node} (linked : g.Linked)
    (there : (g.output? taken).isSome) (last : d.nodes[k]? = some m)
    (shunts : d.shunts = [(taken, d.wire k)]) :
    ∃ touched g', p.apply g = .ok touched g' := by
  have taps : ∀ n ∈ p.graph.nodes, n.op.isSource = true →
      (Wires.find? p.incoming.reverse ⟨n.id, 0⟩).isSome := by
    intro n mem isSource
    have among : n.bare ∈ d.taps ++ d.nodes := by
      rw [← described.nodes]
      exact List.mem_map_of_mem mem
    rcases List.mem_append.1 among with tap | own
    · obtain ⟨k, at_k⟩ := List.mem_iff_getElem?.1 tap
      rw [taps_getElem?, Option.map_eq_some_iff] at at_k
      obtain ⟨⟨o, fact⟩, tapped, same⟩ := at_k
      have id_eq : n.id = k := (congrArg Node.id same).symm
      rw [id_eq, described.find?_incoming tapped]
      rfl
    · have inner : n.bare.op.isSource = false := described.inner own
      change n.bare.op.isSource = true at isSource
      rw [inner] at isSource
      simp at isSource
  have shunts : p.shunts = [(taken, d.wire k)] := described.shunts.trans shunts
  refine Patch.apply_ok linked.symmetric taps (by simpa [shunts] using there) ?_ ?_
  · rw [shunts, described.wires_eq]
    intro s mem
    rw [List.mem_singleton.1 mem]
    obtain ⟨_, _, -, -, single⟩ := described.infers (List.mem_of_getElem? last)
    exact described.mapped (described.fact?_wire last single)
  · intro n mem o read
    rw [described.wires_eq]
    have own : n.bare ∈ d.nodes := by
      rw [← described.fresh_bare]
      exact List.mem_map_of_mem mem
    obtain ⟨facts, _, known, -⟩ := described.infers own
    obtain ⟨slot, at_slot⟩ := List.mem_iff_getElem?.1 read
    obtain ⟨fact, -, known⟩ := forall₂_getElem? known at_slot
    exact described.mapped known

end Draft.Describes

end EvenPad
