import EvenPad.Proofs.Graph.Compact
import EvenPad.Proofs.Graph.Progress

/-!
Compactions that succeed. Main statement: `Referenced.compacted_ok`, a graph can be compacted if
no node that its outputs depend on depends on itself.
-/

namespace EvenPad.Graph

variable {g : Graph} {n : Node} {o o' : Outlet} {r r' : Renumbering} {nodes : List Node}
  {order : List Nat} {id : Nat} {log log' : Log}

/-- What stands for an outlet is there. -/
theorem Renumbering.Carries.there (carries : r.Carries nodes)
    (found : r.wires.find? o = some o') :
    ∃ fact, r.graph.fact? o' = some fact := by
  obtain ⟨j, m, at_j, -, slot, rfl⟩ := carries.find?_eq_some found
  have lt : j < r.graph.nodes.length := by
    have size : r.graph.nodes.length = nodes.length := carries.size
    rw [size]
    exact (List.getElem?_eq_some_iff.1 at_j).1
  have here := List.getElem?_eq_getElem lt
  obtain ⟨-, copies, -⟩ := carries.copies at_j here
  rw [← Node.length_facts, ← copies.facts] at slot
  exact ⟨_, fact?_eq_some.2 ⟨_, here, List.getElem?_eq_getElem slot⟩⟩

/-- A node can be carried over after what it reads. -/
theorem carryNode_ok (carries : r.Carries nodes) (there : g.nodes[id]? = some n)
    (mapped : ∀ o ∈ (g.cut n).inputs, (r.wires.find? o).isSome) :
    ∃ r', carryNode g r id = .ok r' := by
  simp only [carryNode, Checked.bind_eq_ok, nodeAt, Checked.ofPresent_eq_ok, append_noted]
  by_cases isInput : g.inputs.contains ⟨n.id, 0⟩ = true
  · exact ⟨_, n, there, by rw [if_pos isInput]; rfl⟩
  rw [cut_of_not_mem (by simpa using isInput)] at mapped
  have there' : (r.graph.push (n.landing r.graph.size)).nodes[r.graph.size]? =
      some (n.landing r.graph.size) := push_getElem?_size
  set w := r.wires.addNode n.outputs.length id r.graph.size with w_eq
  have stands {o : Outlet} (read : o ∈ n.inputs) : ∃ o', w.find? o = some o' ∧
      ((r.graph.push (n.landing r.graph.size)).output? o').isSome := by
    rw [w_eq, Wires.find?_addNode]
    split
    · next own =>
      refine ⟨_, rfl, isSome_output?_iff_fact?.2 ?_⟩
      have slot : o.slot < (n.landing r.graph.size).facts.length := by
        simpa [Node.landing] using own.2
      exact ⟨_, fact?_eq_some.2 ⟨_, there', List.getElem?_eq_getElem slot⟩⟩
    · obtain ⟨o', found⟩ := Option.isSome_iff_exists.1 (mapped o read)
      obtain ⟨fact, known⟩ := carries.there found
      exact ⟨o', found, isSome_output?_iff_fact?.2 ⟨fact, fact?_push_of_some known⟩⟩
  have found : List.Forall₂ (fun o o' => w.find? o = some o') n.inputs (n.inputs.map w.place) :=
    Wires.forall₂_place fun o read => by
      obtain ⟨o', found, -⟩ := stands read
      rw [found, Option.isSome_some]
  obtain ⟨g', connected⟩ := linkSlots_ok
    (fun source => Checked.ofOption (.inputNotCarried n source) (w.find? source))
    (found.imp fun _ _ found => Checked.ofOption_eq_ok.2 found)
    (by
      intro o' mem
      obtain ⟨o, read, found⟩ := forall₂_of_mem found.flip mem
      obtain ⟨_, found', there⟩ := stands read
      cases found.symm.trans found'
      exact there) there'
  refine ⟨⟨g', w⟩, n, there, ?_⟩
  rw [if_neg isInput, Checked.bind_eq_ok]
  exact ⟨(⟨⟩, g'), Edit.runFrom_eq_ok.2 connected, rfl⟩

/-- The outlets of what was carried over are found. -/
theorem found_of_mem (ids : ∀ {k : Nat} {n : Node}, g.nodes[k]? = some n → n.id = k)
    (carries : r.Carries (nodes.map g.cut))
    (keeps : List.Forall₂ (fun id n => g.nodes[id]? = some n) order nodes) (mem : o.node ∈ order)
    (there : (g.output? o).isSome) : (r.wires.find? o).isSome := by
  obtain ⟨output, known⟩ := Option.isSome_iff_exists.1 there
  obtain ⟨n, there, produced⟩ := output?_eq_some.1 known
  obtain ⟨m, among, there'⟩ := forall₂_of_mem keeps mem
  cases there.symm.trans there'
  obtain ⟨j, at_j⟩ := List.mem_iff_getElem?.1 (List.mem_map_of_mem (f := g.cut) among)
  have found :=
    carries.find? at_j (by rw [outputs_cut]; exact (List.getElem?_eq_some_iff.1 produced).1)
  rw [id_cut, ids there] at found
  rw [found, Option.isSome_some]

/-- A sorted order can be carried over. -/
theorem carryAll_ok (referenced : g.Referenced)
    (sorted : Sorted g.nodes (g.inputs.map Outlet.node) order) :
    ∃ r, order.foldlM (carryNode g) ⟨.empty, []⟩ = .ok r := by
  induction sorted with
  | nil => exact ⟨_, rfl⟩
  | @snoc order id sorted fresh ready ih =>
    obtain ⟨r, carried⟩ := ih
    obtain ⟨kept, keeps, carries⟩ := carryAll_eq_ok referenced.ids sorted carried
    obtain ⟨n, there, before⟩ : ∃ n, g.nodes[id]? = some n ∧
        ∀ o ∈ (g.cut n).inputs, o.node ∈ order ∧ (g.output? o).isSome := by
      by_cases listed : id ∈ g.inputs.map Outlet.node
      · have input := referenced.mem_inputs_of_listed listed
        obtain ⟨n, there⟩ : ∃ n, g.nodes[id]? = some n :=
          ⟨_, List.getElem?_eq_getElem (lt_size_of_isSome (referenced.sources input).2)⟩
        refine ⟨n, there, ?_⟩
        rw [inputs_cut_of_mem (by rwa [referenced.ids there])]
        simp
      · obtain ⟨n, there, before⟩ := ready.resolve_left listed
        have inner : ⟨n.id, 0⟩ ∉ g.inputs := fun input =>
          listed (referenced.ids there ▸ List.mem_map_of_mem (f := Outlet.node) input)
        rw [← cut_of_not_mem inner] at before
        refine ⟨n, there, fun o read => ⟨before o read, ?_⟩⟩
        rw [cut_of_not_mem inner] at read
        exact referenced.reads there read
    obtain ⟨r', last⟩ := carryNode_ok carries there fun o read =>
      found_of_mem referenced.ids carries keeps (before o read).1 (before o read).2
    refine ⟨r', ?_⟩
    simp only [List.foldlM_append, List.foldlM_cons, List.foldlM_nil, Checked.bind_eq_ok,
      Checked.pure_eq_ok]
    exact ⟨r, carried, r', last, rfl⟩

/-- An input is found once it is carried over, and what was found before. -/
theorem carryInput_found (run : carryInput g r o log = .ok r' log') (x : Outlet) :
    (r'.wires.find? x).isSome ↔ x = o ∨ (r.wires.find? x).isSome := by
  cases found : r.wires.find? o with
  | some o' =>
    simp only [carryInput, found] at run
    obtain ⟨rfl, -⟩ := Edit.pure_eq_ok.1 run
    refine ⟨.inr, ?_⟩
    rintro (rfl | there)
    · rw [found, Option.isSome_some]
    · exact there
  | none =>
    simp only [carryInput, found, Edit.bind_eq_ok, Edit.pure_eq_ok] at run
    obtain ⟨n, _, -, _, _, -, output, _, -, rfl, -⟩ := run
    rw [Wires.find?_cons]
    split <;> simp_all

theorem carryInput_ok (there : (g.output? ⟨o.node, 0⟩).isSome) (log : Log) :
    ∃ r' log', carryInput g r o log = .ok r' log' := by
  cases found : r.wires.find? o with
  | some o' => exact ⟨r, log, by simp only [carryInput, found]; rfl⟩
  | none =>
    obtain ⟨output, produced⟩ := Option.isSome_iff_exists.1 there
    obtain ⟨n, there, -⟩ := output?_eq_some.1 produced
    simp only [carryInput, found, nodeAt, outputAt, Checked.ofPresent_eq_ok,
      Edit.bind_eq_ok, Edit.lift_eq_ok, Edit.pure_eq_ok]
    exact ⟨_, _, n, _, ⟨there, rfl⟩, ⟨⟩, _, rfl, output, _, ⟨produced, rfl⟩, rfl, rfl⟩

theorem carryInputs_ok {inputs : List Outlet}
    (there : ∀ o ∈ inputs, (g.output? ⟨o.node, 0⟩).isSome) (log : Log) :
    ∃ r' log', inputs.foldlM (carryInput g) r log = .ok r' log' ∧
      ∀ x, x ∈ inputs ∨ (r.wires.find? x).isSome → (r'.wires.find? x).isSome := by
  induction inputs generalizing r log with
  | nil => exact ⟨r, log, rfl, by simp⟩
  | cons o rest ih =>
    obtain ⟨here, there⟩ := List.forall_mem_cons.1 there
    obtain ⟨r₁, log₁, first⟩ := carryInput_ok here log
    obtain ⟨r', log', run, found⟩ := ih there log₁
    refine ⟨r', log', ?_, fun x before => found x ?_⟩
    · rw [List.foldlM_cons]
      exact Edit.bind_eq_ok.2 ⟨r₁, log₁, first, run⟩
    · rwa [carryInput_found first, ← or_assoc, or_comm (b := x = o), ← List.mem_cons]

/-- What is found can be located. -/
theorem located_ok {outlets : List Outlet} (found : ∀ o ∈ outlets, (r.wires.find? o).isSome) :
    ∃ outlets', outlets.mapM r.located = .ok outlets' := by
  refine ⟨outlets.map r.wires.place, Checked.mapM_eq_ok_iff.2 ?_⟩
  exact (Wires.forall₂_place found).imp fun _ _ => located_eq_ok.2

/-- A graph can be compacted if no node that its outputs depend on depends on itself. -/
theorem Referenced.compacted_ok (referenced : g.Referenced) (loopFree : g.LoopFree) (log : Log) :
    ∃ g' log', g.compacted log = .ok g' log' := by
  obtain ⟨order, ordered⟩ := referenced.evalOrder_ok loopFree
  obtain ⟨sorted, -, answers⟩ := evalOrder_eq_ok ordered
  obtain ⟨r₀, carried⟩ := carryAll_ok referenced sorted
  obtain ⟨kept, keeps, carries⟩ := carryAll_eq_ok referenced.ids sorted carried
  obtain ⟨r, log', inputs, found⟩ :=
    carryInputs_ok (r := r₀) (fun _ => referenced.first_of_mem) log
  obtain ⟨inputs', locatedInputs⟩ := located_ok fun o mem => found o (.inl mem)
  obtain ⟨outputs', locatedOutputs⟩ := located_ok fun o mem =>
    found o
      (.inr (found_of_mem referenced.ids carries keeps (answers o mem) (referenced.answers mem)))
  simp only [compacted, Edit.bind_eq_ok, Edit.lift_eq_ok, Edit.pure_eq_ok]
  exact ⟨_, _, order, _, ⟨ordered, rfl⟩, r₀, _, ⟨carried, rfl⟩, r, log', inputs, inputs', _,
    ⟨locatedInputs, rfl⟩, outputs', _, ⟨locatedOutputs, rfl⟩, rfl, rfl⟩

/-- A well-formed graph without cycles can be compacted. -/
theorem WellFormed.compacted_ok (wf : g.WellFormed) (acyclic : g.Acyclic) (log : Log) :
    ∃ g' log', g.compacted log = .ok g' log' :=
  wf.referenced.compacted_ok acyclic.loopFree log

end EvenPad.Graph
