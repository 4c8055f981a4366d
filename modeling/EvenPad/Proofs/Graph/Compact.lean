import EvenPad.Graph.Compact
import EvenPad.Proofs.Graph.Referenced
import EvenPad.Proofs.Graph.Wires

/-!
Compaction. A renumbering `Carries` some nodes when they stand in its graph one after the other,
each reading what stands for its inputs. Main statements: `compacted_eq_ok`, the compaction of a
well-formed graph carries its nodes in evaluation order, and after them the inputs of the graph
that nothing depends on; and `WellFormed.compacts`, what it keeps of the graph.
-/

namespace EvenPad

/-- The node does what another one does, reading what stands for the inputs of that. -/
structure Node.Copies (w : Wires) (n m : Node) : Prop where
  name : m.name = n.name
  op : m.op = n.op
  facts : m.facts = n.facts
  inputs : List.Forall₂ (fun o o' => w.find? o = some o') n.inputs m.inputs

namespace Graph

variable {g g' : Graph} {n node : Node} {o o' : Outlet} {r r' : Renumbering} {nodes : List Node}
  {order listed : List Nat} {id j : Nat} {log log' : Log}

/-- Some nodes stand in the graph of a renumbering one after the other, and its wires say where
their outlets are. -/
structure Renumbering.Carries (r : Renumbering) (nodes : List Node) : Prop where
  linked : r.graph.Linked
  wires : r.wires = Wires.addNodes [] nodes 0
  bare : r.graph.bare = Graph.empty.land r.wires nodes
  mapped : ∀ n ∈ nodes, ∀ o ∈ n.inputs, (r.wires.find? o).isSome
  distinct : (nodes.map Node.id).Nodup

namespace Renumbering.Carries

theorem nil : Carries ⟨.empty, []⟩ [] where
  linked := wellFormed_empty.linked
  wires := rfl
  bare := rfl
  mapped := by simp
  distinct := by simp

variable (carries : r.Carries nodes)
include carries

theorem size : r.graph.size = nodes.length := by
  rw [← bare_size, carries.bare]
  simp [Graph.land, Graph.size, Graph.empty]

/-- The outlets of the nodes. -/
theorem find? {s : Nat} (there : nodes[j]? = some n) (slot : s < n.outputs.length) :
    r.wires.find? ⟨n.id, s⟩ = some ⟨j, s⟩ := by
  rw [carries.wires, Wires.find?_addNodes carries.distinct there slot, Nat.zero_add]

/-- Nothing stands for other outlets. -/
theorem find?_eq_some (found : r.wires.find? o = some o') :
    ∃ j n, nodes[j]? = some n ∧ o.node = n.id ∧ o.slot < n.outputs.length ∧ o' = ⟨j, o.slot⟩ := by
  rw [carries.wires] at found
  rcases Wires.find?_addNodes_eq_some found with ⟨j, n, there, same, slot, rfl⟩ | found
  · exact ⟨j, n, there, same, slot, by rw [Nat.zero_add]⟩
  · simp [Wires.find?] at found

/-- A node is carried once. -/
theorem position_eq {i : Nat} {m : Node} (at_i : nodes[i]? = some m) (at_j : nodes[j]? = some n)
    (same : m.id = n.id) : i = j := by
  have lt : i < (nodes.map Node.id).length := by
    rw [List.length_map]
    exact (List.getElem?_eq_some_iff.1 at_i).1
  refine (List.getElem?_inj lt carries.distinct).1 ?_
  rw [List.getElem?_map, List.getElem?_map, at_i, at_j, Option.map_some, Option.map_some, same]

/-- The nodes as they are carried. -/
theorem copies {n' : Node} (there : nodes[j]? = some n) (here : r.graph.nodes[j]? = some n') :
    n'.id = j ∧ n.Copies r.wires n' ∧ n'.provenance = n.provenance := by
  have bare : r.graph.bare.nodes[j]? = some (n.placed r.wires j) := by
    rw [carries.bare]
    simp [Graph.land, Graph.empty, Graph.size, List.getElem?_zipIdx, there]
  rw [bare_getElem?, here, Option.map_some, Option.some.injEq] at bare
  have id : n'.bare.id = j := by rw [bare]; rfl
  have name : n'.bare.name = n.name := by rw [bare]; rfl
  have op : n'.bare.op = n.op := by rw [bare]; rfl
  have provenance : n'.bare.provenance = n.provenance := by rw [bare]; rfl
  have facts : n'.bare.facts = n.facts := by rw [bare, Node.facts_placed]
  have inputs : n'.bare.inputs = n.inputs.map r.wires.place := by rw [bare]; rfl
  have inputs : n'.inputs = n.inputs.map r.wires.place := inputs
  refine ⟨id, ⟨name, op, by simpa using facts, ?_⟩, provenance⟩
  rw [inputs]
  exact Wires.forall₂_place (carries.mapped n (List.mem_of_getElem? there))

/-- One more node is carried. -/
theorem snoc (fresh : n.id ∉ nodes.map Node.id)
    (wires : r'.wires = r.wires.addNode n.outputs.length n.id r.graph.size)
    (bare : r'.graph.bare = r.graph.bare.push (n.placed r'.wires r.graph.size))
    (mapped : ∀ o ∈ n.inputs, (r'.wires.find? o).isSome) (linked : r'.graph.Linked) :
    r'.Carries (nodes ++ [n]) := by
  -- where the nodes read is told before the new one comes
  have kept {o : Outlet} (found : (r.wires.find? o).isSome) :
      r'.wires.find? o = r.wires.find? o := by
    rcases Option.isSome_iff_exists.1 found with ⟨o', found⟩
    rcases carries.find?_eq_some found with ⟨j, m, there, same, -, -⟩
    rw [wires, Wires.find?_addNode, if_neg]
    rintro ⟨here, -⟩
    exact fresh (here ▸ same ▸ List.mem_map_of_mem (List.mem_of_getElem? there))
  refine ⟨linked, ?_, ?_, ?_, ?_⟩
  · rw [wires, carries.wires, carries.size, Wires.addNodes_concat, Nat.zero_add]
  · have before : Graph.empty.land r.wires nodes = Graph.empty.land r'.wires nodes := by
      rw [Graph.land, Graph.land]
      congr 2
      apply List.map_congr_left
      intro pair mem
      refine Node.placed_congr fun o read => ?_
      have among : pair.1 ∈ nodes := by simpa using List.fst_mem_of_mem_zipIdx mem
      rw [Wires.place, Wires.place, kept (carries.mapped _ among o read)]
    rw [bare, carries.bare, before, carries.size]
    simp [Graph.land, Graph.push, Graph.empty, Graph.size, List.zipIdx_append]
  · intro m mem o read
    rcases List.mem_append.1 mem with mem | mem
    · have found := carries.mapped m mem o read
      rwa [kept found]
    · cases List.mem_singleton.1 mem
      exact mapped o read
  · rw [List.map_append, List.nodup_append]
    refine ⟨carries.distinct, by simp, ?_⟩
    intro a mem b single same
    rw [List.map_singleton, List.mem_singleton] at single
    exact fresh (single ▸ same ▸ mem)

end Renumbering.Carries

/-! ## Carrying nodes over -/

/-- A node as it is carried over: an input of the graph reads nothing afterwards. -/
def cut (g : Graph) (n : Node) : Node :=
  if ⟨n.id, 0⟩ ∈ g.inputs then { n with inputs := [] } else n

@[simp] theorem id_cut : (g.cut n).id = n.id := by
  unfold cut
  split <;> rfl

@[simp] theorem outputs_cut : (g.cut n).outputs = n.outputs := by
  unfold cut
  split <;> rfl

@[simp] theorem name_cut : (g.cut n).name = n.name := by
  unfold cut
  split <;> rfl

@[simp] theorem op_cut : (g.cut n).op = n.op := by
  unfold cut
  split <;> rfl

@[simp] theorem provenance_cut : (g.cut n).provenance = n.provenance := by
  unfold cut
  split <;> rfl

@[simp] theorem facts_cut : (g.cut n).facts = n.facts := by
  rw [Node.facts, outputs_cut, Node.facts]

theorem cut_of_not_mem (inner : ⟨n.id, 0⟩ ∉ g.inputs) : g.cut n = n := if_neg inner

theorem inputs_cut_of_mem (input : ⟨n.id, 0⟩ ∈ g.inputs) : (g.cut n).inputs = [] := by
  rw [cut, if_pos input]

/-- The inputs of a well-formed graph read nothing before. -/
theorem WellFormed.cut_eq (wf : g.WellFormed) (there : g.nodes[id]? = some n) : g.cut n = n := by
  unfold cut
  split
  · next input =>
    have listed : id ∈ g.inputs.map Outlet.node := wf.id_eq there ▸ List.mem_map_of_mem input
    rw [← wf.inputs_of_listed listed there]
  · rfl

/-- The graph in which a node came in that does not read anything yet. -/
theorem append_noted : ((g.append n.name n.op n.facts).modifyNode g.size
    fun m => { m with provenance := n.provenance }) = g.push (n.landing g.size) := by
  exact modifyNode_push (n := { n.landing g.size with provenance := .empty })

/-- A node is carried over with its notes, and reads what stands for its inputs. -/
theorem carryNode_eq_ok (run : carryNode g r id = .ok r') :
    ∃ n, g.nodes[id]? = some n ∧ r'.wires = r.wires.addNode n.outputs.length id r.graph.size ∧
      r'.graph.bare = r.graph.bare.push ((g.cut n).placed r'.wires r.graph.size) ∧
      (∀ o ∈ (g.cut n).inputs, (r'.wires.find? o).isSome) ∧ r.graph.KeepsEdges r'.graph := by
  simp only [carryNode, Checked.bind_eq_ok, nodeAt, Checked.ofPresent_eq_ok, append_noted] at run
  rcases run with ⟨n, there, run⟩
  have pushed : (r.graph.push (n.landing r.graph.size)).bare =
      r.graph.bare.push (n.landing r.graph.size) := by
    rw [bare_push]
    simp [Node.landing, Node.bare, Node.facts, Function.comp_def]
  have keeps : r.graph.KeepsEdges (r.graph.push (n.landing r.graph.size)) :=
    keepsEdges_push rfl (by simp [Node.landing])
  refine ⟨n, there, ?_⟩
  split at run
  · next isInput =>
    cases Checked.pure_eq_ok.1 run
    have input : ⟨n.id, 0⟩ ∈ g.inputs := by simpa using isInput
    refine ⟨rfl, ?_, by simp [inputs_cut_of_mem input], keeps⟩
    rw [pushed, cut, if_pos input]
    rfl
  · next inner =>
    rcases Checked.bind_eq_ok.1 run with ⟨⟨_, g₁⟩, connected, run⟩
    cases Checked.pure_eq_ok.1 run
    have there' : (r.graph.push (n.landing r.graph.size)).nodes[r.graph.size]? =
        some (n.landing r.graph.size) := push_getElem?_size
    obtain ⟨outlets, founds, -, bare, keeps'⟩ := linkSlots_eq_ok
      (fun source => Checked.ofOption (.inputNotCarried n source)
        ((r.wires.addNode n.outputs.length id r.graph.size).find? source)) n.inputs there'
      (Edit.runFrom_eq_ok.1 connected)
    simp only [Checked.ofOption_eq_ok] at founds
    rcases Wires.map_place_of_find? founds with ⟨mapped, rfl⟩
    rw [cut_of_not_mem (by simpa using inner)]
    refine ⟨rfl, ?_, mapped, keeps.trans keeps'⟩
    rw [bare, pushed, ← bare_size, modifyNode_push]
    rfl

/-- The nodes of a sorted order are carried over one after the other. -/
theorem carryAll_eq_ok (ids : ∀ {k : Nat} {n : Node}, g.nodes[k]? = some n → n.id = k)
    (sorted : Sorted g.nodes listed order)
    (run : order.foldlM (carryNode g) ⟨.empty, []⟩ = .ok r) :
    ∃ kept, List.Forall₂ (fun id n => g.nodes[id]? = some n) order kept ∧
      r.Carries (kept.map g.cut) := by
  induction sorted generalizing r with
  | nil =>
    cases Checked.pure_eq_ok.1 run
    exact ⟨[], .nil, .nil⟩
  | @snoc order id _ fresh _ ih =>
    simp only [List.foldlM_append, List.foldlM_cons, List.foldlM_nil, Checked.bind_eq_ok,
      Checked.pure_eq_ok] at run
    rcases run with ⟨r₁, before, r₂, last, rfl⟩
    rcases ih before with ⟨kept, there, carries⟩
    rcases carryNode_eq_ok last with ⟨n, here, wires, bare, mapped, keeps⟩
    have id_eq := ids here
    refine ⟨kept ++ [n], List.rel_append there (.cons here .nil), ?_⟩
    rw [List.map_append, List.map_singleton]
    refine carries.snoc ?_ ?_ bare mapped (keeps.linked carries.linked)
    · intro mem
      simp only [List.map_map, List.mem_map, Function.comp_apply, id_cut] at mem
      rcases mem with ⟨m, among, same⟩
      rcases List.mem_iff_getElem?.1 among with ⟨j, at_j⟩
      rcases forall₂_getElem? there.flip at_j with ⟨i, at_i, there⟩
      rw [← ids there, same, id_eq] at at_i
      exact fresh (List.mem_of_getElem? at_i)
    · rw [wires, outputs_cut, id_cut, id_eq]

/-! ## Unused inputs -/

/-- The node without its notes. -/
def unnoted (n : Node) : Node := { n with provenance := .empty }

/-- An input that nothing depends on as it is carried over: its first outlet, without what it
reads and without its notes. -/
def stub (n : Node) : Node := { unnoted n with inputs := [], outputs := n.outputs.take 1 }

theorem facts_stub : (stub n).facts = n.facts.take 1 := List.map_take

theorem Typed.length_outputs (typed : g.Typed) (there : g.nodes[id]? = some n) :
    n.outputs.length = 1 := by
  rcases typed.infers there with ⟨_, _, -, -, facts⟩
  rw [← Node.length_facts, facts, List.length_singleton]

/-- An input of a well-formed graph has nothing else. -/
theorem WellFormed.stub_eq (wf : g.WellFormed) (there : g.nodes[n.id]? = some n)
    (input : ⟨n.id, 0⟩ ∈ g.inputs) : stub n = unnoted n := by
  have nothing : n.inputs = [] := wf.inputs_of_listed (List.mem_map_of_mem input) there
  have single : n.outputs.take 1 = n.outputs :=
    List.take_of_length_le (Nat.le_of_eq (wf.length_outputs there))
  rw [stub, single, ← nothing]
  rfl

/-- An input of the graph is carried over unless it was carried over before. -/
theorem carryInput_eq_ok (referenced : g.Referenced) (mem : o ∈ g.inputs)
    (run : carryInput g r o log = .ok r' log') :
    (r' = r ∧ (r.wires.find? o).isSome) ∨ ∃ n, g.nodes[n.id]? = some n ∧ o = ⟨n.id, 0⟩ ∧
      0 < n.outputs.length ∧ r.wires.find? o = none ∧
      r'.graph = r.graph.push ((stub n).landing r.graph.size) ∧
      r'.wires = r.wires.addNode 1 n.id r.graph.size := by
  unfold carryInput at run
  cases found : r.wires.find? o with
  | some there =>
    simp only [found] at run
    rcases Edit.pure_eq_ok.1 run with ⟨rfl, -⟩
    exact .inl ⟨rfl, by simp⟩
  | none =>
    simp only [found, Edit.lift_eq_ok, nodeAt, outputAt, Checked.ofPresent_eq_ok, Edit.bind_eq_ok,
      Edit.pure_eq_ok] at run
    rcases run with ⟨n, _, ⟨there, rfl⟩, _, _, -, output, _, ⟨produced, rfl⟩, rfl, -⟩
    rcases referenced.sources mem with ⟨slot, -⟩
    have id_eq := referenced.ids there
    have here : o = ⟨n.id, 0⟩ := by
      rcases o with ⟨_, _⟩
      rw [Outlet.mk.injEq]
      exact ⟨id_eq.symm, slot⟩
    obtain ⟨m, there', first⟩ := output?_eq_some.1 produced
    cases there.symm.trans there'
    have lt : 0 < n.outputs.length := (List.getElem?_eq_some_iff.1 first).1
    refine .inr ⟨n, by rwa [id_eq], here, lt, rfl, ?_, ?_⟩
    · have single : (stub n).facts = [output.fact] := by
        rw [facts_stub, Node.facts, ← List.map_take, List.take_one, List.head?_eq_getElem?, first]
        rfl
      rw [append, Node.landing, single]
      rfl
    · rw [here, Wires.addNode]
      rfl

/-- The inputs that nothing depends on are carried over one after the other. -/
theorem carryInputs_eq_ok {inputs : List Outlet} (referenced : g.Referenced)
    (among : ∀ o ∈ inputs, o ∈ g.inputs) (carries : r.Carries nodes)
    (outputs : ∀ n ∈ nodes, ⟨n.id, 0⟩ ∈ g.inputs → 0 < n.outputs.length)
    (run : inputs.foldlM (carryInput g) r log = .ok r' log') :
    ∃ unused : List Node, r'.Carries (nodes ++ unused.map stub) ∧
      ∀ n ∈ unused, g.nodes[n.id]? = some n ∧ ⟨n.id, 0⟩ ∈ g.inputs := by
  induction inputs generalizing r nodes log with
  | nil =>
    rcases Edit.pure_eq_ok.1 run with ⟨rfl, -⟩
    exact ⟨[], by simpa using carries, by simp⟩
  | cons o rest ih =>
    rcases List.forall_mem_cons.1 among with ⟨mem, amongRest⟩
    rw [List.foldlM_cons] at run
    rcases Edit.bind_eq_ok.1 run with ⟨r₁, _, head, tail⟩
    rcases carryInput_eq_ok referenced mem head with
      ⟨rfl, -⟩ | ⟨n, there, rfl, lt, fresh, graph, wires⟩
    · exact ih amongRest carries outputs tail
    · have length : (stub n).outputs.length = 1 := by
        rw [stub, List.length_take]
        exact Nat.min_eq_left lt
      have carries₁ : r₁.Carries (nodes ++ [stub n]) := by
        refine carries.snoc ?_ (by rw [wires, length]; rfl) ?_ (by simp [stub]) ?_
        · intro again
          rcases List.mem_map.1 again with ⟨m, before, same⟩
          rcases List.mem_iff_getElem?.1 before with ⟨j, at_j⟩
          have same : m.id = n.id := same
          have found := carries.find? (s := 0) at_j (outputs m before (by rwa [same]))
          rw [same, fresh] at found
          simp at found
        · rw [graph, bare_push]
          simp [Node.landing, Node.placed, Node.bare, Node.facts, stub, Function.comp_def]
        · rw [graph]
          exact (keepsEdges_push rfl (by simp [Node.landing])).linked carries.linked
      obtain ⟨unused, carries', own⟩ := ih amongRest carries₁ (by
        intro m mem isInput
        rcases List.mem_append.1 mem with mem | mem
        · exact outputs m mem isInput
        · rw [List.mem_singleton.1 mem, length]
          exact Nat.one_pos) tail
      refine ⟨n :: unused, by simpa using carries', List.forall_mem_cons.2 ⟨⟨there, mem⟩, own⟩⟩

/-! ## The whole graph -/

theorem located_eq_ok : r.located o = .ok o' ↔ r.wires.find? o = some o' :=
  Checked.ofPresent_eq_ok

/-- The nodes that the outputs depend on, in evaluation order, and after them the inputs of the
graph that nothing depends on, stand in the compaction. -/
structure Carrying (g : Graph) (order : List Nat) (kept unused : List Node) (r : Renumbering)
    (g' : Graph) : Prop where
  ordered : g.evalOrder = .ok order
  keeps : List.Forall₂ (fun id n => g.nodes[id]? = some n) order kept
  own : ∀ n ∈ unused, g.nodes[n.id]? = some n ∧ ⟨n.id, 0⟩ ∈ g.inputs
  carries : r.Carries (kept.map g.cut ++ unused.map stub)
  inputs : List.Forall₂ (fun o o' => r.wires.find? o = some o') g.inputs g'.inputs
  outputs : List.Forall₂ (fun o o' => r.wires.find? o = some o') g.outputs g'.outputs
  nodes : g'.nodes = r.graph.nodes

theorem Referenced.length_outputs_pos (referenced : g.Referenced) (there : g.nodes[id]? = some n)
    (input : ⟨n.id, 0⟩ ∈ g.inputs) : 0 < n.outputs.length := by
  obtain ⟨output, found⟩ := Option.isSome_iff_exists.1 (referenced.sources input).2
  obtain ⟨m, there', first⟩ := output?_eq_some.1 found
  rw [referenced.ids there] at there'
  cases there.symm.trans there'
  exact (List.getElem?_eq_some_iff.1 first).1

/-- A compaction carries them one after the other. -/
theorem compacted_eq_ok (referenced : g.Referenced) (run : g.compacted log = .ok g' log') :
    ∃ order kept unused r, g.Carrying order kept unused r g' := by
  simp only [compacted, Edit.bind_eq_ok, Edit.lift_eq_ok, Edit.pure_eq_ok] at run
  obtain ⟨order, _, ⟨ordered, rfl⟩, r₀, _, ⟨carriedAll, rfl⟩, r, _, carriedInputs, inputs, _,
    ⟨inputsLocated, rfl⟩, outputs, _, ⟨outputsLocated, rfl⟩, rfl, -⟩ := run
  rcases evalOrder_eq_ok ordered with ⟨sorted, -, -⟩
  rcases carryAll_eq_ok referenced.ids sorted carriedAll with ⟨kept, there, carries⟩
  obtain ⟨unused, carries, own⟩ := carryInputs_eq_ok referenced (fun _ mem => mem) carries (by
    intro n mem
    rcases List.mem_map.1 mem with ⟨m, among, rfl⟩
    rcases List.mem_iff_getElem?.1 among with ⟨j, at_j⟩
    rcases forall₂_getElem? there.flip at_j with ⟨id, -, there⟩
    rw [id_cut, outputs_cut]
    exact referenced.length_outputs_pos there) carriedInputs
  rw [Checked.mapM_eq_ok_iff] at inputsLocated outputsLocated
  simp only [located_eq_ok] at inputsLocated outputsLocated
  exact ⟨order, kept, unused, r, ordered, there, own, carries, inputsLocated, outputsLocated, rfl⟩

namespace Carrying

variable {kept unused : List Node} {m : Node} {k : Nat}
  (carrying : g.Carrying order kept unused r g')
include carrying

theorem linked : g'.Linked := by
  have linked := carrying.carries.linked
  have nodes := carrying.nodes
  rcases g' with ⟨_, _, _⟩
  subst nodes
  exact ⟨linked.1, linked.2⟩

/-- The nodes of the compaction copy those that are carried. -/
theorem copies (here : g'.nodes[k]? = some m) :
    ∃ n, (kept.map g.cut ++ unused.map stub)[k]? = some n ∧ m.id = k ∧ n.Copies r.wires m ∧
      m.provenance = n.provenance := by
  have lt := (List.getElem?_eq_some_iff.1 here).1
  rw [carrying.nodes] at here lt
  have size : r.graph.nodes.length = (kept.map g.cut ++ unused.map stub).length :=
    carrying.carries.size
  rw [size] at lt
  have at_k := List.getElem?_eq_getElem lt
  exact ⟨_, at_k, carrying.carries.copies at_k here⟩

theorem here {n : Node} (at_k : (kept.map g.cut ++ unused.map stub)[k]? = some n) :
    ∃ m, g'.nodes[k]? = some m ∧ n.Copies r.wires m ∧ m.provenance = n.provenance := by
  have lt := (List.getElem?_eq_some_iff.1 at_k).1
  have size : r.graph.nodes.length = (kept.map g.cut ++ unused.map stub).length :=
    carrying.carries.size
  rw [← size, ← carrying.nodes] at lt
  have here := List.getElem?_eq_getElem lt
  rcases carrying.copies here with ⟨n', at_k', -, copies, provenance⟩
  cases at_k.symm.trans at_k'
  exact ⟨_, here, copies, provenance⟩

/-- A node of the evaluation order is carried over at its place in the order. -/
theorem carried_of_placed (placed : order[k]? = some id) :
    ∃ n, g.nodes[id]? = some n ∧ (kept.map g.cut ++ unused.map stub)[k]? = some (g.cut n) := by
  obtain ⟨n, among, there⟩ := forall₂_getElem? carrying.keeps placed
  have lt : k < (kept.map g.cut).length := by simpa using (List.getElem?_eq_some_iff.1 among).1
  exact ⟨n, there,
    by rw [List.getElem?_append_left lt, List.getElem?_map, among, Option.map_some]⟩

variable (wf : g.WellFormed)
include wf

/-- The nodes of a well-formed graph are carried as they are, inputs that nothing depends on
without their notes. -/
theorem carried_eq : kept.map g.cut ++ unused.map stub = kept ++ unused.map unnoted := by
  congr 1
  · refine (List.map_congr_left fun n mem => ?_).trans (List.map_id kept)
    rcases List.mem_iff_getElem?.1 mem with ⟨i, at_i⟩
    rcases forall₂_getElem? carrying.keeps.flip at_i with ⟨id, -, there⟩
    exact wf.cut_eq there
  · exact List.map_congr_left fun n mem =>
      wf.stub_eq (carrying.own n mem).1 (carrying.own n mem).2

theorem of_kept {n : Node} (mem : n ∈ kept) : g.nodes[n.id]? = some n ∧ g.Live n.id := by
  rcases List.mem_iff_getElem?.1 mem with ⟨i, at_i⟩
  rcases forall₂_getElem? carrying.keeps.flip at_i with ⟨id, placed, at_id⟩
  rw [wf.id_eq at_id]
  exact ⟨at_id, (wf.mem_evalOrder carrying.ordered).1 (List.mem_of_getElem? placed)⟩

theorem of_unused {n : Node} (mem : n ∈ unused.map unnoted) :
    ∃ m, g.nodes[m.id]? = some m ∧ m.op.isSource = true ∧ n = unnoted m := by
  rcases List.mem_map.1 mem with ⟨m, among, rfl⟩
  rcases carrying.own m among with ⟨at_m, isInput⟩
  rcases wf.sources isInput with ⟨-, m', fact, at_m', op⟩
  cases at_m.symm.trans at_m'
  exact ⟨m, at_m, by rw [op]; rfl, rfl⟩

theorem mem_kept {id : Nat} (live : g.Live id) :
    ∃ (i : Nat) (n : Node), kept[i]? = some n ∧ n.id = id ∧ n.outputs.length = 1 := by
  rcases List.mem_iff_getElem?.1 ((wf.mem_evalOrder carrying.ordered).2 live) with ⟨i, at_i⟩
  rcases forall₂_getElem? carrying.keeps at_i with ⟨n, at_n, there⟩
  exact ⟨i, n, at_n, wf.id_eq there, wf.length_outputs there⟩

/-- A live node is carried before the unused inputs, and only once. -/
theorem not_live_of_unused {n : Node} (mem : n ∈ unused.map unnoted) : ¬ g.Live n.id := by
  intro live
  have distinct := carrying.carries.distinct
  rw [carrying.carried_eq wf, List.map_append, List.nodup_append] at distinct
  rcases carrying.mem_kept wf live with ⟨i, first, at_i, same, -⟩
  exact distinct.2.2 _ (List.mem_map_of_mem (List.mem_of_getElem? at_i)) _
    (List.mem_map_of_mem mem) same

end Carrying

/-- What a compaction keeps: each of its nodes is a copy of one that the outputs depend on or of
an input, and every node that the outputs depend on has its copy, with its notes. -/
structure Compacts (g : Graph) (w : Wires) (g' : Graph) : Prop where
  linked : g'.Linked
  ids : ∀ {k : Nat} {m : Node}, g'.nodes[k]? = some m → m.id = k
  inputs : List.Forall₂ (fun o o' => w.find? o = some o') g.inputs g'.inputs
  outputs : List.Forall₂ (fun o o' => w.find? o = some o') g.outputs g'.outputs
  copied : ∀ {k : Nat} {m : Node}, g'.nodes[k]? = some m → ∃ n : Node, g.nodes[n.id]? = some n ∧
    n.Copies w m ∧ (g.Live n.id ∨ n.op.isSource = true)
  found : ∀ {o o'}, w.find? o = some o' → o'.slot = o.slot ∧ ∃ n m, g.nodes[o.node]? = some n ∧
    g'.nodes[o'.node]? = some m ∧ n.Copies w m ∧ (g.Live o.node → m.provenance = n.provenance)
  live : ∀ {id}, g.Live id → (w.find? ⟨id, 0⟩).isSome
  placed : ∀ {k : Nat} {m : Node}, g'.nodes[k]? = some m → ∃ o, w.find? o = some ⟨k, 0⟩ ∧
    (g.Live o.node ∨ m.op.isSource = true)
  injective : ∀ {o₁ o₂ o'}, w.find? o₁ = some o' → w.find? o₂ = some o' → o₁ = o₂

theorem WellFormed.compacts (wf : g.WellFormed) (run : g.compacted log = .ok g' log') :
    ∃ w, g.Compacts w g' := by
  rcases compacted_eq_ok wf.referenced run with ⟨order, kept, unused, r, carrying⟩
  have carried := carrying.carried_eq wf
  refine ⟨r.wires, carrying.linked, ?_, carrying.inputs, carrying.outputs, ?_, ?_, ?_, ?_, ?_⟩
  · intro k m here
    rcases carrying.copies here with ⟨n, -, id_eq, -⟩
    exact id_eq
  · intro k m here
    rcases carrying.copies here with ⟨n, at_k, -, copies, -⟩
    rw [carried] at at_k
    rcases List.mem_append.1 (List.mem_of_getElem? at_k) with mem | mem
    · rcases carrying.of_kept wf mem with ⟨before, live⟩
      exact ⟨n, before, copies, .inl live⟩
    · rcases carrying.of_unused wf mem with ⟨m', before, isSource, rfl⟩
      exact ⟨m', before, ⟨copies.name, copies.op, copies.facts, copies.inputs⟩, .inr isSource⟩
  · intro o o' found
    rcases carrying.carries.find?_eq_some found with ⟨j, n, at_j, same, -, rfl⟩
    rcases carrying.here at_j with ⟨m, here, copies, provenance⟩
    refine ⟨rfl, ?_⟩
    rw [same]
    rw [carried] at at_j
    rcases List.mem_append.1 (List.mem_of_getElem? at_j) with mem | mem
    · exact ⟨n, m, (carrying.of_kept wf mem).1, here, copies, fun _ => provenance⟩
    · have notLive := carrying.not_live_of_unused wf mem
      rcases carrying.of_unused wf mem with ⟨m', before, isSource, rfl⟩
      exact ⟨m', m, before, here, ⟨copies.name, copies.op, copies.facts, copies.inputs⟩,
        fun live => absurd live notLive⟩
  · intro id live
    rcases carrying.mem_kept wf live with ⟨i, n, at_i, rfl, single⟩
    have placed : (kept.map g.cut ++ unused.map stub)[i]? = some n := by
      rw [carried, List.getElem?_append_left (List.getElem?_eq_some_iff.1 at_i).1, at_i]
    rw [carrying.carries.find? (s := 0) placed (by rw [single]; exact Nat.one_pos)]
    rfl
  · intro k m here
    rcases carrying.copies here with ⟨n, at_k, -, copies, -⟩
    obtain ⟨single, live⟩ : n.outputs.length = 1 ∧ (g.Live n.id ∨ n.op.isSource = true) := by
      have mem := List.mem_of_getElem? at_k
      rw [carried] at mem
      rcases List.mem_append.1 mem with mem | mem
      · rcases carrying.of_kept wf mem with ⟨before, live⟩
        exact ⟨wf.length_outputs before, .inl live⟩
      · rcases carrying.of_unused wf mem with ⟨m', before, isSource, rfl⟩
        have single := wf.length_outputs before
        exact ⟨single, .inr isSource⟩
    exact ⟨⟨n.id, 0⟩, carrying.carries.find? at_k (by rw [single]; exact Nat.one_pos),
      copies.op ▸ live⟩
  · intro o₁ o₂ o' found₁ found₂
    rcases carrying.carries.find?_eq_some found₁ with ⟨j, n, at_j, same, -, rfl⟩
    rcases carrying.carries.find?_eq_some found₂ with ⟨j', n', at_j', same', -, same_o⟩
    rw [Outlet.mk.injEq] at same_o
    rcases same_o with ⟨rfl, slot⟩
    cases at_j.symm.trans at_j'
    rcases o₁ with ⟨_, _⟩
    rcases o₂ with ⟨_, _⟩
    exact Outlet.mk.injEq .. ▸ ⟨same.trans same'.symm, slot⟩

namespace Compacts

variable {w : Wires} {fact : Fact} {m : Node} {id k : Nat} (compacts : g.Compacts w g')
include compacts

theorem fact? (found : w.find? o = some o') (known : g.fact? o = some fact) :
    g'.fact? o' = some fact := by
  rcases compacts.found found with ⟨slot, n, m, there, here, copies, -⟩
  rcases fact?_eq_some.1 known with ⟨n', there', produced⟩
  cases there.symm.trans there'
  exact fact?_eq_some.2 ⟨m, here, by rw [copies.facts, slot, produced]⟩

/-- What an operator infers it infers of the copies. -/
theorem operands {facts : List Fact} (copies : n.Copies w m)
    (known : List.Forall₂ (fun o f => g.fact? o = some f) n.inputs facts) :
    List.Forall₂ (fun o f => g'.fact? o = some f) m.inputs facts := by
  refine forall₂_trans ?_ copies.inputs.flip known
  intro o' o fact found known
  exact compacts.fact? found known

/-- A compaction of a well-formed graph is well-formed. -/
theorem wellFormed (wf : g.WellFormed) : g'.WellFormed where
  id_eq := compacts.ids
  infers := by
    intro k m here
    rcases compacts.copied here with ⟨n, there, copies, -⟩
    rcases wf.infers there with ⟨facts, fact, known, inferred, single⟩
    exact ⟨facts, fact, compacts.operands copies known, by rw [copies.op, inferred],
      by rw [copies.facts, single]⟩
  sources := by
    intro o' mem
    rcases List.mem_iff_getElem?.1 mem with ⟨j, at_j⟩
    rcases forall₂_getElem? compacts.inputs.flip at_j with ⟨o, at_o, found⟩
    rcases wf.sources (List.mem_of_getElem? at_o) with ⟨slot, n, fact, there, op⟩
    rcases compacts.found found with ⟨sameSlot, n', m, there', here, copies, -⟩
    cases there.symm.trans there'
    exact ⟨sameSlot.trans slot, m, fact, here, copies.op.trans op⟩
  answers := by
    intro o' mem
    rcases List.mem_iff_getElem?.1 mem with ⟨j, at_j⟩
    rcases forall₂_getElem? compacts.outputs.flip at_j with ⟨o, at_o, found⟩
    rcases isSome_output?_iff_fact?.1 (wf.answers (List.mem_of_getElem? at_o)) with ⟨fact, known⟩
    exact isSome_output?_iff_fact?.2 ⟨fact, compacts.fact? found known⟩
  linked := compacts.linked

/-- What the outputs depend on stands for what they depended on. -/
theorem live_of_live (wf : g.WellFormed) (live : g'.Live k) :
    ∃ o, w.find? o = some ⟨k, 0⟩ ∧ g.Live o.node := by
  induction live with
  | @answer o' mem =>
    rcases List.mem_iff_getElem?.1 mem with ⟨j, at_j⟩
    rcases forall₂_getElem? compacts.outputs.flip at_j with ⟨o, at_o, found⟩
    have answer := List.mem_of_getElem? at_o
    have slot : o'.slot = 0 := (compacts.found found).1.trans (wf.answer_eq answer).1
    exact ⟨o, by rw [found, ← slot], .answer answer⟩
  | @read id m o' _ here read ih =>
    rcases ih with ⟨reader, found, live⟩
    rcases compacts.found found with ⟨-, n, m', there, here', copies, -⟩
    cases here.symm.trans here'
    rcases List.mem_iff_getElem?.1 read with ⟨j, at_j⟩
    rcases forall₂_getElem? copies.inputs.flip at_j with ⟨o, at_o, found⟩
    have reads := List.mem_of_getElem? at_o
    have slot : o'.slot = 0 := (compacts.found found).1.trans (wf.read_eq there reads).1
    exact ⟨o, by rw [found, ← slot], .read live there reads⟩

/-- What stands for what the outputs depended on is what they depend on. -/
theorem live_copy (wf : g.WellFormed) (live : g.Live id) (found : w.find? ⟨id, 0⟩ = some o') :
    g'.Live o'.node := by
  induction live generalizing o' with
  | @answer o mem =>
    rcases List.mem_iff_getElem?.1 mem with ⟨j, at_j⟩
    rcases forall₂_getElem? compacts.outputs at_j with ⟨o'', at_j', found'⟩
    rw [← (wf.answer_eq mem).1, found'] at found
    exact Option.some.inj found ▸ .answer (List.mem_of_getElem? at_j')
  | @read id n o live there read ih =>
    rcases Option.isSome_iff_exists.1 (compacts.live live) with ⟨reader, foundReader⟩
    rcases compacts.found foundReader with ⟨-, n', m, there', here, copies, -⟩
    cases there.symm.trans there'
    rcases List.mem_iff_getElem?.1 read with ⟨j, at_j⟩
    rcases forall₂_getElem? copies.inputs at_j with ⟨o'', at_j', found'⟩
    rw [← (wf.read_eq there read).1, found'] at found
    exact Option.some.inj found ▸ .read (ih foundReader) here (List.mem_of_getElem? at_j')

/-- Copies have the ranks of what they copy. -/
theorem acyclic (wf : g.WellFormed) (acyclic : g.Acyclic) : g'.Acyclic := by
  rcases acyclic with ⟨rank, ranked⟩
  have stands (k : Nat) : ∃ o, ∀ m, g'.nodes[k]? = some m → w.find? o = some ⟨k, 0⟩ := by
    cases here : g'.nodes[k]? with
    | none => exact ⟨default, by simp⟩
    | some m =>
      rcases compacts.placed here with ⟨o, found, -⟩
      exact ⟨o, fun _ _ => found⟩
  rcases Classical.skolem.1 stands with ⟨copied, stands⟩
  refine ⟨fun k => rank (copied k).node, ?_⟩
  intro k m o' here read
  rcases compacts.found (stands k m here) with ⟨-, n, m', there, here', copies, -⟩
  cases here.symm.trans here'
  rcases List.mem_iff_getElem?.1 read with ⟨j, at_j⟩
  rcases forall₂_getElem? copies.inputs.flip at_j with ⟨o, at_o, found⟩
  have reads := List.mem_of_getElem? at_o
  rcases compacts.found found with ⟨slot, _, m, -, here, -⟩
  have same : copied o'.node = o := by
    refine compacts.injective (stands o'.node m here) ?_
    rw [found, ← (slot.trans (wf.read_eq there reads).1)]
  change rank (copied o'.node).node < rank (copied k).node
  rw [same]
  exact ranked there reads

end Compacts

end Graph

end EvenPad
