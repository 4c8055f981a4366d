import EvenPad.Optimizer
import EvenPad.Proofs.Faultless
import EvenPad.Proofs.Graph.Assembled
import EvenPad.Proofs.Graph.Compact.Progress
import EvenPad.Proofs.Graph.Inputs

/-!
Whether compaction faults on a graph that was put together in any way, if its edges are found
consistent. The check looks at what nodes read, at the lists of readers and at the outputs of the
graph, but not at its inputs. Main statement: `Assembled.compact_faults_iff`, compaction faults
exactly if an input names a node that is not there and the graph without such inputs can be
compacted; otherwise it succeeds or is refused.
-/

namespace EvenPad.Graph

variable {g g' : Graph} {n : Node} {o : Outlet} {i : Inlet} {nodes : List Node}
  {r r' : Renumbering} {listed listed' order : List Nat} {id : Nat} {log log' : Log}
  {inputs : List Outlet}

/-! ## Evaluation orders -/

section Place

variable (closed : ∀ n ∈ nodes, ∀ o ∈ n.inputs, o.node < nodes.length)
include closed

/-- What a node waits for is in the table if the node is. -/
theorem stacked_waiting {rest : List Nat} (there : nodes[id]? = some n)
    (stacked : ∀ i ∈ id :: rest, i < nodes.length) :
    ∀ i ∈ (n.inputs.map Outlet.node).filter (fun source => !order.contains source) ++ id :: rest,
      i < nodes.length := by
  intro i mem
  rcases List.mem_append.1 mem with mem | mem
  · obtain ⟨o, read, rfl⟩ := List.mem_map.1 (List.mem_filter.1 mem).1
    exact closed n (List.mem_of_getElem? there) o read
  · exact stacked i mem

/-- It does not matter which positions past the table are listed. -/
theorem place_congr (same : ∀ id < nodes.length, id ∈ listed ↔ id ∈ listed')
    (stack opened order : List Nat) (stacked : ∀ id ∈ stack, id < nodes.length) :
    place nodes listed stack opened order = place nodes listed' stack opened order := by
  refine search_induction nodes listed (motive := fun stack opened order =>
    (∀ id ∈ stack, id < nodes.length) →
      place nodes listed stack opened order = place nodes listed' stack opened order)
    ?_ ?_ ?_ ?_ ?_ stack opened order stacked
  · intro opened order _
    rw [place, place]
  · intro id rest opened order here ih stacked
    rw [place_of_mem here, place_of_mem here]
    exact ih (List.forall_mem_cons.1 stacked).2
  · intro id rest opened order fresh ready ih stacked
    obtain ⟨lt, stacked⟩ := List.forall_mem_cons.1 stacked
    rw [place_of_ready fresh ready, place_of_ready fresh (by rwa [← same id lt])]
    exact ih stacked
  · intro id rest opened order _ _ missing stacked
    exact absurd (List.forall_mem_cons.1 stacked).1
      (Nat.not_lt.2 (List.getElem?_eq_none_iff.1 missing))
  · intro id rest opened order n fresh inner there waits ih stacked
    have inner' : id ∉ listed' := by rwa [← same id (List.forall_mem_cons.1 stacked).1]
    rw [place_of_waiting rest fresh inner there waits,
      place_of_waiting rest fresh inner' there waits]
    split
    · rfl
    · next first => exact ih first (stacked_waiting closed there stacked)

end Place

/-! ## Carrying nodes over -/

theorem enter_faultless {consumer : Node} : (enter o i consumer).FaultlessAt g := by
  refine Edit.faultlessAt_modify.bind fun _ _ _ => ?_
  split
  · exact Edit.faultlessAt_modify
  · split
    · exact Edit.faultlessAt_modify
    · exact Edit.faultlessAt_lift Checked.faultless_refuse

/-- Connecting an inlet that is new takes no outlet away from it. -/
theorem connect_faultless (node : g.nodes[i.node]? = some n) (past : n.inputs.length ≤ i.slot) :
    (connect o i).FaultlessAt g := by
  rw [connect_eq]
  refine Edit.faultlessAt_get_bind <|
    Edit.faultlessAt_lift_bind Checked.faultless_ofOption fun producer _ =>
    Edit.faultlessAt_lift_bind Checked.faultless_ofOption fun consumer found =>
    Edit.faultlessAt_lift_bind Checked.faultless_require fun _ _ =>
      Edit.FaultlessAt.bind ?_ fun _ _ _ =>
    enter_faultless
  cases node.symm.trans (Checked.ofOption_eq_ok.1 found)
  rw [List.getElem?_eq_none past]
  exact Edit.faultlessAt_pure

theorem linkSlots_faultless (find : Outlet → Checked Outlet) {sources : List Outlet}
    (finds : ∀ o, (find o).Faultless) (node : g.nodes[id]? = some n) :
    Edit.FaultlessAt g (forM (sources.zipIdx n.inputs.length) fun (source, slot) => do
      let found ← liftM (find source)
      connect found ⟨id, slot⟩ : Edit Graph Unit) := by
  induction sources generalizing g n with
  | nil => exact Edit.faultlessAt_pure
  | cons source rest ih =>
    rw [List.zipIdx_cons, List.forM_cons]
    refine Edit.FaultlessAt.bind (Edit.faultlessAt_lift_bind (finds source) fun found _ =>
      connect_faultless node (Nat.le_refl _)) fun _ g₁ run => ?_
    obtain ⟨found, -, connected⟩ := Edit.lift_bind_eq_ok.1 run
    obtain ⟨-, -, rfl⟩ := connect_eq_ok connected
    obtain ⟨n₁, node₁, inputs₁⟩ := node_link_next (o := found) node
    have rest := ih node₁
    rwa [inputs₁, List.length_append, List.length_singleton] at rest

theorem carryNode_faultless (lt : id < g.size) : (carryNode g r id).Faultless := by
  have there : (g.nodes[id]?).isSome := by rw [List.getElem?_eq_getElem lt, Option.isSome_some]
  refine (Checked.faultless_ofPresent there).bind fun n _ => ?_
  simp only [append_noted]
  split
  · exact Checked.faultless_pure
  · refine Checked.Faultless.bind (Edit.FaultlessAt.runFrom ?_) fun _ _ => Checked.faultless_pure
    exact linkSlots_faultless _ (fun _ => Checked.faultless_ofOption)
      (push_getElem?_size (n := n.landing r.graph.size))

/-- It does not matter to a node which inputs there are besides its own. -/
theorem carryNode_congr {l : List Outlet} (same : ∀ n, g.nodes[id]? = some n →
    ((⟨n.id, 0⟩ : Outlet) ∈ l ↔ (⟨n.id, 0⟩ : Outlet) ∈ g.inputs)) :
    carryNode (g.withInputs l) r id = carryNode g r id := by
  cases there : g.nodes[id]? with
  | none => simp only [carryNode, nodeAt, withInputs, there, Checked.ofPresent]; rfl
  | some n =>
    have same : l.contains (⟨n.id, 0⟩ : Outlet) = g.inputs.contains ⟨n.id, 0⟩ := by
      rw [Bool.eq_iff_iff, List.contains_iff_mem, List.contains_iff_mem]
      exact same n there
    simp only [carryNode, nodeAt, withInputs, there, Checked.ofPresent]
    simp only [bind, Except.bind, same]

theorem carryAll_congr {l : List Outlet} (same : ∀ id ∈ order, ∀ n, g.nodes[id]? = some n →
    ((⟨n.id, 0⟩ : Outlet) ∈ l ↔ (⟨n.id, 0⟩ : Outlet) ∈ g.inputs)) :
    order.foldlM (carryNode (g.withInputs l)) r = order.foldlM (carryNode g) r := by
  induction order generalizing r with
  | nil => rfl
  | cons id rest ih =>
    obtain ⟨first, same⟩ := List.forall_mem_cons.1 same
    rw [List.foldlM_cons, List.foldlM_cons, carryNode_congr first]
    exact bind_congr fun r₁ => ih same

/-! ## Inputs -/

/-- An input whose node is not there ends the carrying of inputs with a fault, if those before it
can be carried over. -/
theorem carryInputs_faults (within : ∀ o, (r.wires.find? o).isSome → o.node < g.size)
    (there : ∀ o ∈ inputs, o.node < g.size → (g.output? ⟨o.node, 0⟩).isSome)
    (dangling : ∃ o ∈ inputs, g.size ≤ o.node) (log : Log) :
    ∃ fault log', inputs.foldlM (carryInput g) r log = .error (.faulty fault) log' := by
  induction inputs generalizing r log with
  | nil => simp at dangling
  | cons o rest ih =>
    obtain ⟨here, there⟩ := List.forall_mem_cons.1 there
    rw [List.foldlM_cons]
    rcases Nat.lt_or_ge o.node g.size with lt | ge
    · obtain ⟨r₁, log₁, first⟩ := carryInput_ok (r := r) (here lt) log
      have dangling : ∃ o ∈ rest, g.size ≤ o.node := by
        obtain ⟨x, mem, ge⟩ := dangling
        rcases List.mem_cons.1 mem with rfl | mem
        · exact absurd lt (Nat.not_lt.2 ge)
        · exact ⟨x, mem, ge⟩
      have within : ∀ x, (r₁.wires.find? x).isSome → x.node < g.size := by
        intro x found
        rcases (carryInput_found first x).1 found with rfl | found
        · exact lt
        · exact within x found
      obtain ⟨fault, log', failed⟩ := ih within there dangling log₁
      exact ⟨fault, log', Edit.bind_eq_error.2 (.inr ⟨r₁, log₁, first, failed⟩)⟩
    · have missing : g.nodes[o.node]? = none := List.getElem?_eq_none ge
      have fresh : r.wires.find? o = none := by
        rw [← Option.not_isSome_iff_eq_none]
        exact fun found => Nat.not_lt.2 ge (within o found)
      refine ⟨.missingNode o.node, log, Edit.bind_eq_error.2 (.inl ?_)⟩
      simp only [carryInput, fresh, nodeAt, missing]
      rfl

/-! ## Whole graphs -/

/-- The graph without the inputs whose nodes are not there. -/
def withoutDangling (g : Graph) : Graph := g.withInputs (g.inputs.filter (·.node < g.size))

theorem withoutDangling_eq_self (there : ∀ o ∈ g.inputs, o.node < g.size) :
    g.withoutDangling = g := by
  rw [withoutDangling, List.filter_eq_self.2 fun o mem => by simpa using there o mem]
  rfl

/-- A node of the table has a first outlet. -/
theorem Tabulated.first (tabulated : g.Tabulated) (lt : id < g.size) :
    (g.output? ⟨id, 0⟩).isSome := by
  have there := List.getElem?_eq_getElem lt
  have slot : 0 < g.nodes[id].facts.length := by
    rw [Node.length_facts, tabulated.single there]
    exact Nat.one_pos
  exact isSome_output?_iff_fact?.2 ⟨_, fact?_eq_some.2 ⟨_, there, List.getElem?_eq_getElem slot⟩⟩

section Consistent

variable (tabulated : g.Tabulated) (consistent : g.checkEdges = .ok ⟨⟩)
include tabulated consistent

theorem closed_of_checkEdges : ∀ n ∈ g.nodes, ∀ o ∈ n.inputs, o.node < g.size := by
  intro n mem o read
  obtain ⟨symmetric, -⟩ := (checkEdges_eq_ok_iff tabulated.ids).1 consistent
  obtain ⟨k, there⟩ := List.mem_iff_getElem?.1 mem
  obtain ⟨slot, at_slot⟩ := List.mem_iff_getElem?.1 read
  exact lt_size_of_isSome
    (symmetric.there (source?_eq_some (i := ⟨k, slot⟩).2 ⟨n, there, at_slot⟩))

theorem answers_of_checkEdges : ∀ o ∈ g.outputs, (g.output? o).isSome :=
  ((checkEdges_eq_ok_iff tabulated.ids).1 consistent).2

/-- A search that comes across nodes of the table only is refused for a loop, or not at all. -/
theorem evalOrder_faultless : g.evalOrder.Faultless := by
  intro fault failed
  have closed {id source : Nat} (follows : Follows g.nodes (g.inputs.map Outlet.node) id source) :
      source < g.size := by
    obtain ⟨-, n, o, there, read, rfl⟩ := follows
    exact closed_of_checkEdges tabulated consistent n (List.mem_of_getElem? there) o read
  have aims : ∀ target ∈ g.outputs.map Outlet.node, target < g.size := by
    intro target mem
    obtain ⟨o, answer, rfl⟩ := List.mem_map.1 mem
    exact lt_size_of_isSome (answers_of_checkEdges tabulated consistent o answer)
  obtain ⟨id, n, refused, -⟩ :=
    orderFor_eq_error (P := (· < g.size)) (fun inside => inside) (fun _ => closed) aims failed
  cases refused

theorem lt_size_of_mem_order (ordered : g.evalOrder = .ok order) : ∀ id ∈ order, id < g.size := by
  intro id mem
  obtain ⟨-, live, -⟩ := evalOrder_eq_ok ordered
  cases live id mem with
  | answer answer => exact lt_size_of_isSome (answers_of_checkEdges tabulated consistent _ answer)
  | read _ there read =>
    exact closed_of_checkEdges tabulated consistent _ (List.mem_of_getElem? there) _ read

/-- The evaluation order does not look at inputs whose nodes are not there. -/
theorem evalOrder_withoutDangling : g.withoutDangling.evalOrder = g.evalOrder := by
  refine bind_congr fun _ =>
    (place_congr (closed_of_checkEdges tabulated consistent) ?_ _ _ _ ?_).symm
  · intro id lt
    simp only [withoutDangling, withInputs_inputs, List.mem_map,
      List.mem_filter, decide_eq_true_eq]
    constructor
    · rintro ⟨o, mem, rfl⟩
      exact ⟨o, ⟨mem, lt⟩, rfl⟩
    · rintro ⟨o, ⟨mem, -⟩, rfl⟩
      exact ⟨o, mem, rfl⟩
  · intro id mem
    obtain ⟨o, answer, rfl⟩ := List.mem_map.1 (List.mem_reverse.1 mem)
    exact lt_size_of_isSome (answers_of_checkEdges tabulated consistent o answer)

/-- Neither does the carrying of nodes. -/
theorem carryAll_withoutDangling (ordered : g.evalOrder = .ok order) :
    order.foldlM (carryNode g.withoutDangling) r = order.foldlM (carryNode g) r := by
  refine carryAll_congr fun id mem n there => ?_
  rw [List.mem_filter, tabulated.ids there, and_iff_left]
  simpa using lt_size_of_mem_order tabulated consistent ordered id mem

/-- The nodes of an evaluation order that have been carried over can be found, and nothing
else. -/
theorem found_of_carryAll (ordered : g.evalOrder = .ok order)
    (carried : order.foldlM (carryNode g) ⟨.empty, []⟩ = .ok r) :
    (∀ o ∈ g.outputs, (r.wires.find? o).isSome) ∧ ∀ o, (r.wires.find? o).isSome →
    o.node < g.size := by
  obtain ⟨sorted, -, answers⟩ := evalOrder_eq_ok ordered
  obtain ⟨kept, keeps, carries⟩ := carryAll_eq_ok tabulated.ids sorted carried
  refine ⟨fun o answer => found_of_mem tabulated.ids carries keeps (answers o answer)
    (answers_of_checkEdges tabulated consistent o answer), fun o found => ?_⟩
  obtain ⟨o', found⟩ := Option.isSome_iff_exists.1 found
  obtain ⟨j, c, at_j, node, -, -⟩ := carries.find?_eq_some found
  obtain ⟨n, among, rfl⟩ := List.mem_map.1 (List.mem_of_getElem? at_j)
  obtain ⟨id, -, there⟩ := forall₂_of_mem keeps.flip among
  rw [node, id_cut, tabulated.ids there]
  exact (List.getElem?_eq_some_iff.1 there).1

/-- If the nodes can be carried over, so can the inputs whose nodes are there, and all that has to
be kept is found. -/
theorem compacted_withoutDangling_ok (ordered : g.evalOrder = .ok order)
    (carried : order.foldlM (carryNode g) ⟨.empty, []⟩ = .ok r) (log : Log) :
    ∃ g' log', g.withoutDangling.compacted log = .ok g' log' := by
  obtain ⟨answers, -⟩ := found_of_carryAll tabulated consistent ordered carried
  have there : ∀ o ∈ g.withoutDangling.inputs, (g.withoutDangling.output? ⟨o.node, 0⟩).isSome :=
    fun o mem =>
    tabulated.first (by simpa using (List.mem_filter.1 mem).2)
  obtain ⟨r', log', unused, found⟩ := carryInputs_ok there log
  obtain ⟨inputs', locatedInputs⟩ := located_ok fun o mem => found o (.inl mem)
  obtain ⟨outputs', locatedOutputs⟩ := located_ok fun o mem => found o (.inr (answers o mem))
  rw [← carryAll_withoutDangling tabulated consistent ordered] at carried
  rw [← evalOrder_withoutDangling tabulated consistent] at ordered
  simp only [compacted, Edit.bind_eq_ok, Edit.lift_eq_ok, Edit.pure_eq_ok]
  exact ⟨_, _, order, _, ⟨ordered, rfl⟩, r, _, ⟨carried, rfl⟩, r', log', unused, inputs', _,
    ⟨locatedInputs, rfl⟩, outputs', _, ⟨locatedOutputs, rfl⟩, rfl, rfl⟩

theorem compacted_faults_iff (log : Log) :
    (∃ fault log', g.compacted log = .error (.faulty fault) log') ↔
      (∃ o ∈ g.inputs, g.size ≤ o.node) ∧ ∃ g' log',
      g.withoutDangling.compacted log = .ok g' log' := by
  constructor
  · rintro ⟨fault, log', failed⟩
    rcases Edit.lift_bind_eq_error.1 failed with ⟨unordered, -⟩ | ⟨order, ordered, rest⟩
    · exact absurd unordered (evalOrder_faultless tabulated consistent fault)
    rcases Edit.lift_bind_eq_error.1 rest with ⟨stuck, -⟩ | ⟨r, carried, -⟩
    · refine absurd stuck (Checked.faultless_foldlM (fun r id mem => ?_) _ fault)
      exact carryNode_faultless (lt_size_of_mem_order tabulated consistent ordered id mem)
    have compacts := compacted_withoutDangling_ok tabulated consistent ordered carried log
    refine ⟨?_, compacts⟩
    by_contra none
    obtain ⟨g', log'', run⟩ := compacts
    rw [withoutDangling_eq_self (by simpa using none), failed] at run
    cases run
  · rintro ⟨dangling, g', log', run⟩
    simp only [compacted, Edit.bind_eq_ok, Edit.lift_eq_ok] at run
    obtain ⟨order, _, ⟨ordered, rfl⟩, r, _, ⟨carried, rfl⟩, -⟩ := run
    rw [evalOrder_withoutDangling tabulated consistent] at ordered
    rw [carryAll_withoutDangling tabulated consistent ordered] at carried
    obtain ⟨-, within⟩ := found_of_carryAll tabulated consistent ordered carried
    obtain ⟨fault, log', failed⟩ :=
      carryInputs_faults within (fun o _ lt => tabulated.first lt) dangling log
    exact ⟨fault, log', Edit.lift_bind_eq_error.2 (.inr ⟨order, ordered, Edit.lift_bind_eq_error.2
      (.inr ⟨r, carried, Edit.bind_eq_error.2 (.inl failed)⟩)⟩)⟩

end Consistent

/-- If the edges of a graph that was put together are found consistent, its compaction faults
exactly if an input names a node that is not there and nothing else is in the way; and an
optimizer faults with it. -/
theorem Assembled.compact_faults_iff (assembled : g.Assembled)
    (consistent : g.checkEdges = .ok ⟨⟩) (log : Log) :
    ((∃ fault s, compact ⟨g, log⟩ = .error (.faulty fault) s) ↔
      (∃ o ∈ g.inputs, g.size ≤ o.node) ∧ ∃ s, compact ⟨g.withoutDangling, log⟩ = .ok ⟨⟩ s) ∧
    ∀ fault s, compact ⟨g, log⟩ = .error (.faulty fault) s →
      ∀ o : Optimizer, o.optimize ⟨g, log⟩ = .error (.faulty fault) s := by
  constructor
  · simp only [RuleSet.compact_eq_error, RuleSet.compact_eq_ok]
    refine Iff.trans ?_ ((compacted_faults_iff assembled.tabulated consistent log).trans ?_)
    · constructor
      · rintro ⟨fault, s, log', failed, -⟩
        exact ⟨fault, log', failed⟩
      · rintro ⟨fault, log', failed⟩
        exact ⟨fault, _, log', failed, rfl⟩
    · refine and_congr_right fun _ => ⟨?_, ?_⟩
      · rintro ⟨g', log', run⟩
        exact ⟨⟨g', log'⟩, run⟩
      · rintro ⟨s, run⟩
        exact ⟨s.graph, s.log, run⟩
  · intro fault s failed o
    rw [Optimizer.optimize, Edit.get_bind_apply]
    exact Edit.lift_bind_eq_error.2 (.inr ⟨⟨⟩, consistent, Edit.bind_eq_error.2 (.inl failed)⟩)

/-- An input that is answered, and an input that names a node that is not there. -/
def strayInput : Edit Graph Unit := do
  let data ← addSource "x" (.typed .f32 (.ofLengths [1]))
  setOutputs [data]
  setInputs [data, ⟨7, 0⟩]

theorem assembled_strayInput : (strayInput.after .empty).Assembled := by
  have source : Move .empty ((addSource "x" (.typed .f32 (.ofLengths [1]))).after .empty) :=
    .source _ _
  exact ((Relation.ReflTransGen.single source).tail (.answer [⟨0, 0⟩])).tail
    (.ask [⟨0, 0⟩, ⟨7, 0⟩])

/-- It is found consistent, and its compaction faults. -/
theorem Assembled.compact_faults_iff_strayInput :
    ∃ g, strayInput .empty = .ok ⟨⟩ g ∧ g.Assembled ∧ g.checkEdges = .ok ⟨⟩ ∧
      ∃ fault s, compact ⟨g, []⟩ = .error (.faulty fault) s ∧
        Optimizer.unpadding.optimize ⟨g, []⟩ = .error (.faulty fault) s := by
  obtain ⟨g, g₁, made, consistent, inputs, source, there, answer⟩ : ∃ g g₁,
      strayInput .empty = .ok ⟨⟩ g ∧
      g.checkEdges = .ok ⟨⟩ ∧ (∃ o ∈ g.inputs, g.size ≤ o.node) ∧
      addSource "x" (.typed .f32 (.ofLengths [1])) .empty = .ok ⟨0, 0⟩ g₁ ∧
      (∀ o ∈ [⟨0, 0⟩], (g₁.output? o).isSome) ∧
      setOutputs [⟨0, 0⟩] g₁ = .ok ⟨⟩ g.withoutDangling :=
    ⟨_, _, rfl, by decide, by decide, rfl, by decide, rfl⟩
  have built : g.withoutDangling.Built := .answer (.source .empty source) there answer
  obtain ⟨g', log', compacted⟩ := built.wellFormed.compacted_ok built.acyclic []
  have compacts : compact ⟨g.withoutDangling, []⟩ = .ok ⟨⟩ ⟨g', log'⟩ :=
    RuleSet.compact_eq_ok.2 compacted
  have assembled : g.Assembled := Edit.after_of_ok made ▸ assembled_strayInput
  obtain ⟨faults, spreads⟩ := assembled.compact_faults_iff consistent []
  obtain ⟨fault, s, failed⟩ := faults.2 ⟨inputs, _, compacts⟩
  exact ⟨g, made, assembled, consistent, fault, s, failed, spreads fault s failed _⟩

end EvenPad.Graph
