import EvenPad.Proofs.Graph.Built

/-!
When building succeeds: an inlet can read every outlet that is there (`connect_ok`), and a node
can be wired when its operator infers a fact from those of its inputs (`wire_ok`).
-/

namespace EvenPad.Graph

variable {g : Graph} {n : Node} {o : Outlet} {i : Inlet} {id : Nat} {name : String} {op : Op}
  {fact : Fact} {inputs outlets : List Outlet} {facts : List Fact}

/-- An inlet that is there or the next of its node can read every outlet that is there, if what it
read before is there too. -/
theorem connect_ok (there : (g.output? o).isSome) (node : g.nodes[i.node]? = some n)
    (slot : i.slot ≤ n.inputs.length)
    (previous : ∀ {p}, g.source? i = some p → (g.output? p).isSome) :
    ∃ g', connect o i g = .ok ⟨⟩ g' := by
  obtain ⟨out, output⟩ := Option.isSome_iff_exists.1 there
  obtain ⟨producer, producerAt, produced⟩ := output?_eq_some.1 output
  have slotLt : o.slot < producer.outputs.length := (List.getElem?_eq_some_iff.1 produced).1
  have source : g.source? i = n.inputs[i.slot]? := by simp [source?, node]
  simp only [connect, Edit.get_bind_apply, Edit.lift_bind_eq_ok, Checked.ofOption_eq_ok,
    Checked.require_eq_ok, decide_eq_true_eq]
  rcases Nat.lt_or_eq_of_le slot with lt | last
  · have read := List.getElem?_eq_getElem lt
    rw [read] at source
    apply Exists.intro
    refine ⟨producer, producerAt, n, node, ⟨⟩, slotLt, ?_⟩
    simp only [read, Edit.bind_eq_ok, detach_eq_ok, Edit.modify_bind_apply]
    rw [if_neg (Nat.ne_of_lt lt), if_pos lt]
    exact ⟨⟨⟩, _, ⟨previous source, rfl⟩, rfl⟩
  · have past : n.inputs[i.slot]? = none := List.getElem?_eq_none (Nat.le_of_eq last.symm)
    apply Exists.intro
    refine ⟨producer, producerAt, n, node, ⟨⟩, slotLt, ?_⟩
    simp only [past, Edit.modify_bind_apply]
    rw [if_pos last]
    rfl

/-- A node whose next slot is linked reads one outlet more. -/
theorem node_link_next (node : g.nodes[id]? = some n) :
    ∃ n', (g.link o ⟨id, n.inputs.length⟩).nodes[id]? = some n' ∧
      n'.inputs = n.inputs ++ [o] := by
  have read : (g.link o ⟨id, n.inputs.length⟩).bare.nodes[id]? =
      some (Node.readingMore [o] n.bare) := by
    rw [bare_link, modifyNode_getElem?, if_pos rfl, bare_getElem?, node]
    simp [Node.reading, Node.readingMore, Node.bare]
  rw [bare_getElem?, Option.map_eq_some_iff] at read
  obtain ⟨n', node', bare⟩ := read
  exact ⟨n', node', congrArg Node.inputs bare⟩

/-- A loop that links the next slots of a node to outlets finds them all if they are there. -/
theorem linkSlots_ok (find : Outlet → Checked Outlet) {sources : List Outlet}
    (founds : List.Forall₂ (fun source found => find source = .ok found) sources outlets)
    (there : ∀ o ∈ outlets, (g.output? o).isSome) (node : g.nodes[id]? = some n) :
    ∃ g', (forM (sources.zipIdx n.inputs.length) fun (source, slot) => do
      let found ← liftM (find source)
      connect found ⟨id, slot⟩ : Edit Graph Unit) g = .ok ⟨⟩ g' := by
  induction founds generalizing g n with
  | nil => exact ⟨g, rfl⟩
  | @cons source found _ outlets foundAt _ ih =>
    obtain ⟨first, there⟩ := List.forall_mem_cons.1 there
    have nothing {p : Outlet} (read : g.source? ⟨id, n.inputs.length⟩ = some p) :
        (g.output? p).isSome := by
      obtain ⟨m, here, at_end⟩ := source?_eq_some.1 read
      cases node.symm.trans here
      simp at at_end
    obtain ⟨g₁, connected⟩ :=
      connect_ok (i := ⟨id, n.inputs.length⟩) first node (Nat.le_refl _) nothing
    obtain ⟨-, -, rfl⟩ := connect_eq_ok connected
    obtain ⟨n₁, node₁, inputs₁⟩ := node_link_next (o := found) node
    have stays : ∀ o ∈ outlets, ((g.link found ⟨id, n.inputs.length⟩).output? o).isSome := by
      intro o mem
      rw [isSome_output?_iff_fact?]
      simpa only [fact?_link, ← isSome_output?_iff_fact?] using there o mem
    obtain ⟨g', rest⟩ := ih stays node₁
    rw [inputs₁, List.length_append, List.length_singleton] at rest
    refine ⟨g', ?_⟩
    rw [List.zipIdx_cons, List.forM_cons]
    exact Edit.bind_eq_ok.2 ⟨⟨⟩, _, Edit.lift_bind_eq_ok.2 ⟨found, foundAt, connected⟩, rest⟩

/-! ## Building step by step -/

theorem addSource_ok : ∃ g', addSource name fact g = .ok ⟨g.size, 0⟩ g' := ⟨_, rfl⟩

theorem addConst_ok (name : String) (value : Tensor) :
    ∃ g', addConst name value g = .ok ⟨g.size, 0⟩ g' := ⟨_, rfl⟩

/-- A node can be wired to outlets from whose facts its operator infers one. -/
theorem wire_ok (name : String)
    (known : List.Forall₂ (fun o f => g.fact? o = some f) inputs facts)
    (inferred : op.outputFact facts = .ok fact) : ∃ o g', wire name op inputs g = .ok o g' := by
  have node : (g.append name op [fact]).nodes[g.size]? = some (.fresh g.size name op [] fact) :=
    push_getElem?_size
  have there : ∀ o ∈ inputs, ((g.append name op [fact]).output? o).isSome := by
    intro o mem
    obtain ⟨i, at_i⟩ := List.mem_iff_getElem?.1 mem
    obtain ⟨f, -, before⟩ := forall₂_getElem? known at_i
    exact isSome_output?_iff_fact?.2
      ⟨f, fact?_push_of_some (n := .fresh g.size name op [] fact) before⟩
  obtain ⟨g', linked⟩ := linkSlots_ok .ok (List.forall₂_same.2 fun _ _ => rfl) there node
  refine ⟨⟨g.size, 0⟩, g', ?_⟩
  simp only [wire, Edit.within_eq_ok, Edit.get_bind_apply, Edit.bind_eq_ok, Edit.lift_eq_ok,
    Checked.mapM_eq_ok_iff, outletFact_eq_ok, Checked.within_eq_ok, addNode, Edit.set_bind_apply,
    Edit.pure_eq_ok]
  exact ⟨facts, _, ⟨known, rfl⟩, fact, _, ⟨inferred, rfl⟩, _, _, ⟨rfl, rfl⟩, ⟨⟩,
    g', linked, rfl, rfl⟩

/-- The same for a transposed convolution with an addend, which is built for the fact that the
addend has. -/
theorem wireFused_ok (name : String) {data filters addend : Outlet}
    {outputShape : Option Outlet} {window : Window} {added : Fact}
    (addendKnown : g.fact? addend = some added)
    (known : List.Forall₂ (fun o f => g.fact? o = some f)
      ([data, filters] ++ outputShape.toList ++ [addend]) facts)
    (inferred : (Op.fusedDeconv window outputShape.isSome added.withoutValue).outputFact facts =
      .ok fact) :
    ∃ o g', wireFused name data filters outputShape addend window g = .ok o g' := by
  simp only [wireFused, Edit.get_bind_apply, Edit.lift_bind_eq_ok, outletFact_eq_ok]
  obtain ⟨o, g', wired⟩ := wire_ok name known inferred
  exact ⟨o, g', added, addendKnown, wired⟩

/-! ## Nodes that are refused -/

/-- Wiring fails where a fact of an input is not found or where the operator does not accept the
facts. It leaves nothing behind then: once a fact is inferred nothing can go wrong. -/
theorem wire_error_cases {g' : Graph} {failure : Failure}
    (run : wire name op inputs g = .error failure g') :
    g' = g ∧ ∃ cause, failure = cause.within (.wiring name op) ∧
      (inputs.mapM g.outletFact = .error cause ∨
        ∃ facts, List.Forall₂ (fun o f => g.fact? o = some f) inputs facts ∧
          (op.outputFact facts).within (.inferring name op) = .error cause) := by
  obtain ⟨cause, refused, rfl⟩ := Edit.within_eq_error.1 run
  rw [Edit.get_bind_apply] at refused
  rcases Edit.lift_bind_eq_error.1 refused with ⟨unknown, rfl⟩ | ⟨facts, known, refused⟩
  · exact ⟨rfl, cause, rfl, .inl unknown⟩
  rw [Checked.mapM_eq_ok_iff] at known
  simp only [outletFact_eq_ok] at known
  rcases Edit.lift_bind_eq_error.1 refused with ⟨rejected, rfl⟩ | ⟨fact, inferred, -⟩
  · exact ⟨rfl, cause, rfl, .inr ⟨facts, known, rejected⟩⟩
  · obtain ⟨o, wired, made⟩ := wire_ok name known (Checked.within_eq_ok.1 inferred)
    rw [made] at run
    cases run

theorem wire_eq_error {g' : Graph} {failure : Failure}
    (run : wire name op inputs g = .error failure g') : g' = g := (wire_error_cases run).1

theorem wireFused_eq_error {data filters addend : Outlet} {outputShape : Option Outlet}
    {window : Window} {g' : Graph} {failure : Failure}
    (run : wireFused name data filters outputShape addend window g = .error failure g') :
    g' = g := by
  rw [wireFused, Edit.get_bind_apply] at run
  rcases Edit.lift_bind_eq_error.1 run with ⟨-, rfl⟩ | ⟨fact, -, refused⟩
  · rfl
  · exact wire_eq_error refused

/-! ## Edges that are found consistent -/

variable {slot : Nat} {u : PUnit}

/-- An outlet that has readers is there. -/
theorem isSome_of_mem_readers (listed : i ∈ g.readers o) : (g.output? o).isSome := by
  cases found : g.output? o with
  | none => simp [readers, found] at listed
  | some output => rfl

theorem checkInput_eq_ok : g.checkInput n slot o = .ok u ↔ ⟨n.id, slot⟩ ∈ g.readers o := by
  simp only [checkInput, Checked.bind_eq_ok, Checked.ofOption_eq_ok, Checked.require_eq_ok,
    List.contains_iff_mem, readers]
  constructor
  · rintro ⟨producer, there, output, produced, listed⟩
    rwa [output?_eq_some.2 ⟨producer, there, produced⟩]
  · intro listed
    cases found : g.output? o with
    | none => simp [found] at listed
    | some output =>
      obtain ⟨producer, there, produced⟩ := output?_eq_some.1 found
      exact ⟨producer, there, output, produced, by rwa [found] at listed⟩

theorem checkSuccessor_eq_ok :
    g.checkSuccessor n slot i = .ok u ↔ g.source? i = some ⟨n.id, slot⟩ := by
  simp only [checkSuccessor, Checked.bind_eq_ok, Checked.ofOption_eq_ok, Checked.require_eq_ok,
    beq_iff_eq, source?_eq_some]

/-- Each input is listed by the outlet that it reads, and each listed reader reads the outlet that
lists it. -/
theorem checkNode_eq_ok :
    g.checkNode n = .ok u ↔
      (∀ (slot : Nat) (o : Outlet), n.inputs[slot]? = some o → ⟨n.id, slot⟩ ∈ g.readers o) ∧
      ∀ (slot : Nat) (output : Output), n.outputs[slot]? = some output →
        ∀ i ∈ output.successors, g.source? i = some ⟨n.id, slot⟩ := by
  simp only [checkNode, List.forM_eq_forM, Checked.bind_eq_ok, Checked.forM_eq_ok_iff,
    checkInput_eq_ok, checkSuccessor_eq_ok, exists_const, Prod.forall,
    List.mem_zipIdx_iff_getElem?]
  constructor
  · intro checked
    exact ⟨fun slot o => checked.1 o slot, fun slot output => checked.2 output slot⟩
  · intro checked
    exact ⟨fun o slot => checked.1 slot o, fun output slot => checked.2 slot output⟩

/-- The nodes are checked one by one, and then the outputs of the graph. -/
theorem checkEdges_eq_ok :
    g.checkEdges = .ok u ↔
      (∀ n ∈ g.nodes, g.checkNode n = .ok ⟨⟩) ∧ ∀ o ∈ g.outputs, (g.output? o).isSome := by
  have answers : (∀ o ∈ g.outputs, (do
      let _ ← (g.outletFact o).within .graphOutput
      return () : Checked Unit) = .ok ⟨⟩) ↔ ∀ o ∈ g.outputs, (g.output? o).isSome := by
    simp only [Checked.bind_eq_ok, Checked.within_eq_ok, outletFact_eq_ok, Checked.pure_eq_ok,
      and_true, isSome_output?_iff_fact?]
  simp only [checkEdges, List.forM_eq_forM, Checked.bind_eq_ok, Checked.forM_eq_ok_iff,
    exists_const, ← answers]

/-- The edges of a graph whose nodes carry their positions are found consistent when they are
known at both ends and the outputs are there. -/
theorem checkEdges_eq_ok_iff (ids : ∀ {k : Nat} {n : Node}, g.nodes[k]? = some n → n.id = k) :
    g.checkEdges = .ok ⟨⟩ ↔ g.Symmetric ∧ ∀ o ∈ g.outputs, (g.output? o).isSome := by
  have nodes : (∀ n ∈ g.nodes, g.checkNode n = .ok ⟨⟩) ↔ g.Symmetric := by
    simp only [checkNode_eq_ok]
    constructor
    · intro checked
      have listed {i : Inlet} {o : Outlet} (read : g.source? i = some o) : i ∈ g.readers o := by
        obtain ⟨n, there, read⟩ := source?_eq_some.1 read
        have known := (checked n (List.mem_of_getElem? there)).1 i.slot o read
        rwa [ids there] at known
      have reads {i : Inlet} {o : Outlet} (listed : i ∈ g.readers o) : g.source? i = some o := by
        obtain ⟨output, found⟩ := Option.isSome_iff_exists.1 (isSome_of_mem_readers listed)
        rw [readers, found] at listed
        obtain ⟨n, there, produced⟩ := output?_eq_some.1 found
        have read := (checked n (List.mem_of_getElem? there)).2 o.slot output produced i listed
        rwa [ids there] at read
      exact ⟨fun read => isSome_of_mem_readers (listed read), ⟨reads, listed⟩⟩
    · intro symmetric n mem
      obtain ⟨k, there⟩ := List.mem_iff_getElem?.1 mem
      cases ids there
      refine ⟨fun slot o read => ?_, fun slot output produced i isListed => ?_⟩
      · exact symmetric.mem_readers.2 (source?_eq_some.2 ⟨n, there, read⟩)
      · rw [← symmetric.mem_readers, readers, output?_eq_some.2 ⟨n, there, produced⟩]
        exact isListed
  rw [checkEdges_eq_ok, nodes]

theorem WellFormed.checkEdges_ok (wf : g.WellFormed) : g.checkEdges = .ok ⟨⟩ :=
  (checkEdges_eq_ok_iff wf.id_eq).2 ⟨wf.linked.symmetric, fun _ mem => wf.answers mem⟩

end EvenPad.Graph
