import EvenPad.Proofs.Graph.Progress

/-!
What a connection does to a graph. One that succeeds takes the inlet off the outlet that it read
before, if any, and puts it behind the other readers of the new one. One that fails has not
changed anything if an outlet or a node is not there, but an inlet that `Skips` a slot is refused
only after the outlet has listed it.

Main statements: `connect_rewires`, where every inlet is listed once by the outlet that it reads,
so it is afterwards, and no other inlet is read or listed otherwise than before; `connect_exact`,
in a consistent graph a connection that fails leaves the graph as it was, or consistent, exactly
if the inlet does not skip a slot.
-/

namespace EvenPad.Graph

variable {g g' : Graph} {n : Node} {o : Outlet} {i : Inlet} {failure : Failure}

/-- The outlet and the node of the inlet are there, but the slot lies past the next one of that
node. -/
def Skips (g : Graph) (o : Outlet) (i : Inlet) : Prop :=
  (g.output? o).isSome ∧ ∃ n, g.nodes[i.node]? = some n ∧ n.inputs.length < i.slot

/-! ## Connections that succeed -/

/-- Linking leaves the positions that nodes carry. -/
theorem ids_link (ids : ∀ {k : Nat} {n : Node}, g.nodes[k]? = some n → n.id = k)
    {k : Nat} {m : Node} (there : (g.link o i).nodes[k]? = some m) : m.id = k := by
  have bare : (g.link o i).bare.nodes[k]? = some m.bare := by
    rw [bare_getElem?, there, Option.map_some]
  rw [bare_link, modifyNode_getElem?, bare_getElem?] at bare
  cases before : g.nodes[k]? with
  | none => simp [before] at bare
  | some n =>
    have same : n.bare.id = m.bare.id := by
      rw [before] at bare
      split at bare
      · rw [← Option.some.inj bare]
        rfl
      · rw [Option.some.inj bare]
    have carried : n.id = k := ids before
    exact same.symm.trans carried

/-- Where each inlet is listed once, linking one puts it behind the other readers of its
outlet. -/
theorem Linked.readers_link (linked : g.Linked) (there : (g.output? o).isSome) (p : Outlet) :
    (g.link o i).readers p = (g.readers p).filter (· ≠ i) ++ if p = o then [i] else [] := by
  rw [Graph.readers_link linked.there there]
  congr 1
  split
  · rfl
  · next elsewhere =>
    have unlisted : i ∉ g.readers p := fun listed => elsewhere (linked.mem_readers.1 listed)
    refine (List.filter_eq_self.2 fun j listed => ?_).symm
    exact decide_eq_true fun same => unlisted (same ▸ listed)

/-- A connection that succeeds keeps edges exact: nodes carry their positions, and every inlet is
listed once, by the outlet that it reads. The inlet reads the outlet and stands last among its
readers, every other inlet reads what it read before, and the other readers of every outlet stay
in their order. -/
theorem connect_rewires {u : Unit} (ids : ∀ {k : Nat} {n : Node}, g.nodes[k]? = some n → n.id = k)
    (linked : g.Linked) (run : connect o i g = .ok u g') :
    (∀ {k : Nat} {n : Node}, g'.nodes[k]? = some n → n.id = k) ∧ g'.Linked ∧
      g'.source? i = some o ∧ (∀ j, j ≠ i → g'.source? j = g.source? j) ∧
      ∀ p, g'.readers p = (g.readers p).filter (· ≠ i) ++ if p = o then [i] else [] := by
  obtain ⟨there, ⟨n, node, slot⟩, rfl⟩ := connect_eq_ok run
  refine ⟨ids_link ids, linked.link there node slot, ?_, fun j other => ?_,
    linked.readers_link there⟩
  · rw [source?_link node slot, if_pos rfl]
  · rw [source?_link node slot, if_neg other]

/-- A source with the pads of a constant on both sides. -/
def padded : Edit Graph Unit := do
  let x ← addSource "x" (.typed .f32 (.ofLengths [2]))
  let pads ← addConst "pads" (.vector [1])
  let _ ← wire "pad" .pad [x, pads, pads]

/-- A new slot, one that moves to another outlet, one that stays with its own, and one that reads
its own node. -/
theorem connect_rewires_padded : ∃ g, padded .empty = .ok ⟨⟩ g ∧
    (∀ {k : Nat} {n : Node}, g.nodes[k]? = some n → n.id = k) ∧ g.Linked ∧
    (∃ g', connect ⟨0, 0⟩ ⟨2, 3⟩ g = .ok ⟨⟩ g' ∧ g'.Linked ∧
      g'.readers ⟨0, 0⟩ = [⟨2, 0⟩, ⟨2, 3⟩]) ∧
    (∃ g', connect ⟨0, 0⟩ ⟨2, 1⟩ g = .ok ⟨⟩ g' ∧ g'.Linked ∧
      g'.readers ⟨0, 0⟩ = [⟨2, 0⟩, ⟨2, 1⟩] ∧ g'.readers ⟨1, 0⟩ = [⟨2, 2⟩]) ∧
    (∃ g', connect ⟨1, 0⟩ ⟨2, 1⟩ g = .ok ⟨⟩ g' ∧ g'.Linked ∧
      g'.readers ⟨1, 0⟩ = [⟨2, 2⟩, ⟨2, 1⟩]) ∧
    ∃ g', connect ⟨2, 0⟩ ⟨2, 0⟩ g = .ok ⟨⟩ g' ∧ g'.Linked ∧ g'.source? ⟨2, 0⟩ = some ⟨2, 0⟩ ∧
      g'.readers ⟨0, 0⟩ = [] := by
  obtain ⟨g, g₁, g₂, n, made, source, const, wired, node, slots, there, ofSource,
      ofPads⟩ : ∃ g g₁ g₂ n, padded .empty = .ok ⟨⟩ g ∧
    addSource "x" (.typed .f32 (.ofLengths [2])) .empty = .ok ⟨0, 0⟩ g₁ ∧
      addConst "pads" (.vector [1]) g₁ = .ok ⟨1, 0⟩ g₂ ∧
      wire "pad" .pad [⟨0, 0⟩, ⟨1, 0⟩, ⟨1, 0⟩] g₂ = .ok ⟨2, 0⟩ g ∧
      g.nodes[2]? = some n ∧ n.inputs.length = 3 ∧ (∀ k < 3, (g.output? ⟨k, 0⟩).isSome) ∧
      g.readers ⟨0, 0⟩ = [⟨2, 0⟩] ∧ g.readers ⟨1, 0⟩ = [⟨2, 1⟩, ⟨2, 2⟩] :=
    ⟨_, _, _, _, rfl, rfl, rfl, rfl, rfl, rfl, by decide, rfl, rfl⟩
  have wf : g.WellFormed := (Built.wire (.const (.source .empty source) const) wired).wellFormed
  have connects (k slot : Nat) (lt : k < 3) (le : slot ≤ 3) :
      ∃ g', connect ⟨k, 0⟩ ⟨2, slot⟩ g = .ok ⟨⟩ g' :=
    connect_ok (there k lt) node (slots ▸ le) wf.linked.there
  refine ⟨g, made, wf.id_eq, wf.linked, ?_, ?_, ?_, ?_⟩
  · obtain ⟨g', run⟩ := connects 0 3 (by decide) (by decide)
    obtain ⟨-, linked, -, -, readers⟩ := connect_rewires wf.id_eq wf.linked run
    exact ⟨g', run, linked, by rw [readers, ofSource]; rfl⟩
  · obtain ⟨g', run⟩ := connects 0 1 (by decide) (by decide)
    obtain ⟨-, linked, -, -, readers⟩ := connect_rewires wf.id_eq wf.linked run
    exact ⟨g', run, linked, by rw [readers, ofSource]; rfl, by rw [readers, ofPads]; rfl⟩
  · obtain ⟨g', run⟩ := connects 1 1 (by decide) (by decide)
    obtain ⟨-, linked, -, -, readers⟩ := connect_rewires wf.id_eq wf.linked run
    exact ⟨g', run, linked, by rw [readers, ofPads]; rfl⟩
  · obtain ⟨g', run⟩ := connects 2 0 (by decide) (by decide)
    obtain ⟨-, linked, reads, -, readers⟩ := connect_rewires wf.id_eq wf.linked run
    exact ⟨g', run, linked, reads, by rw [readers, ofSource]; rfl⟩

/-! ## Consistent graphs -/

theorem isSome_of_checkEdges (consistent : g.checkEdges = .ok ⟨⟩) (read : g.source? i = some o) :
    (g.output? o).isSome := by
  obtain ⟨n, there, read⟩ := source?_eq_some.1 read
  have known := (checkEdges_eq_ok.1 consistent).1 n (List.mem_of_getElem? there)
  exact isSome_of_mem_readers ((checkNode_eq_ok.1 known).1 i.slot o read)

/-- In a consistent graph whoever is listed as a reader reads something. -/
theorem reads_of_checkEdges (consistent : g.checkEdges = .ok ⟨⟩) (listed : i ∈ g.readers o) :
    (g.source? i).isSome := by
  obtain ⟨output, found⟩ := Option.isSome_iff_exists.1 (isSome_of_mem_readers listed)
  rw [readers, found] at listed
  obtain ⟨n, there, produced⟩ := output?_eq_some.1 found
  have known := (checkEdges_eq_ok.1 consistent).1 n (List.mem_of_getElem? there)
  rw [(checkNode_eq_ok.1 known).2 o.slot output produced i listed, Option.isSome_some]

/-! ## Refusals -/

/-- What is not there is refused before anything has changed. -/
theorem connect_missing (missing : ¬ ((g.output? o).isSome ∧ (g.nodes[i.node]?).isSome)) :
    ∃ cause, connect o i g = .error (.refused [] cause) g := by
  rw [connect_eq, Edit.get_bind_apply]
  cases producerAt : g.nodes[o.node]? with
  | none => exact ⟨_, rfl⟩
  | some producer =>
    cases consumerAt : g.nodes[i.node]? with
    | none => exact ⟨_, rfl⟩
    | some consumer =>
      have past : ¬ o.slot < producer.outputs.length := by
        intro lt
        refine missing ⟨?_, by rw [consumerAt, Option.isSome_some]⟩
        rw [Option.isSome_iff_exists]
        exact ⟨_, output?_eq_some.2 ⟨producer, producerAt, List.getElem?_eq_getElem lt⟩⟩
      refine ⟨.outletPastNode o producer, ?_⟩
      have refused :
          Checked.require (o.slot < producer.outputs.length) (.outletPastNode o producer) =
          .error (.refused [] (.outletPastNode o producer)) := by
        rw [decide_eq_false past]
        rfl
      exact Edit.lift_bind_eq_error.2 (.inr ⟨producer, rfl, Edit.lift_bind_eq_error.2
        (.inr ⟨consumer, rfl, Edit.lift_bind_eq_error.2 (.inl ⟨refused, rfl⟩)⟩)⟩)

/-- A slot past the next one is refused after the outlet has listed the inlet. -/
theorem connect_past (there : (g.output? o).isSome) (node : g.nodes[i.node]? = some n)
    (past : n.inputs.length < i.slot) :
    connect o i g =
      .error (.refused [] (.inletOutOfOrder i.slot n)) (g.modifySuccessors o (· ++ [i])) := by
  obtain ⟨out, output⟩ := Option.isSome_iff_exists.1 there
  obtain ⟨producer, producerAt, produced⟩ := output?_eq_some.1 output
  have slot : o.slot < producer.outputs.length := (List.getElem?_eq_some_iff.1 produced).1
  have found : Checked.require (o.slot < producer.outputs.length) (.outletPastNode o producer) =
      .ok ⟨⟩ :=
    Checked.require_eq_ok.2 (decide_eq_true slot)
  have entered : enter o i n g =
      .error (.refused [] (.inletOutOfOrder i.slot n)) (g.modifySuccessors o (· ++ [i])) := by
    rw [enter, Edit.modify_bind_apply, if_neg (Nat.ne_of_gt past), if_neg (Nat.lt_asymm past)]
    rfl
  rw [connect_eq, Edit.get_bind_apply, producerAt, node]
  refine Edit.lift_bind_eq_error.2 (.inr ⟨producer, rfl, Edit.lift_bind_eq_error.2
    (.inr ⟨n, rfl, Edit.lift_bind_eq_error.2 (.inr ⟨⟨⟩, found, ?_⟩)⟩)⟩)
  rw [List.getElem?_eq_none (Nat.le_of_lt past)]
  exact entered

namespace Skips

theorem connect_eq (skips : g.Skips o i) : ∃ n, connect o i g =
    .error (.refused [] (.inletOutOfOrder i.slot n)) (g.modifySuccessors o (· ++ [i])) := by
  obtain ⟨there, n, node, past⟩ := skips
  exact ⟨n, connect_past there node past⟩

/-- The outlet lists an inlet that reads nothing. -/
theorem checkEdges_ne_ok (skips : g.Skips o i) :
    (g.modifySuccessors o (· ++ [i])).checkEdges ≠ .ok ⟨⟩ := by
  intro consistent
  obtain ⟨there, n, node, past⟩ := skips
  have listed : i ∈ (g.modifySuccessors o (· ++ [i])).readers o := by
    rw [readers_modifySuccessors there, if_pos rfl]
    exact List.mem_append_right _ (List.mem_singleton_self i)
  have reads := reads_of_checkEdges consistent listed
  rw [← source?_bare, bare_modifySuccessors, source?_bare] at reads
  have nothing : g.source? i = none := by
    rw [source?, node]
    exact List.getElem?_eq_none (Nat.le_of_lt past)
  rw [nothing] at reads
  cases reads

end Skips

/-- In a consistent graph a connection succeeds exactly if the outlet is there and the inlet is,
or is the next of its node. One that fails is refused, and it leaves the graph as it was, or
consistent, exactly if the inlet does not skip a slot: otherwise the outlet lists it. -/
theorem connect_exact (consistent : g.checkEdges = .ok ⟨⟩) (o : Outlet) (i : Inlet) :
    ((∃ g', connect o i g = .ok ⟨⟩ g') ↔
      (g.output? o).isSome ∧ ∃ n, g.nodes[i.node]? = some n ∧ i.slot ≤ n.inputs.length) ∧
    ∀ failure g', connect o i g = .error failure g' →
      (∃ cause, failure = .refused [] cause) ∧
      (g' = g ↔ ¬ g.Skips o i) ∧
      (g'.checkEdges = .ok ⟨⟩ ↔ ¬ g.Skips o i) ∧
      (g.Skips o i → g' = g.modifySuccessors o (· ++ [i])) := by
  have connects : (∃ g', connect o i g = .ok ⟨⟩ g') ↔
      (g.output? o).isSome ∧ ∃ n, g.nodes[i.node]? = some n ∧ i.slot ≤ n.inputs.length := by
    constructor
    · intro ⟨g', run⟩
      obtain ⟨there, slot, -⟩ := connect_eq_ok run
      exact ⟨there, slot⟩
    · intro ⟨there, n, node, slot⟩
      exact connect_ok there node slot (isSome_of_checkEdges consistent)
  refine ⟨connects, fun failure g' failed => ?_⟩
  by_cases skips : g.Skips o i
  · obtain ⟨n, run⟩ := skips.connect_eq
    cases failed.symm.trans run
    have inconsistent := skips.checkEdges_ne_ok
    have changed : g.modifySuccessors o (· ++ [i]) ≠ g := by
      intro same
      rw [same] at inconsistent
      exact inconsistent consistent
    exact ⟨⟨_, rfl⟩, by simp [skips, changed], by simp [skips, inconsistent], fun _ => rfl⟩
  · have missing : ¬ ((g.output? o).isSome ∧ (g.nodes[i.node]?).isSome) := by
      intro ⟨there, consumer⟩
      obtain ⟨n, node⟩ := Option.isSome_iff_exists.1 consumer
      rcases Nat.lt_or_ge n.inputs.length i.slot with past | slot
      · exact skips ⟨there, n, node, past⟩
      · obtain ⟨g'', run⟩ := connects.2 ⟨there, n, node, slot⟩
        rw [failed] at run
        cases run
    obtain ⟨cause, run⟩ := connect_missing missing
    cases failed.symm.trans run
    exact ⟨⟨cause, rfl⟩, by simp [skips], by simp [skips, consistent],
      fun skips' => absurd skips' skips⟩

/-- Two sources that no one reads. -/
def pair : Graph :=
  let unread (id : Nat) (name : String) : Node :=
    .fresh id name (.source (.typed .f32 (.ofLengths [1]))) []
    (.typed .f32 (.ofLengths [1]))
  ⟨[unread 0 "x", unread 1 "y"], [⟨0, 0⟩, ⟨1, 0⟩], []⟩

/-- Slot 7 of the second is refused too late, and a third node in time. -/
theorem connect_exact_pair : pair.checkEdges = .ok ⟨⟩ ∧
    (∃ failure g, connect ⟨0, 0⟩ ⟨1, 7⟩ pair = .error failure g ∧ g ≠ pair ∧
      g.checkEdges ≠ .ok ⟨⟩) ∧
    (∃ failure, connect ⟨0, 0⟩ ⟨2, 0⟩ pair = .error failure pair) ∧
    ∃ g, connect ⟨0, 0⟩ ⟨1, 0⟩ pair = .ok ⟨⟩ g := by
  have consistent : pair.checkEdges = .ok ⟨⟩ := by decide
  refine ⟨consistent, ?_, ?_, ?_⟩
  · have skips : pair.Skips ⟨0, 0⟩ ⟨1, 7⟩ := ⟨rfl, _, rfl, by decide⟩
    obtain ⟨n, run⟩ := skips.connect_eq
    obtain ⟨-, same, checked, -⟩ := (connect_exact consistent _ _).2 _ _ run
    exact ⟨_, _, run, fun kept => same.1 kept skips, fun found => checked.1 found skips⟩
  · obtain ⟨cause, run⟩ := connect_missing (g := pair) (o := ⟨0, 0⟩) (i := ⟨2, 0⟩) (by decide)
    exact ⟨_, run⟩
  · exact (connect_exact consistent _ _).1.2 ⟨rfl, _, rfl, by decide⟩

end EvenPad.Graph
