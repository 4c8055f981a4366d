import EvenPad.Proofs.Graph.Order
import EvenPad.RuleSet

/-!
Runs of a rule set. `Proposes` says that a rule has a patch for a node. A step of the queue leaves
the graph alone, or applies a proposed patch (`step_eq_none`, `step_eq_some`), and what every step
keeps holds when the queue has been worked through (`drain_invariant`). Main statement:
`run_invariant`, a run ends with such a graph, or with its compaction if patches were applied.
-/

namespace EvenPad

/-- The rule has a patch for a node. -/
def Rule.Proposes (rule : Rule) (g : Graph) (node : Node) (patch : Patch) : Prop :=
  ∃ log log', rule.propose g node log = .ok (some patch) log'

/-- The rule has no patch for a node. -/
def Rule.Declines (rule : Rule) (g : Graph) (node : Node) : Prop :=
  ∃ log log', rule.propose g node log = .ok none log'

namespace Graph

variable {g : Graph} {id : Nat} {n : Node}

/-- What is not bypassed is wanted: it is an output, or its outlet lists a reader. -/
theorem WellFormed.isBypassed_eq_false (wf : g.WellFormed) (there : g.nodes[id]? = some n) :
    RuleSet.isBypassed g id n = false ↔ g.Wanted id := by
  rw [RuleSet.isBypassed, Bool.and_eq_false_iff, or_comm]
  refine or_congr ?_ ?_
  · simp [List.all_eq_false]
  · rw [Node.isUnread, List.all_eq_false]
    constructor
    · rintro ⟨out, mem, listed⟩
      rcases List.mem_iff_getElem?.1 mem with ⟨slot, produced⟩
      rcases List.exists_mem_of_ne_nil _ (by simpa using listed) with ⟨reader, mem⟩
      have output : g.output? ⟨id, slot⟩ = some out := output?_eq_some.2 ⟨n, there, produced⟩
      have source : g.source? reader = some ⟨id, slot⟩ := by
        rw [← wf.linked.mem_readers, readers, output]
        exact mem
      rcases source?_eq_some.1 source with ⟨m, here, read⟩
      exact ⟨reader.node, m, _, here, List.mem_of_getElem? read, rfl⟩
    · rintro ⟨reader, m, o, here, read, rfl⟩
      rcases List.mem_iff_getElem?.1 read with ⟨slot, at_slot⟩
      have source : g.source? ⟨reader, slot⟩ = some o := source?_eq_some.2 ⟨m, here, at_slot⟩
      have listed := wf.linked.mem_readers.2 source
      rcases Option.isSome_iff_exists.1 (wf.linked.there source) with ⟨out, output⟩
      rw [readers, output] at listed
      rcases output?_eq_some.1 output with ⟨n', there', produced⟩
      cases there.symm.trans there'
      exact ⟨out, List.mem_of_getElem? produced, by simpa using List.ne_nil_of_mem listed⟩

end Graph

namespace RuleSet

variable {r : RuleSet} {s s' : LoggedGraph} {node : Node} {rules : List Rule} {id : Nat}
  {touched queue queue' : List Nat}

theorem report_eq_ok {e : Event} {u : Unit} (run : LoggedGraph.report e s = .ok u s') :
    s'.graph = s.graph := by
  simp only [LoggedGraph.report, LoggedGraph.onLog, Edit.onPart_eq_ok] at run
  rcases run with ⟨_, -, rfl⟩
  rfl

/-- If no rule has a patch, each was asked and the graph is the same. -/
theorem tryRules_eq_none (run : tryRules node rules s = .ok none s') :
    s'.graph = s.graph ∧ ∀ rule ∈ rules, rule.Declines s.graph node := by
  induction rules generalizing s with
  | nil =>
    rcases Edit.pure_eq_ok.1 run with ⟨-, rfl⟩
    exact ⟨rfl, by simp⟩
  | cons rule rest ih =>
    simp only [tryRules, Edit.get_bind_apply] at run
    rcases Edit.bind_eq_ok.1 run with ⟨proposed, s₁, asked, run⟩
    simp only [Edit.within_eq_ok, LoggedGraph.onLog, Edit.onPart_eq_ok] at asked
    rcases asked with ⟨log, asked, rfl⟩
    cases proposed with
    | none =>
      rcases Edit.bind_eq_ok.1 run with ⟨_, s₂, reported, run⟩
      have same := report_eq_ok reported
      rcases ih run with ⟨graph, declined⟩
      rw [same] at graph declined
      exact ⟨graph, List.forall_mem_cons.2 ⟨⟨_, log, asked⟩, declined⟩⟩
    | some patch =>
      simp only [Edit.bind_eq_ok, Edit.pure_eq_ok] at run
      rcases run with ⟨_, _, -, _, _, -, none, -⟩
      simp at none

/-- If a rule had a patch, it was applied. -/
theorem tryRules_eq_some (run : tryRules node rules s = .ok (some touched) s') :
    ∃ rule ∈ rules, ∃ patch, rule.Proposes s.graph node patch ∧
      patch.apply s.graph = .ok touched s'.graph := by
  induction rules generalizing s with
  | nil => simp [tryRules] at run
  | cons rule rest ih =>
    simp only [tryRules, Edit.get_bind_apply] at run
    rcases Edit.bind_eq_ok.1 run with ⟨proposed, s₁, asked, run⟩
    simp only [Edit.within_eq_ok, LoggedGraph.onLog, Edit.onPart_eq_ok] at asked
    rcases asked with ⟨log, asked, rfl⟩
    cases proposed with
    | none =>
      rcases Edit.bind_eq_ok.1 run with ⟨_, s₂, reported, run⟩
      have same := report_eq_ok reported
      rcases ih run with ⟨rule, mem, patch, proposed, applied⟩
      rw [same] at proposed applied
      exact ⟨rule, List.mem_cons_of_mem _ mem, patch, proposed, applied⟩
    | some patch =>
      simp only [Edit.bind_eq_ok, Edit.pure_eq_ok, Edit.within_eq_ok, LoggedGraph.onGraph,
        Edit.onPart_eq_ok, Option.some.injEq] at run
      rcases run with ⟨_, s₂, reported, _, _, ⟨g', applied, rfl⟩, rfl, rfl⟩
      have same := report_eq_ok reported
      rw [same] at applied
      exact ⟨rule, List.mem_cons_self, patch, ⟨_, log, asked⟩, applied⟩

/-! ## Steps of the queue -/

theorem nodeAt_eq_ok {g : Graph} : g.nodeAt id = .ok node ↔ g.nodes[id]? = some node :=
  Checked.ofPresent_eq_ok

theorem mem_rulesFor {rule : Rule} {op : Op} :
    rule ∈ r.rulesFor op ↔ rule ∈ r ∧ rule.type = op.type := by
  simp [rulesFor]

/-- A node is passed over if it is bypassed or no rule has a patch for it. -/
theorem step_eq_none (run : r.step id s = .ok none s') :
    s'.graph = s.graph ∧ ∃ node, s.graph.nodes[id]? = some node ∧
      (isBypassed s.graph id node = true ∨
        ∀ rule ∈ r.rulesFor node.op, rule.Declines s.graph node) := by
  simp only [step, Edit.get_bind_apply, Edit.lift_bind_eq_ok, nodeAt_eq_ok] at run
  rcases run with ⟨node, there, run⟩
  split at run
  · next bypassed =>
    rcases Edit.pure_eq_ok.1 run with ⟨-, rfl⟩
    exact ⟨rfl, node, there, .inl bypassed⟩
  · rcases tryRules_eq_none run with ⟨same, declined⟩
    exact ⟨same, node, there, .inr declined⟩

/-- Otherwise a patch of a rule for its type of operator is applied. -/
theorem step_eq_some (run : r.step id s = .ok (some touched) s') :
    ∃ node rule patch, s.graph.nodes[id]? = some node ∧ isBypassed s.graph id node = false ∧
      rule ∈ r ∧ rule.type = node.op.type ∧ rule.Proposes s.graph node patch ∧
      patch.apply s.graph = .ok touched s'.graph := by
  simp only [step, Edit.get_bind_apply, Edit.lift_bind_eq_ok, nodeAt_eq_ok] at run
  rcases run with ⟨node, there, run⟩
  split at run
  · simp at run
  · next live =>
    rcases tryRules_eq_some run with ⟨rule, mem, patch, proposed, applied⟩
    rcases mem_rulesFor.1 mem with ⟨mem, type⟩
    exact ⟨node, rule, patch, there, by simpa using live, mem, type, proposed, applied⟩

private theorem requeueAll {g : Graph} {ids : List Nat} {c : Checked (List Nat)}
    (run : ids.foldlM (fun queue id => do
      if (← r.concerns g id) && !queue.contains id then return queue ++ [id]
      else return queue) queue = c) (ok : c = .ok queue') :
    ∃ more, queue' = queue ++ more ∧ (∀ id ∈ more, id ∈ ids) ∧
      ∀ id ∈ ids, r.concerns g id = .ok true → id ∈ queue' := by
  subst run
  induction ids generalizing queue with
  | nil =>
    cases Checked.pure_eq_ok.1 ok
    exact ⟨[], by simp, by simp, by simp⟩
  | cons id rest ih =>
    rw [List.foldlM_cons] at ok
    simp only [Checked.bind_eq_ok] at ok
    rcases ok with ⟨queue₁, ⟨concerned, concerns, queued⟩, tail⟩
    obtain ⟨before, among, here⟩ : ∃ before, queue₁ = queue ++ before ∧ (∀ i ∈ before, i = id) ∧
        (concerned = true → id ∈ queue₁) := by
      split at queued
      · cases Checked.pure_eq_ok.1 queued
        exact ⟨[id], rfl, by simp, by simp⟩
      · next passed =>
        cases Checked.pure_eq_ok.1 queued
        exact ⟨[], by simp, by simp, fun isTrue => by simpa [isTrue] using passed⟩
    rcases here with ⟨among', here⟩
    rcases ih tail with ⟨more, rfl, others, joined⟩
    refine ⟨before ++ more, by rw [among, List.append_assoc], ?_,
      List.forall_mem_cons.2 ⟨?_, joined⟩⟩
    · intro i mem
      rcases List.mem_append.1 mem with mem | mem
      · exact among' i mem ▸ List.mem_cons_self
      · exact List.mem_cons_of_mem _ (others i mem)
    · intro isTrue
      exact List.mem_append_left _ (here (Except.ok.inj (concerns.symm.trans isTrue)))

/-- The touched nodes that there are rules for join the queue at its end, unless they are in
it. -/
theorem requeue_eq_ok (run : r.requeue touched queue s = .ok queue' s') :
    s' = s ∧ (∃ more, queue' = queue ++ more ∧ ∀ id ∈ more, id ∈ touched) ∧
      ∀ id ∈ touched, r.concerns s.graph id = .ok true → id ∈ queue' := by
  simp only [requeue, Edit.get_bind_apply, Edit.lift_eq_ok] at run
  rcases run with ⟨run, rfl⟩
  rcases requeueAll rfl run with ⟨more, rfl, among, joined⟩
  exact ⟨rfl, ⟨more, rfl, among⟩, joined⟩

/-! ## Runs -/

/-- Each step of the queue keeps something about the number of applied patches, the graph and the
queue. -/
structure Invariant (r : RuleSet) (motive : Nat → Graph → List Nat → Prop) : Prop where
  passed : ∀ {applied : Nat} {s s' : LoggedGraph} {id : Nat} {rest : List Nat},
    motive applied s.graph (id :: rest) → r.step id s = .ok none s' → motive applied s'.graph rest
  patched : ∀ {applied : Nat} {s s' : LoggedGraph} {id : Nat} {rest touched queue : List Nat},
    motive applied s.graph (id :: rest) → r.step id s = .ok (some touched) s' →
      r.requeue touched rest s' = .ok queue s' → motive (applied + 1) s'.graph queue

/-- What each step of the queue keeps holds at the end. Something is left of the queue only if the
whole allowance is used up. -/
theorem drain_invariant {usedUp : Nat → Checked Nat} {allowance applied total : Nat}
    (counts : ∀ {n total}, usedUp n = .ok total → total = n)
    {motive : Nat → Graph → List Nat → Prop} (keeps : r.Invariant motive)
    (start : motive applied s.graph queue)
    (run : r.drain usedUp allowance queue applied s = .ok total s') :
    ∃ rest, motive total s'.graph rest ∧
      (rest = [] ∨ usedUp total = .ok total ∧ total = applied + allowance) := by
  induction allowance, queue, applied using drain.induct generalizing s with
  | case1 allowance applied =>
    rw [drain] at run
    rcases Edit.pure_eq_ok.1 run with ⟨rfl, rfl⟩
    exact ⟨[], start, .inl rfl⟩
  | case2 applied id rest =>
    rw [drain] at run
    rcases Edit.lift_eq_ok.1 run with ⟨used, rfl⟩
    cases counts used
    exact ⟨id :: rest, start, .inr ⟨used, rfl⟩⟩
  | case3 applied id rest left ihPassed ihPatched =>
    rw [drain] at run
    rcases Edit.bind_eq_ok.1 run with ⟨outcome, s₁, stepped, run⟩
    cases outcome with
    | none => exact ihPassed (keeps.passed start stepped) run
    | some touched =>
      rcases Edit.bind_eq_ok.1 run with ⟨queue, s₂, requeued, drained⟩
      rcases requeue_eq_ok requeued with ⟨rfl, -⟩
      rcases ihPatched _ (keeps.patched start stepped requeued) drained with ⟨rest, holds, left⟩
      exact ⟨rest, holds, left.imp_right fun ⟨used, all⟩ => ⟨used, by omega⟩⟩

/-- No more patches are applied than the allowance has. -/
theorem drain_le {usedUp : Nat → Checked Nat} {allowance applied total : Nat}
    (counts : ∀ {n total}, usedUp n = .ok total → total = n)
    (run : r.drain usedUp allowance queue applied s = .ok total s') :
    total ≤ applied + allowance := by
  induction allowance, queue, applied using drain.induct generalizing s with
  | case1 allowance applied =>
    rw [drain] at run
    rcases Edit.pure_eq_ok.1 run with ⟨rfl, -⟩
    exact Nat.le_add_right _ _
  | case2 applied id rest =>
    rw [drain] at run
    cases counts (Edit.lift_eq_ok.1 run).1
    exact Nat.le_add_right _ _
  | case3 applied id rest left ihPassed ihPatched =>
    rw [drain] at run
    rcases Edit.bind_eq_ok.1 run with ⟨outcome, s₁, -, run⟩
    cases outcome with
    | none => exact ihPassed run
    | some touched =>
      rcases Edit.bind_eq_ok.1 run with ⟨queue, s₂, -, drained⟩
      have le := ihPatched _ drained
      omega

/-- Allowances that are not used up do the same. -/
theorem drain_congr {usedUp usedUp' : Nat → Checked Nat} {allowance allowance' applied most : Nat}
    {motive : Nat → Graph → List Nat → Prop} (keeps : r.Invariant motive)
    (bounded : ∀ {applied g queue}, motive applied g queue → applied ≤ most)
    (start : motive applied s.graph queue) (enough : most < applied + allowance)
    (enough' : most < applied + allowance') :
    r.drain usedUp allowance queue applied s = r.drain usedUp' allowance' queue applied s := by
  induction allowance, queue, applied using drain.induct generalizing s allowance' with
  | case1 allowance applied => rw [drain, drain]
  | case2 applied id rest => exact absurd (bounded start) (by omega)
  | case3 applied id rest left ihPassed ihPatched =>
    obtain ⟨left', rfl⟩ : ∃ left', allowance' = left' + 1 := by
      have most := bounded start
      exact ⟨allowance' - 1, by omega⟩
    rw [drain, drain]
    cases stepped : r.step id s with
    | error f s₁ => simp only [bind, EStateM.bind, stepped]
    | ok outcome s₁ =>
      cases outcome with
      | none =>
        simp only [bind, EStateM.bind, stepped]
        exact ihPassed (keeps.passed start stepped) enough enough'
      | some touched =>
        cases requeued : r.requeue touched rest s₁ with
        | error f s₂ => simp only [bind, EStateM.bind, stepped, requeued]
        | ok queue s₂ =>
          rcases requeue_eq_ok requeued with ⟨rfl, -⟩
          simp only [bind, EStateM.bind, stepped, requeued]
          exact ihPatched _ (keeps.patched start stepped requeued) (by omega) (by omega)

theorem compact_eq_ok {u : Unit} :
    Graph.compact s = .ok u s' ↔ s.graph.compacted s.log = .ok s'.graph s'.log := by
  simp only [Graph.compact, Edit.get_bind_apply, Edit.bind_eq_ok, LoggedGraph.onLog,
    Edit.onPart_eq_ok, Edit.modify_apply, EStateM.Result.ok.injEq]
  constructor
  · rintro ⟨g, _, ⟨log, compacted, rfl⟩, -, rfl⟩
    exact compacted
  · intro compacted
    exact ⟨_, _, ⟨_, compacted, rfl⟩, trivial, rfl⟩

/-- A compaction that fails leaves the graph alone. -/
theorem compact_eq_error {f : Failure} :
    Graph.compact s = .error f s' ↔
      ∃ log, s.graph.compacted s.log = .error f log ∧ s' = { s with log := log } := by
  simp only [Graph.compact, Edit.get_bind_apply, Edit.bind_eq_error, LoggedGraph.onLog,
    Edit.onPart_eq_error]
  constructor
  · rintro (⟨log, failed, rfl⟩ | ⟨_, _, -, failed⟩)
    · exact ⟨log, failed, rfl⟩
    · cases failed
  · rintro ⟨log, failed, rfl⟩
    exact .inl ⟨log, failed, rfl⟩

private theorem compacts_eq_ok {applied n : Nat} (run : (if 0 < n then do
      Graph.compact
      pure n
    else pure n : Edit LoggedGraph Nat) s = .ok applied s') :
    n = applied ∧
      if 0 < applied then ∃ log', s.graph.compacted s.log = .ok s'.graph log'
      else s'.graph = s.graph := by
  split at run
  · next patched =>
    simp only [Edit.bind_eq_ok, compact_eq_ok, Edit.pure_eq_ok] at run
    rcases run with ⟨_, _, compacted, rfl, rfl⟩
    rw [if_pos patched]
    exact ⟨rfl, _, compacted⟩
  · next unpatched =>
    rcases Edit.pure_eq_ok.1 run with ⟨rfl, rfl⟩
    rw [if_neg unpatched]
    exact ⟨rfl, rfl⟩

/-- A run works through the nodes that there are rules for, in evaluation order, and compacts the
graph if it applied patches. -/
theorem run_eq_ok {budget : Option Nat} {applied : Nat} (run : r.run budget s = .ok applied s') :
    ∃ usedUp allowance order queue s₁, (∀ {n total}, usedUp n = .ok total → total = n) ∧
      (budget = none ∧ (∀ n, usedUp n ≠ .ok n) ∨ budget = some allowance) ∧
      s.graph.evalOrder = .ok order ∧
      order.filterM (r.concerns s.graph) = .ok queue ∧
      r.drain usedUp allowance queue 0 s = .ok applied s₁ ∧
      if 0 < applied then ∃ log', s₁.graph.compacted s₁.log = .ok s'.graph log'
      else s'.graph = s₁.graph := by
  unfold RuleSet.run at run
  simp only [Edit.get_bind_apply, Edit.lift_bind_eq_ok] at run
  rcases run with ⟨order, ordered, queue, concerned, run⟩
  cases budget with
  | none =>
    rcases Edit.bind_eq_ok.1 run with ⟨n, s₁, drained, compacted⟩
    rcases compacts_eq_ok compacted with ⟨rfl, compacted⟩
    exact ⟨_, _, order, queue, s₁, by simp, .inl ⟨rfl, by simp⟩, ordered,
      concerned, drained, compacted⟩
  | some allowance =>
    rcases Edit.bind_eq_ok.1 run with ⟨n, s₁, drained, compacted⟩
    rcases compacts_eq_ok compacted with ⟨rfl, compacted⟩
    exact ⟨_, _, order, queue, s₁, by simp [eq_comm], .inr rfl, ordered,
      concerned, drained, compacted⟩

/-- A run applies no more patches than its budget has. -/
theorem run_le {budget applied : Nat} (run : r.run (some budget) s = .ok applied s') :
    applied ≤ budget := by
  obtain ⟨usedUp, allowance, _, _, _, counts, budgets, -, -, drained, -⟩ := run_eq_ok run
  rcases budgets with ⟨none, -⟩ | some
  · cases none
  · cases some
    have le := drain_le counts drained
    rwa [Nat.zero_add] at le

/-- A budget that is not used up is as good as none. -/
theorem run_congr (budget most : Nat) {motive : Nat → Graph → List Nat → Prop}
    (keeps : r.Invariant motive)
    (bounded : ∀ {applied g queue}, motive applied g queue → applied ≤ most)
    (start : ∀ {order queue}, s.graph.evalOrder = .ok order →
      order.filterM (r.concerns s.graph) = .ok queue → motive 0 s.graph queue)
    (enough : most < budget) (patient : most < patience s.graph) :
    r.run (some budget) s = r.run none s := by
  unfold RuleSet.run
  simp only [Edit.get_bind_apply]
  cases ordered : s.graph.evalOrder with
  | error f => rfl
  | ok order =>
    cases concerned : order.filterM (r.concerns s.graph) with
    | error f =>
      simp only [bind, EStateM.bind, liftM, monadLift, MonadLift.monadLift, concerned]
    | ok queue =>
      have drained : r.drain .ok budget queue 0 s =
          r.drain (fun _ => Checked.fault .endlessWork) (patience s.graph) queue 0 s :=
        drain_congr keeps bounded (start ordered concerned) (by omega) (by omega)
      simp only [bind, EStateM.bind, liftM, monadLift, MonadLift.monadLift, concerned, drained]

/-- A run ends with a graph for which everything holds that the steps of the queue keep, or with
its compaction if patches were applied. The queue has been worked through unless the budget is
spent. -/
theorem run_invariant {budget : Option Nat} {applied : Nat}
    {motive : Nat → Graph → List Nat → Prop} (keeps : r.Invariant motive)
    (start : ∀ {order queue}, s.graph.evalOrder = .ok order →
      order.filterM (r.concerns s.graph) = .ok queue → motive 0 s.graph queue)
    (run : r.run budget s = .ok applied s') :
    ∃ g rest, motive applied g rest ∧ (rest = [] ∨ budget = some applied) ∧
      if 0 < applied then ∃ log log', g.compacted log = .ok s'.graph log' else s'.graph = g := by
  obtain ⟨usedUp, allowance, order, queue, s₁, counts, budgets, ordered, concerned, drained,
    compacted⟩ := run_eq_ok run
  obtain ⟨rest, holds, left⟩ := drain_invariant counts keeps (start ordered concerned) drained
  refine ⟨s₁.graph, rest, holds, ?_, ?_⟩
  · refine left.imp_right fun ⟨used, all⟩ => ?_
    rcases budgets with ⟨-, unlimited⟩ | some
    · exact absurd used (unlimited applied)
    · rw [some, all, Nat.zero_add]
  · split at compacted
    · next some =>
      rw [if_pos some]
      exact ⟨s₁.log, compacted⟩
    · next none =>
      rw [if_neg none]
      exact compacted

/-- A run that applies no patch leaves the graph as it is. -/
theorem run_idle {budget : Option Nat} (run : r.run budget s = .ok 0 s') :
    s'.graph = s.graph := by
  have keeps : r.Invariant fun applied g _ => applied = 0 → g = s.graph := by
    refine ⟨?_, fun _ _ _ patched => absurd patched (Nat.succ_ne_zero _)⟩
    intro applied t t' id rest same step none
    rw [(step_eq_none step).1, same none]
  obtain ⟨g, -, same, -, ended⟩ := run_invariant keeps (fun _ _ _ => rfl) run
  rw [if_neg (Nat.lt_irrefl _)] at ended
  rw [ended, same rfl]

end RuleSet

end EvenPad
