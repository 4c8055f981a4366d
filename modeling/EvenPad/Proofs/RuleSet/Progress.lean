import EvenPad.Proofs.RuleSet

/-!
Runs of a rule set that succeed. Main statement: `RuleSet.run_ok`, a run succeeds if the steps of
its queue do, and if the graph can be compacted where patches were applied.
-/

namespace EvenPad

namespace RuleSet

variable {r : RuleSet} {s : LoggedGraph} {node : Node} {rules : List Rule} {id : Nat}
  {touched queue : List Nat}

theorem report_ok {e : Event} : ∃ s', LoggedGraph.report e s = .ok ⟨⟩ s' ∧ s'.graph = s.graph :=
  ⟨_, rfl, rfl⟩

/-- A rule answers for a node: it has no patch, or one that can be applied. -/
def Answers (g : Graph) (node : Node) (rule : Rule) : Prop :=
  ∀ log, ∃ outcome log', rule.propose g node log = .ok outcome log' ∧
    ∀ patch ∈ outcome, ∃ touched g', patch.apply g = .ok touched g'

/-- Rules that answer can be tried. -/
theorem tryRules_ok (answers : ∀ rule ∈ rules, Answers s.graph node rule) :
    ∃ outcome s', tryRules node rules s = .ok outcome s' := by
  induction rules generalizing s with
  | nil => exact ⟨none, s, rfl⟩
  | cons rule rest ih =>
    rcases List.forall_mem_cons.1 answers with ⟨first, others⟩
    rcases first s.log with ⟨outcome, log, proposed, applies⟩
    have asked : Edit.within (.evaluatingRule rule.name node)
        (LoggedGraph.onLog (rule.propose s.graph node)) s =
          .ok outcome { s with log := log } := by
      simp only [Edit.within_eq_ok, LoggedGraph.onLog, Edit.onPart_eq_ok]
      exact ⟨log, proposed, rfl⟩
    cases outcome with
    | none =>
      rcases report_ok (s := { s with log := log }) (e := .declined rule.name node) with
        ⟨s₁, reported, same⟩
      rcases ih (s := s₁) (same ▸ others) with ⟨outcome, s', tried⟩
      refine ⟨outcome, s', ?_⟩
      simp only [tryRules, Edit.get_bind_apply, Edit.bind_eq_ok]
      exact ⟨none, _, asked, Edit.bind_eq_ok.2 ⟨⟨⟩, s₁, reported, tried⟩⟩
    | some patch =>
      rcases report_ok (s := { s with log := log }) (e := .applying rule.name node) with
        ⟨s₁, reported, same⟩
      rcases applies patch rfl with ⟨touched, g', applied⟩
      refine ⟨some touched, { s₁ with graph := g' }, ?_⟩
      simp only [tryRules, Edit.get_bind_apply, Edit.bind_eq_ok]
      refine ⟨some patch, _, asked, ?_⟩
      simp only [Edit.bind_eq_ok, Edit.within_eq_ok, LoggedGraph.onGraph, Edit.onPart_eq_ok]
      exact ⟨⟨⟩, s₁, reported, touched, _, ⟨g', by rw [same]; exact applied, rfl⟩, rfl⟩

/-- A step succeeds if the rules for the node answer. -/
theorem step_ok (there : s.graph.nodes[id]? = some node)
    (answers : isBypassed s.graph id node = false →
      ∀ rule ∈ r.rulesFor node.op, Answers s.graph node rule) :
    ∃ outcome s', r.step id s = .ok outcome s' := by
  simp only [step, Edit.get_bind_apply, Edit.lift_bind_eq_ok, nodeAt_eq_ok]
  cases bypassed : isBypassed s.graph id node with
  | true => exact ⟨none, s, node, there, by rw [bypassed]; rfl⟩
  | false =>
    rcases tryRules_ok (answers bypassed) with ⟨outcome, s', tried⟩
    exact ⟨outcome, s', node, there, by rw [bypassed]; exact tried⟩

/-- There are rules for a node of the table, or there are none. -/
theorem concerns_ok {g : Graph} (lt : id < g.size) :
    ∃ concerned, r.concerns g id = .ok concerned := by
  have there : g.nodes[id]? = some _ := List.getElem?_eq_getElem lt
  exact ⟨_, by rw [concerns, nodeAt_eq_ok.2 there]; rfl⟩

/-- Nodes of the table can join the queue. -/
theorem requeue_ok (queue : List Nat) (there : ∀ id ∈ touched, id < s.graph.size) :
    ∃ queue', r.requeue touched queue s = .ok queue' s := by
  simp only [requeue, Edit.get_bind_apply, Edit.lift_eq_ok, and_true]
  induction touched generalizing queue with
  | nil => exact ⟨queue, rfl⟩
  | cons id rest ih =>
    rcases List.forall_mem_cons.1 there with ⟨first, there⟩
    rcases concerns_ok (r := r) first with ⟨concerned, concerns⟩
    rcases @ih (if (concerned && !queue.contains id) = true then queue ++ [id] else queue) there
      with
      ⟨queue', joined⟩
    refine ⟨queue', ?_⟩
    rw [List.foldlM_cons, Checked.bind_eq_ok]
    refine ⟨_, Checked.bind_eq_ok.2 ⟨concerned, concerns, ?_⟩, joined⟩
    split <;> rfl

section Runs

variable {motive : Nat → Graph → List Nat → Prop} (keeps : r.Invariant motive)
  (steps : ∀ {applied s id rest}, motive applied s.graph (id :: rest) →
    ∃ outcome s', r.step id s = .ok outcome s')
  (touches : ∀ {applied s s' id rest touched}, motive applied s.graph (id :: rest) →
    r.step id s = .ok (some touched) s' → ∀ i ∈ touched, i < s'.graph.size)
include keeps steps touches

/-- The queue can be worked through if its steps succeed. -/
theorem drain_ok {applied : Nat} (allowance : Nat) (start : motive applied s.graph queue) :
    ∃ total s', r.drain .ok allowance queue applied s = .ok total s' := by
  induction allowance, queue, applied using drain.induct generalizing s with
  | case1 allowance applied => exact ⟨applied, s, by rw [drain]; rfl⟩
  | case2 applied id rest => exact ⟨applied, s, by rw [drain]; rfl⟩
  | case3 applied id rest left ihPassed ihPatched =>
    rcases steps start with ⟨outcome, s₁, stepped⟩
    cases outcome with
    | none =>
      rcases ihPassed (keeps.passed start stepped) with ⟨total, s', drained⟩
      exact ⟨total, s', by rw [drain]; exact Edit.bind_eq_ok.2 ⟨none, s₁, stepped, drained⟩⟩
    | some touched =>
      rcases requeue_ok (r := r) rest (touches start stepped) with ⟨queue, requeued⟩
      rcases ihPatched queue (keeps.patched start stepped requeued) with ⟨total, s', drained⟩
      refine ⟨total, s', ?_⟩
      rw [drain]
      exact Edit.bind_eq_ok.2 ⟨some touched, s₁, stepped,
        Edit.bind_eq_ok.2 ⟨queue, s₁, requeued, drained⟩⟩

/-- A run with a budget succeeds if the steps of its queue do. -/
theorem run_ok (budget : Nat) {order : List Nat} (wf : s.graph.WellFormed)
    (ordered : s.graph.evalOrder = .ok order)
    (start : ∀ {queue}, order.filterM (r.concerns s.graph) = .ok queue → motive 0 s.graph queue)
    (compacts : ∀ {applied g queue}, motive applied g queue → 0 < applied → ∀ log,
      ∃ g' log', g.compacted log = .ok g' log') :
    ∃ applied s', r.run (some budget) s = .ok applied s' := by
  rcases Checked.filterM_ok (l := order) (p := r.concerns s.graph) (fun id mem =>
    concerns_ok (wf.lt_size_of_live ((wf.mem_evalOrder ordered).1 mem))) with ⟨queue, concerned⟩
  rcases drain_ok keeps steps touches budget (start concerned) with ⟨applied, s₁, drained⟩
  rcases drain_invariant (by simp [eq_comm]) keeps (start concerned) drained with ⟨rest, holds, -⟩
  unfold RuleSet.run
  simp only [Edit.get_bind_apply, Edit.lift_bind_eq_ok]
  rcases Nat.eq_zero_or_pos applied with rfl | patched
  · exact ⟨0, s₁, order, ordered, queue, concerned, Edit.bind_eq_ok.2 ⟨0, s₁, drained, rfl⟩⟩
  · rcases compacts holds patched s₁.log with ⟨g', log', compacted⟩
    refine ⟨applied, ⟨g', log'⟩, order, ordered, queue, concerned,
      Edit.bind_eq_ok.2 ⟨applied, s₁, drained, ?_⟩⟩
    rw [if_pos patched]
    exact Edit.bind_eq_ok.2 ⟨⟨⟩, ⟨g', log'⟩, compact_eq_ok.2 compacted, rfl⟩

end Runs

end RuleSet

end EvenPad
