import EvenPad.Proofs.Edit.Leads
import EvenPad.Proofs.RuleSet.Progress

/-!
Runs of a rule set that fail. If the patches that its rules propose can be applied, a step that
fails leaves the graph alone (`step_eq_error`), and a run that fails leaves what it had come to
(`run_leads`). Main statement: `RuleSet.run_eq_error`, a run that fails leaves the graph that it
had after some steps, or the one it was given.
-/

namespace EvenPad

namespace RuleSet

variable {r : RuleSet} {s s' : LoggedGraph} {node : Node} {rules : List Rule} {id : Nat}
  {touched queue : List Nat} {f : Failure}

/-- The patches that a rule has for a node can be applied. -/
def Applicable (g : Graph) (node : Node) (rule : Rule) : Prop :=
  ∀ patch, rule.Proposes g node patch → ∃ touched g', patch.apply g = .ok touched g'

/-- A failure of a change of the log leaves the graph alone. -/
theorem onLog_eq_error {α : Type} {e : Logged α} (failed : LoggedGraph.onLog e s = .error f s') :
    s'.graph = s.graph := by
  obtain ⟨_, -, rfl⟩ := Edit.onPart_eq_error.1 failed
  rfl

theorem report_ne_error {e : Event} : LoggedGraph.report e s ≠ .error f s' := by
  obtain ⟨_, reported, -⟩ := report_ok (s := s) (e := e)
  simp [reported]

/-- Rules whose patches can be applied fail before they have changed anything. -/
theorem tryRules_eq_error (applicable : ∀ rule ∈ rules, Applicable s.graph node rule)
    (failed : tryRules node rules s = .error f s') : s'.graph = s.graph := by
  induction rules generalizing s with
  | nil => exact absurd failed Edit.pure_ne_error
  | cons rule rest ih =>
    obtain ⟨first, others⟩ := List.forall_mem_cons.1 applicable
    simp only [tryRules, Edit.get_bind_apply] at failed
    rcases Edit.bind_eq_error.1 failed with asked | ⟨proposed, s₁, asked, failed⟩
    · obtain ⟨_, asked, -⟩ := Edit.within_eq_error.1 asked
      exact onLog_eq_error asked
    · simp only [Edit.within_eq_ok, LoggedGraph.onLog, Edit.onPart_eq_ok] at asked
      obtain ⟨log, asked, rfl⟩ := asked
      cases proposed with
      | none =>
        rcases Edit.bind_eq_error.1 failed with reported | ⟨_, s₂, reported, failed⟩
        · exact absurd reported report_ne_error
        · have same := report_eq_ok reported
          rw [ih (by rwa [same]) failed, same]
      | some patch =>
        -- the patch can be applied, so there is no failure after it was proposed
        rcases Edit.bind_eq_error.1 failed with reported | ⟨_, s₂, reported, failed⟩
        · exact absurd reported report_ne_error
        · have same := report_eq_ok reported
          obtain ⟨touched, g', applied⟩ := first patch ⟨_, log, asked⟩
          rcases Edit.bind_eq_error.1 failed with failed | ⟨_, _, -, failed⟩
          · obtain ⟨_, failed, -⟩ := Edit.within_eq_error.1 failed
            obtain ⟨_, failed, -⟩ := Edit.onPart_eq_error.1 failed
            rw [same, applied] at failed
            cases failed
          · exact absurd failed Edit.pure_ne_error

/-- So does a step of the queue. -/
theorem step_eq_error
    (applicable : ∀ node, s.graph.nodes[id]? = some node → ∀ rule ∈ r,
      Applicable s.graph node rule) (failed : r.step id s = .error f s') :
    s'.graph = s.graph := by
  simp only [step, Edit.get_bind_apply] at failed
  rcases Edit.lift_bind_eq_error.1 failed with ⟨-, rfl⟩ | ⟨node, there, failed⟩
  · rfl
  · split at failed
    · exact absurd failed Edit.pure_ne_error
    · exact tryRules_eq_error (fun rule mem =>
        applicable node (nodeAt_eq_ok.1 there) rule (mem_rulesFor.1 mem).1) failed

/-- The queue is no part of the state. -/
theorem requeue_keeps {holds : LoggedGraph → Prop} (touched queue : List Nat) :
    Edit.Keeps holds (r.requeue touched queue) :=
  Edit.keeps_get_bind fun _ => Edit.keeps_lift

/-! ## Runs -/

/-- Each step of the queue applies a patch or none, and what it leads to is told by the number of
patches. So is what the whole queue leads to. -/
theorem drain_leads {motive : Nat → LoggedGraph → Prop} (steps : ∀ {n id s}, motive n s →
      (r.step id).Leads s (fun outcome => motive (n + outcome.toList.length)) (motive n))
    {usedUp : Nat → Checked Nat} (counts : ∀ {n total}, usedUp n = .ok total → total = n)
    (allowance : Nat) (queue : List Nat) {applied : Nat} (start : motive applied s) :
    (r.drain usedUp allowance queue applied).Leads s motive (fun t => ∃ n, motive n t) := by
  induction allowance, queue, applied using drain.induct generalizing s with
  | case1 allowance applied =>
    rw [drain]
    exact Edit.leads_pure start
  | case2 applied id rest =>
    rw [drain]
    exact Edit.leads_lift (fun total used => counts used ▸ start) fun _ _ => ⟨applied, start⟩
  | case3 applied id rest left ihPassed ihPatched =>
    rw [drain]
    refine ((steps start).weaken fun t holds => ⟨applied, holds⟩).bind fun outcome t holds => ?_
    cases outcome with
    | none => exact ihPassed holds
    | some touched =>
      have requeued := (requeue_keeps (r := r) touched rest).leads holds
      exact (requeued.weaken fun t holds => ⟨applied + 1, holds⟩).bind fun queue _ holds =>
        ihPatched queue holds

/-- A run leads to what a compaction makes of that, or stops before it. -/
theorem run_leads {motive done : Nat → LoggedGraph → Prop} (steps : ∀ {n id s}, motive n s →
      (r.step id).Leads s (fun outcome => motive (n + outcome.toList.length)) (motive n))
    (compacts : ∀ {n s}, motive n s → Graph.compact.Leads s (fun _ => done n) (motive n))
    (idle : ∀ {s}, motive 0 s → done 0 s) {budget : Option Nat} (start : motive 0 s) :
    (r.run budget).Leads s done (fun t => ∃ n, motive n t) := by
  have drained (usedUp : Nat → Checked Nat)
      (counts : ∀ {n total}, usedUp n = .ok total → total = n)
      (allowance : Nat) (queue : List Nat) :
      (r.drain usedUp allowance queue 0 >>= fun applied => do
        if 0 < applied then Graph.compact
        return applied).Leads s done (fun t => ∃ n, motive n t) := by
    refine (drain_leads steps counts allowance queue start).bind fun applied t holds => ?_
    split
    · refine ((compacts holds).weaken fun t holds => ⟨applied, holds⟩).bind ?_
      exact fun _ _ holds => Edit.leads_pure holds
    · next none =>
      obtain rfl : applied = 0 := Nat.eq_zero_of_not_pos none
      exact Edit.leads_pure (idle holds)
  unfold RuleSet.run
  refine Edit.leads_get_bind.2 (Edit.leads_lift_bind (fun order _ => ?_) fun _ _ => ⟨0, start⟩)
  refine Edit.leads_lift_bind (fun queue _ => ?_) fun _ _ => ⟨0, start⟩
  cases budget with
  | none => exact drained _ (by simp) _ queue
  | some allowance => exact drained _ (by simp [eq_comm]) allowance queue

/-- A run that fails leaves a graph for which everything holds that the steps of the queue keep.
It may have stopped before the first of them or after the last, but a compaction that fails
changes nothing. -/
theorem run_eq_error {holds : Graph → Prop}
    (steps : ∀ id, Edit.Keeps (fun s : LoggedGraph => holds s.graph) (r.step id))
    {budget : Option Nat} (start : holds s.graph) (failed : r.run budget s = .error f s') :
    holds s'.graph := by
  have leads : (r.run budget).Leads s (fun _ _ => True) (fun t => ∃ _ : Nat, holds t.graph) := by
    refine run_leads (fun kept => (steps _).leads kept) ?_ (fun _ => trivial) start
    intro _ t kept
    refine Edit.leads_iff.2 ⟨fun _ _ _ => trivial, fun f u failed => ?_⟩
    obtain ⟨log, -, rfl⟩ := compact_eq_error.1 failed
    exact kept
  obtain ⟨_, kept⟩ := leads.of_error failed
  exact kept

end RuleSet

end EvenPad
