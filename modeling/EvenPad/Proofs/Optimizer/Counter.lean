import EvenPad.Proofs.Optimizer.Limit
import EvenPad.Proofs.Unpad.Reports

/-!
The counter of a session that is used for several calls, of which some fail. A pass adds its
patches to the counter when it has come to its end, so those of a pass that fails are missed.

* `Optimizer.Accounts` is the account of a call between two turns: patches that are reported are
  counted, or pending in the pass that is running.
* `Optimizer.Usage` sums up calls.
* `Optimizer.counter_add_missed`: the counter and what it missed are the patches that were
  applied, and the counter stays within the limit. Only calls that fail miss patches.
* `Optimizer.counter_misses_flawedConvs`: they do, and then more patches are applied than the
  limit allows.
-/

namespace EvenPad.Optimizer

variable {o : Optimizer} {g : Graph} {graphs : List Graph} {p : Pass} {s : Session}
  {settled count pending left round : Nat}

/-! ## One call -/

/-- A call on `g` that began with the counter at `count`: the patches of the passes that have come
to their end are counted, and some are pending. -/
structure Accounts (o : Optimizer) (g : Graph) (count pending : Nat) (s : Session) : Prop where
  settled : ∃ settled, g.Reports o.passes settled pending s.work ∧ s.applied = count + settled
  within : o.WithinLimit s.applied

theorem Accounts.start (wf : g.WellFormed) (within : o.WithinLimit count) :
    o.Accounts g count 0 ⟨⟨g, []⟩, count⟩ :=
  ⟨⟨0, ⟨.start, wf, rfl, rfl⟩, rfl⟩, within⟩

theorem Accounts.applied_add (accounts : o.Accounts g count pending s) :
    s.applied + s.work.log.pending = count + s.work.log.patches := by
  obtain ⟨settled, reports, counted⟩ := accounts.settled
  rw [reports.total, reports.pending, counted, Nat.add_assoc]

/-- A pass that comes to its end settles what was pending. One that fails leaves it pending. -/
theorem Accounts.runPass (accounts : o.Accounts g count 0 s) (mem : p ∈ o.passes) :
    (o.runPass round p).Leads s (fun _ => o.Accounts g count 0)
      (fun t => ∃ n, o.Accounts g count n t) := by
  obtain ⟨⟨settled, reports, counted⟩, within⟩ := accounts
  have ran : (Session.onWork (p.run (o.stepLimit.map (· - s.applied)))).Leads s
      (fun n t => g.Reports o.passes settled n t.work ∧ t.applied = count + settled ∧
        o.WithinLimit (t.applied + n))
      (fun t => ∃ n, o.Accounts g count n t) := by
    refine Edit.leads_onPart.2 ((p.run_reports mem reports).mono ?_ ?_)
    · intro n work run reports
      refine ⟨reports, counted, fun limit limited => ?_⟩
      rw [limited, Option.map_some, Pass.run, Edit.within_eq_ok] at run
      have most := RuleSet.run_le run
      have before := within limit limited
      dsimp only
      omega
    · intro work stopped
      obtain ⟨n, reports⟩ := stopped
      exact ⟨n, ⟨settled, reports, counted⟩, within⟩
  refine Edit.leads_get_bind.2 (ran.within.bind fun n t finished => ?_)
  obtain ⟨reports, counted, within⟩ := finished
  split
  · have passed : g.Reports o.passes (settled + n) 0
        { t.work with log := .passApplied round p.name n :: t.work.log } :=
      ⟨reports.patched, reports.wellFormed, reports.total, rfl⟩
    refine Edit.leads_bind_of_ok rfl ?_
    refine Edit.leads_get_bind.2 (Edit.leads_lift_bind (fun _ _ => ?_) fun f failed => ?_)
    · exact Edit.leads_modify.2 ⟨⟨_, passed, by dsimp only; omega⟩, within⟩
    · -- the report came first, but the check after it cannot fail
      rw [passed.wellFormed.checkEdges_ok] at failed
      cases failed
  · next none =>
    obtain rfl : n = 0 := Nat.eq_zero_of_not_pos none
    exact Edit.leads_modify.2 ⟨⟨settled, reports, counted⟩, within⟩

theorem Accounts.turn (accounts : o.Accounts g count 0 s) (mem : p ∈ o.passes) :
    (o.turn round p).Leads s (fun _ => o.Accounts g count 0)
      (fun t => ∃ n, o.Accounts g count n t) := by
  refine Edit.leads_get_bind.2 ?_
  split
  · exact Edit.leads_pure accounts
  · exact accounts.runPass mem

theorem Accounts.rounds (accounts : o.Accounts g count 0 s) :
    (o.rounds left round).Leads s (fun _ => o.Accounts g count 0)
      (fun t => ∃ n, o.Accounts g count n t) := by
  induction left generalizing s round with
  | zero => exact ⟨0, accounts⟩
  | succ left ih =>
    rw [Optimizer.rounds, runPasses_eq]
    refine Edit.leads_get_bind.2 (Edit.Leads.bind (Edit.leads_forM ?_ accounts) ?_)
    · intro p mem t accounts
      exact accounts.turn mem
    · intro _ t accounts
      refine Edit.leads_get_bind.2 ?_
      split
      · exact Edit.leads_pure accounts
      · exact ih accounts

/-- The session that a call leaves, whether it succeeds or not. -/
def call (o : Optimizer) (count : Nat) (g : Graph) : Session :=
  o.optimizeSession.after ⟨⟨g, []⟩, count⟩

theorem optimizeSession_leads (wf : g.WellFormed) (within : o.WithinLimit count) :
    o.optimizeSession.Leads ⟨⟨g, []⟩, count⟩ (fun _ => o.Accounts g count 0)
      (fun t => ∃ n, o.Accounts g count n t) :=
  Edit.leads_get_bind.2 (Accounts.start wf within).rounds

theorem accounts_call (wf : g.WellFormed) (within : o.WithinLimit count) :
    ∃ pending, o.Accounts g count pending (o.call count g) := by
  have leads := optimizeSession_leads wf within
  exact (leads.mono (fun _ _ _ accounts => ⟨0, accounts⟩) fun _ accounts => accounts).after

/-! ## Several calls -/

/-- What calls come to: the counter of their session, the patches that they applied, and those
that the counter missed because they were pending when a call failed. -/
structure Usage where
  counter : Nat
  applied : Nat
  missed : Nat
  deriving DecidableEq, Inhabited

/-- One more call. -/
def Usage.next (o : Optimizer) (u : Usage) (g : Graph) : Usage :=
  let s := o.call u.counter g
  ⟨s.applied, u.applied + s.work.log.patches, u.missed + s.work.log.pending⟩

/-- A session is used for calls on graphs one after another. -/
def usage (o : Optimizer) (graphs : List Graph) : Usage := graphs.foldl (Usage.next o) ⟨0, 0, 0⟩

theorem usage_concat : o.usage (graphs ++ [g]) = (o.usage graphs).next o g :=
  List.foldl_concat _ _ _ _

theorem usage_accounts (wf : ∀ g ∈ graphs, g.WellFormed) :
    (o.usage graphs).counter + (o.usage graphs).missed = (o.usage graphs).applied ∧
      o.WithinLimit (o.usage graphs).counter := by
  induction graphs using List.reverseRecOn with
  | nil => exact ⟨rfl, fun _ _ => Nat.zero_le _⟩
  | append_singleton graphs g ih =>
    obtain ⟨before, last⟩ := List.forall_mem_append.1 wf
    obtain ⟨sum, within⟩ := ih before
    obtain ⟨pending, accounts⟩ := accounts_call (last g (List.mem_singleton_self g)) within
    have added := accounts.applied_add
    rw [usage_concat]
    refine ⟨?_, accounts.within⟩
    dsimp only [Usage.next]
    omega

/-- After any calls on well-formed graphs, in whatever order some succeed and some fail, the
counter and what it missed are the number of patches that were applied, and the counter is within
the limit. One more call reports each patch that it applies, leaves a well-formed graph, and
misses patches only if it fails. -/
theorem counter_add_missed (wf : ∀ g ∈ graphs, g.WellFormed) :
    (o.usage graphs).counter + (o.usage graphs).missed = (o.usage graphs).applied ∧
    (∀ limit, o.stepLimit = some limit → (o.usage graphs).counter ≤ limit) ∧
    ∀ g, g.WellFormed → ∀ s, o.call (o.usage graphs).counter g = s →
      g.Patched o.passes s.work.log.patches s.work.graph ∧ s.work.graph.WellFormed ∧
      (s.work.log.pending = 0 ∨
        ∃ failure, o.optimizeSession ⟨⟨g, []⟩, (o.usage graphs).counter⟩ = .error failure s) := by
  obtain ⟨sum, within⟩ := usage_accounts (o := o) wf
  refine ⟨sum, within, ?_⟩
  rintro g wf s rfl
  obtain ⟨_, ⟨_, reports, -⟩, -⟩ := accounts_call wf within
  refine ⟨reports.patched, reports.wellFormed, ?_⟩
  cases run : o.optimizeSession ⟨⟨g, []⟩, (o.usage graphs).counter⟩ with
  | ok _ s =>
    obtain ⟨⟨_, reports, -⟩, -⟩ := (optimizeSession_leads wf within).of_ok run
    rw [call, Edit.after_of_ok run]
    exact .inl reports.pending
  | error failure s =>
    rw [call, Edit.after_of_error run]
    exact .inr ⟨failure, rfl⟩

/-! ## A call that fails -/

/-- What calls on copies of what is built come to. -/
def usageOn (o : Optimizer) (build : Edit Graph Unit) (calls : Nat) : Option Usage :=
  match build .empty with
  | .ok _ g => some (o.usage (List.replicate calls g))
  | .error _ _ => none

theorem usage_of_usageOn {build : Edit Graph Unit} {u : Unit} {usage : Usage} (calls : Nat)
    (made : build .empty = .ok u g) (used : o.usageOn build calls = some usage) :
    o.usage (List.replicate calls g) = usage := by
  rw [usageOn, made] at used
  exact Option.some.inj used

/-- A patch is applied before a second convolution makes the call fail. It is never counted, so
with a limit of two patches three such calls apply three, and the counter stays at zero. -/
theorem counter_misses_flawedConvs :
    ∃ (o : Optimizer) (g : Graph), o = { unpadding with stepLimit := some 2 } ∧
      Pass.flawedConvs .empty = .ok ⟨⟩ g ∧ g.Built ∧ o.usage [g, g, g] = ⟨0, 3, 3⟩ ∧
      g.Patched o.passes 1 (o.call 0 g).work.graph ∧
      ∃ failure, o.optimizeSession ⟨⟨g, []⟩, 0⟩ = .error failure (o.call 0 g) := by
  obtain ⟨o, limited⟩ : ∃ o, o = { unpadding with stepLimit := some 2 } := ⟨_, rfl⟩
  obtain ⟨g, made⟩ : ∃ g, Pass.flawedConvs .empty = .ok ⟨⟩ g := ⟨_, rfl⟩
  have built := Pass.built_flawedConvs made
  have once : o.usage [g] = ⟨0, 1, 1⟩ := usage_of_usageOn 1 made (by rw [limited]; cbv)
  have thrice : o.usage [g, g, g] = ⟨0, 3, 3⟩ := usage_of_usageOn 3 made (by rw [limited]; cbv)
  have wf : ∀ h ∈ [g, g, g], h.WellFormed := by simpa using built.wellFormed
  obtain ⟨-, -, next⟩ := counter_add_missed (o := o) wf
  rw [thrice] at next
  obtain ⟨patched, -, missed⟩ := next g built.wellFormed (o.call 0 g) rfl
  obtain ⟨-, reported, pending⟩ := Usage.mk.inj once
  have reported : (o.call 0 g).work.log.patches = 1 := (Nat.zero_add _).symm.trans reported
  have pending : (o.call 0 g).work.log.pending = 1 := (Nat.zero_add _).symm.trans pending
  rw [reported] at patched
  refine ⟨o, g, limited, made, built, thrice, patched, missed.resolve_left ?_⟩
  rw [pending]
  exact Nat.one_ne_zero

end EvenPad.Optimizer
