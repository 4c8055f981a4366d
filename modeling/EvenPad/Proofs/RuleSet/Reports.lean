import EvenPad.Proofs.RuleSet.Failure

/-!
What a run of a rule set reports. A patch is reported before it is applied, and a run that goes
well returns how many were. Main statement: `RuleSet.Tallies.run`, if a property of the number of
patches and the graph with its log is kept by reports of other things, by patches and by
compaction, it holds at the end of a run, for the number that is returned or, if the run fails,
for some number.
-/

namespace EvenPad

/-! ## Counting reports -/

namespace Log

/-- How many patches have been reported. -/
def patches : Log → Nat
  | [] => 0
  | .applying _ _ :: log => patches log + 1
  | _ :: log => patches log

/-- How many of them have been reported since a pass was last reported to have applied some. -/
def pending : Log → Nat
  | [] => 0
  | .applying _ _ :: log => pending log + 1
  | .passApplied _ _ _ :: _ => 0
  | _ :: log => pending log

/-- Nothing that counts has been reported between one log and the other. -/
def SameTally (log log' : Log) : Prop := log'.patches = log.patches ∧ log'.pending = log.pending

end Log

/-- The computation reports neither patches nor passes, whether it succeeds or not. -/
def Logged.Quiet {α : Type} (e : Logged α) : Prop := ∀ log, Edit.Keeps (Log.SameTally log) e

/-- So do all proposals of the rule. -/
def Rule.Quiet (rule : Rule) : Prop := ∀ g node, Logged.Quiet (rule.propose g node)

namespace Logged

variable {α β : Type} {e : Logged α} {f : α → Logged β}

theorem quiet_pure {a : α} : Quiet (pure a : Logged α) := fun _ => Edit.keeps_pure

theorem quiet_lift {c : Checked α} : Quiet (liftM c : Logged α) := fun _ => Edit.keeps_lift

theorem Quiet.bind (first : Quiet e) (rest : ∀ a, Quiet (f a)) : Quiet (e >>= f) :=
  fun log => (first log).bind fun a => rest a log

theorem quiet_report {event : Event} (plain : ∀ log, Log.SameTally log (event :: log)) :
    Quiet (report event) := by
  intro log
  refine Edit.keeps_modify fun log' same => ?_
  exact ⟨(plain log').1.trans same.1, (plain log').2.trans same.2⟩

theorem Quiet.after (quiet : Quiet e) (log : Log) : Log.SameTally log (Edit.after e log) :=
  quiet log ⟨rfl, rfl⟩

end Logged

theorem Graph.quiet_compacted (g : Graph) : Logged.Quiet g.compacted := by
  have carry (r : Renumbering) (input : Outlet) : Logged.Quiet (carryInput g r input) := by
    unfold carryInput
    split
    · exact Logged.quiet_pure
    · refine Logged.quiet_lift.bind fun node =>
        (Logged.quiet_report fun _ => ⟨rfl, rfl⟩).bind fun _ => ?_
      exact Logged.quiet_lift.bind fun _ => Logged.quiet_pure
  refine Logged.quiet_lift.bind fun order => Logged.quiet_lift.bind fun carried => ?_
  refine Logged.Quiet.bind (fun log =>
    Edit.keeps_foldlM (fun r input => carry r input log) carried _) fun r => ?_
  exact Logged.quiet_lift.bind fun _ => Logged.quiet_lift.bind fun _ => Logged.quiet_pure

namespace RuleSet

/-! ## Runs -/

/-- What a run keeps of the number of its patches and the graph with its log. A patch that is
proposed for a node can be applied. -/
structure Tallies (r : RuleSet) (motive : Nat → LoggedGraph → Prop) : Prop where
  quiet : ∀ rule ∈ r, rule.Quiet
  reported : ∀ {n : Nat} {g : Graph} {log log' : Log},
    motive n ⟨g, log⟩ → log.SameTally log' → motive n ⟨g, log'⟩
  patched : ∀ {n id : Nat} {g : Graph} {log : Log} {node : Node} {rule : Rule} {patch : Patch},
    motive n ⟨g, log⟩ → g.nodes[id]? = some node → rule ∈ r → rule.Proposes g node patch →
      ∃ touched g', patch.apply g = .ok touched g' ∧
        motive (n + 1) ⟨g', .applying rule.name node :: log⟩
  compacted : ∀ {n : Nat} {g g' : Graph} {log log' : Log},
    motive n ⟨g, log⟩ → g.compacted log = .ok g' log' → motive n ⟨g', log⟩

namespace Tallies

variable {r : RuleSet} {motive : Nat → LoggedGraph → Prop} {s : LoggedGraph}
  {n id : Nat} {node : Node} {rules : List Rule}
variable (tallies : r.Tallies motive)
include tallies

/-- A quiet computation on the log. -/
theorem onLog {α : Type} {e : Logged α} (quiet : Logged.Quiet e) (holds : motive n s) :
    (LoggedGraph.onLog e).Leads s
      (fun a t => (∃ log log', e log = .ok a log') ∧ t.graph = s.graph ∧
        motive n t) (motive n) := by
  have same := quiet.after s.log
  refine Edit.leads_onPart.2 (Edit.leads_iff.2 ⟨?_, ?_⟩)
  · intro a log run
    rw [Edit.after_of_ok run] at same
    exact ⟨⟨_, _, run⟩, rfl, tallies.reported holds same⟩
  · intro failure log run
    rw [Edit.after_of_error run] at same
    exact tallies.reported holds same

/-- One rule after another is asked, and the first patch is applied. -/
theorem tryRules (among : rules ⊆ r) (there : s.graph.nodes[id]? = some node)
    (holds : motive n s) :
    (RuleSet.tryRules node rules).Leads s
      (fun outcome => motive (n + outcome.toList.length)) (motive n) := by
  induction rules generalizing s with
  | nil => exact Edit.leads_pure holds
  | cons rule rest ih =>
    obtain ⟨mem, among⟩ := List.cons_subset.1 among
    refine Edit.leads_get_bind.2
      ((tallies.onLog (tallies.quiet rule mem s.graph node) holds).within.bind ?_)
    intro proposed t ⟨asked, same, holds⟩
    rw [← same] at there asked
    cases proposed with
    | none =>
      refine (tallies.onLog (Logged.quiet_report fun _ => ⟨rfl, rfl⟩) holds).bind ?_
      intro _ u ⟨_, same, holds⟩
      exact ih among (same ▸ there) holds
    | some patch =>
      -- the patch is reported first, so it must not fail to apply
      obtain ⟨touched, g', applied, holds⟩ := tallies.patched holds there mem asked
      have brought : (LoggedGraph.onGraph patch.apply).Leads
          { t with log := .applying rule.name node :: t.log }
            (fun _ => motive (n + 1)) (motive n) := by
        rw [LoggedGraph.onGraph, Edit.leads_onPart, Edit.Leads, applied]
        exact holds
      exact Edit.leads_bind_of_ok rfl (brought.within.bind fun _ _ holds => Edit.leads_pure holds)

/-- A step of the queue applies a patch or none. -/
theorem step (holds : motive n s) :
    (RuleSet.step r id).Leads s
      (fun outcome => motive (n + outcome.toList.length)) (motive n) := by
  refine Edit.leads_get_bind.2 (Edit.leads_lift_bind (fun node there => ?_) fun _ _ => holds)
  split
  · exact Edit.leads_pure holds
  · exact tallies.tryRules (fun _ mem => (mem_rulesFor.1 mem).1) (nodeAt_eq_ok.1 there) holds

theorem compact (holds : motive n s) : Graph.compact.Leads s (fun _ => motive n) (motive n) := by
  have same := s.graph.quiet_compacted.after s.log
  refine Edit.leads_iff.2 ⟨?_, ?_⟩
  · intro _ t run
    have compacted := compact_eq_ok.1 run
    rw [Edit.after_of_ok compacted] at same
    exact tallies.reported (tallies.compacted holds compacted) same
  · intro failure t failed
    obtain ⟨log, stopped, rfl⟩ := compact_eq_error.1 failed
    rw [Edit.after_of_error stopped] at same
    exact tallies.reported holds same

/-- A run returns how many patches it applied. A run that fails has applied some number of
them. -/
theorem run {budget : Option Nat} (holds : motive 0 s) :
    (RuleSet.run r budget).Leads s motive (fun t => ∃ n, motive n t) := by
  refine run_leads ?_ ?_ (fun holds => holds) holds
  · exact fun holds => tallies.step holds
  · exact fun holds => tallies.compact holds

end Tallies

end RuleSet

end EvenPad
