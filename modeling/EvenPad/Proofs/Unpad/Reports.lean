import EvenPad.Proofs.RuleSet.Reports
import EvenPad.Proofs.Unpad.Failure

/-!
What the passes report. Their rules report only why they have no patch, so the reports of a run
tell how many patches were applied to a well-formed graph. Main statement: `Pass.run_reports`,
also for a run that fails.
-/

namespace EvenPad

/-! ## Rules -/

namespace Unpad

variable {g : Graph} {node : Node} {kind : ConvKind} {w : Window} {takesOutputShape : Bool}

theorem quiet_forward : (forward kind w g node).Quiet := by
  unfold forward
  split
  · refine Logged.quiet_lift.bind fun facts => Logged.quiet_lift.bind fun resolved => ?_
    dsimp only
    split
    · exact (Logged.quiet_report fun _ => ⟨rfl, rfl⟩).bind fun _ => Logged.quiet_pure
    · split
      · exact Logged.quiet_pure
      · exact Logged.quiet_lift.bind fun _ => Logged.quiet_lift.bind fun _ => Logged.quiet_pure
  · exact Logged.quiet_pure

theorem quiet_plan {resolved : Resolution} {requested : Shape} :
    (plan node resolved requested).Quiet := by
  unfold plan
  dsimp only
  split
  · exact (Logged.quiet_report fun _ => ⟨rfl, rfl⟩).bind fun _ => Logged.quiet_pure
  · split
    · exact Logged.quiet_pure
    · split
      · exact (Logged.quiet_report fun _ => ⟨rfl, rfl⟩).bind fun _ => Logged.quiet_pure
      · refine Logged.quiet_lift.bind fun _ => Logged.quiet_lift.bind fun target => ?_
        cases target with
        | none => exact (Logged.quiet_report fun _ => ⟨rfl, rfl⟩).bind fun _ => Logged.quiet_pure
        | some target => exact Logged.quiet_pure

theorem quiet_deconv : (deconv kind w takesOutputShape g node).Quiet := by
  refine Logged.quiet_lift.bind fun facts => Logged.quiet_lift.bind fun resolved => ?_
  refine Logged.quiet_lift.bind fun requested => quiet_plan.bind fun planned => ?_
  cases planned with
  | none => exact Logged.quiet_pure
  | some p => exact Logged.quiet_lift.bind fun _ => Logged.quiet_pure

theorem quiet_fused : (fused w takesOutputShape g node).Quiet := by
  refine Logged.quiet_lift.bind fun facts => Logged.quiet_lift.bind fun resolved => ?_
  refine Logged.quiet_lift.bind fun requested => quiet_plan.bind fun planned => ?_
  cases planned with
  | none => exact Logged.quiet_pure
  | some p => exact Logged.quiet_lift.bind fun _ => Logged.quiet_pure

end Unpad

/-- The rules of a pass report no patches of their own. -/
theorem Pass.quiet {p : Pass} {rule : Rule} (mem : rule ∈ p.rules) : rule.Quiet := by
  have forwardRule (name : String) (kind : ConvKind) : (Unpad.forwardRule name kind).Quiet := by
    intro g node
    unfold Unpad.forwardRule
    dsimp only
    split
    · split
      · exact Unpad.quiet_forward
      · exact Logged.quiet_pure
    · exact Logged.quiet_pure
  have deconvRule (name : String) (kind : ConvKind) : (Unpad.deconvRule name kind).Quiet := by
    intro g node
    unfold Unpad.deconvRule
    dsimp only
    split
    · split
      · exact Unpad.quiet_deconv
      · exact Logged.quiet_pure
    · exact Logged.quiet_pure
  have fusedRule (name : String) : (Unpad.fusedRule name).Quiet := by
    intro g node
    unfold Unpad.fusedRule
    dsimp only
    split
    · exact Unpad.quiet_fused
    · exact Logged.quiet_pure
  cases p with
  | conv | groupConv =>
    obtain rfl := List.mem_singleton.1 mem
    exact forwardRule _ _
  | convBackprop =>
    obtain rfl := List.mem_singleton.1 mem
    exact deconvRule _ _
  | groupConvBackprop =>
    rcases List.mem_pair.1 mem with rfl | rfl
    · exact fusedRule _
    · exact deconvRule _ _

/-! ## Runs -/

/-- Patches that rules of the passes propose for nodes, so many of them, and compactions lead from
one graph to another. -/
inductive Graph.Patched (passes : List Pass) (g : Graph) : Nat → Graph → Prop
  | start : Patched passes g 0 g
  | patch {k id : Nat} {h h' : Graph} {p : Pass} {rule : Rule} {node : Node} {patch : Patch}
    {touched : List Nat} :
    Patched passes g k h → p ∈ passes → rule ∈ p.rules → h.nodes[id]? = some node →
      rule.Proposes h node patch → patch.apply h = .ok touched h' → Patched passes g (k + 1) h'
  | compact {k : Nat} {h h' : Graph} {log log' : Log} :
    Patched passes g k h → h.compacted log = .ok h' log' → Patched passes g k h'

/-- Each patch that led from `g` to a graph is in the log, `settled` of them before a pass was
last reported and `pending` since then. -/
structure Graph.Reports (g : Graph) (passes : List Pass) (settled pending : Nat)
    (s : LoggedGraph) : Prop where
  patched : g.Patched passes s.log.patches s.graph
  wellFormed : s.graph.WellFormed
  total : s.log.patches = settled + pending
  pending : s.log.pending = pending

namespace Pass

variable {p : Pass} {passes : List Pass} {g : Graph} {s : LoggedGraph} {settled : Nat}

theorem tallies_reports (mem : p ∈ passes) :
    RuleSet.Tallies p.rules (g.Reports passes settled) where
  quiet := fun _ => Pass.quiet
  reported := fun reports same =>
    ⟨same.1 ▸ reports.patched, reports.wellFormed, same.1.trans reports.total,
      same.2.trans reports.pending⟩
  patched := by
    intro n id h log node rule patch reports there among proposes
    have wf := reports.wellFormed
    obtain ⟨σ, signed, -⟩ := wf.signed there
    obtain rfl := wf.id_eq there
    obtain ⟨touched, h', applied⟩ := apply_ok wf.linked there signed among proposes
    obtain ⟨_, _, -, -, rewrites⟩ := replaces wf there among proposes applied
    refine ⟨touched, h', applied, reports.patched.patch mem among there proposes applied,
      rewrites.toRewritten.wellFormed wf, ?_, ?_⟩
    · exact congrArg (· + 1) reports.total
    · exact congrArg (· + 1) reports.pending
  compacted := by
    intro n h h' log log' reports compacted
    obtain ⟨w, compacts⟩ := reports.wellFormed.compacts compacted
    exact ⟨reports.patched.compact compacted, compacts.wellFormed reports.wellFormed,
      reports.total, reports.pending⟩

/-- Whether a run succeeds or fails, the patches that it applied to a well-formed graph are those
that it reported. A run that succeeds returns their number. -/
theorem run_reports {budget : Option Nat} (mem : p ∈ passes)
    (reports : g.Reports passes settled 0 s) :
    (p.run budget).Leads s (g.Reports passes settled)
      (fun t => ∃ n, g.Reports passes settled n t) :=
  ((tallies_reports mem).run reports).within

end Pass

end EvenPad
