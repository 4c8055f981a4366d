import EvenPad.Proofs.RuleSet.Progress
import EvenPad.Proofs.Unpad.Accept
import EvenPad.Proofs.Unpad.Pass

/-!
Passes that succeed. Main statement: `Pass.step_ok`, a step of the queue succeeds on a node of the
table unless it is a match for which there are no parts.
-/

namespace EvenPad.Pass

open Unpad

variable {p : Pass} {rule : Rule} {g : Graph} {node : Node} {σ : Signature}
  {patch : Patch} {id : Nat}

/-- A plan is what makes a transposed convolution a match. -/
theorem matches_of_plans {r : Resolution} {plan : Plan} (takes : p.takes σ.op = true)
    (resolves : σ.op.Resolves σ.operands r) (plans : Plans r σ.fact plan) : σ.Matches p where
  takes := takes
  uneven := by
    obtain ⟨batch, channels, target, shape, -⟩ := plans.inflates
    exact ⟨r, resolves, plans.padsKnown, plans.uneven,
      fun _ => ⟨plans.nonneg, batch, channels, target, shape⟩⟩

/-- The patches of a pass can be applied. -/
theorem apply_ok (linked : g.Linked) (there : g.nodes[node.id]? = some node)
    (signed : g.Signed node σ) (mem : rule ∈ p.rules) (proposes : rule.Proposes g node patch) :
    ∃ touched g', patch.apply g = .ok touched g' := by
  have taken : (g.output? ⟨node.id, 0⟩).isSome :=
    Graph.isSome_output?_iff_fact?.2 ⟨σ.fact, known_of_signed there signed⟩
  obtain ⟨d, k, taker, described, last, shunts⟩ := draft_of_proposes mem proposes
  exact described.apply_ok linked taken last shunts

section Answers

variable {kind : ConvKind} {w : Window} {takesOutputShape : Bool} {built : Fact} {log : Log}
  (there : g.nodes[node.id]? = some node) (signed : g.Signed node σ)
  (inferred : σ.op.outputFact σ.operands = .ok σ.fact)
  (parts : σ.Matches p → ∃ parts, Replaces σ node.provenance parts)
include there signed inferred parts

theorem forward_ok (op : σ.op = .conv kind w) (takes : p.takes σ.op = true) :
    ∃ outcome log', forward kind w g node log = .ok outcome log' := by
  obtain ⟨r, resolves, -⟩ : ∃ r, Conv.resolveForward kind w σ.operands = .ok r ∧
      r.fact = σ.fact := by
    rw [op] at inferred
    exact Checked.exceptMap_eq_ok.1 inferred
  by_cases uneven : r.padsKnown = true ∧ r.window.isAsymmetric = true
  · obtain ⟨parts, replaces⟩ := parts ⟨takes, r, op ▸ .conv resolves, uneven.1, uneven.2,
      fun transposed => by simp [op, Op.isTransposed] at transposed⟩
    obtain ⟨patch, proposed⟩ := forward_of_replaces there signed log op replaces
    exact ⟨some patch, log, proposed⟩
  · obtain ⟨log', declined⟩ := forward_declines there signed log resolves uneven
    exact ⟨none, log', declined⟩

theorem deconv_ok (op : σ.op = .deconv kind w takesOutputShape) (takes : p.takes σ.op = true) :
    ∃ outcome log', deconv kind w takesOutputShape g node log = .ok outcome log' := by
  obtain ⟨r, resolves, fact⟩ : ∃ r,
      Conv.resolveDeconv kind w takesOutputShape σ.operands = .ok r ∧
      r.fact = σ.fact := by
    rw [op] at inferred
    exact Checked.exceptMap_eq_ok.1 inferred
  by_cases planned : ∃ plan, Plans r σ.fact plan
  · obtain ⟨plan, plans⟩ := planned
    obtain ⟨parts, replaces⟩ := parts (matches_of_plans takes (op ▸ .deconv resolves) plans)
    obtain ⟨patch, proposed⟩ := deconv_of_replaces there signed log inferred op replaces
    exact ⟨some patch, log, proposed⟩
  · obtain ⟨log', declined⟩ := deconv_declines there signed log resolves fact.symm
      (fun plan plans => planned ⟨plan, plans⟩)
    exact ⟨none, log', declined⟩

theorem fused_ok (op : σ.op = .fusedDeconv w takesOutputShape built)
    (takes : p.takes σ.op = true) :
    ∃ outcome log', fused w takesOutputShape g node log = .ok outcome log' := by
  obtain ⟨r, resolves, fact⟩ : ∃ r, Conv.resolveFused w takesOutputShape σ.operands = .ok r ∧
      r.fact = σ.fact := by
    rw [op] at inferred
    exact fusedFact_eq_ok inferred
  by_cases planned : ∃ plan, Plans r σ.fact plan
  · obtain ⟨plan, plans⟩ := planned
    obtain ⟨parts, replaces⟩ := parts (matches_of_plans takes (op ▸ .fusedDeconv resolves) plans)
    obtain ⟨patch, proposed⟩ := fused_of_replaces there signed log inferred op replaces
    exact ⟨some patch, log, proposed⟩
  · obtain ⟨log', declined⟩ := fused_declines there signed log resolves fact.symm
      (fun plan plans => planned ⟨plan, plans⟩)
    exact ⟨none, log', declined⟩

theorem forwardRule_ok {name : String} (takes : ∀ w, p.takes (.conv kind w) = true) :
    ∃ outcome log', (forwardRule name kind).propose g node log = .ok outcome log' := by
  cases op : σ.op with
  | conv k w =>
    by_cases same : k = kind
    · simp only [forwardRule, signed.op, op, same, if_true]
      exact forward_ok there signed inferred parts (same ▸ op) (by rw [op, same, takes])
    · exact ⟨none, log, by simp only [forwardRule, signed.op, op, same, if_false]; rfl⟩
  | _ => exact ⟨none, log, by simp only [forwardRule, signed.op, op]; rfl⟩

theorem deconvRule_ok {name : String}
    (takes : ∀ w takesOutputShape, p.takes (.deconv kind w takesOutputShape) = true) :
    ∃ outcome log', (deconvRule name kind).propose g node log = .ok outcome log' := by
  cases op : σ.op with
  | deconv k w takesOutputShape =>
    by_cases same : k = kind
    · simp only [deconvRule, signed.op, op, same, if_true]
      exact deconv_ok there signed inferred parts (same ▸ op) (by rw [op, same, takes])
    · exact ⟨none, log, by simp only [deconvRule, signed.op, op, same, if_false]; rfl⟩
  | _ => exact ⟨none, log, by simp only [deconvRule, signed.op, op]; rfl⟩

theorem fusedRule_ok {name : String}
    (takes : ∀ w takesOutputShape built, p.takes (.fusedDeconv w takesOutputShape built) = true) :
    ∃ outcome log', (fusedRule name).propose g node log = .ok outcome log' := by
  cases op : σ.op with
  | fusedDeconv w takesOutputShape built =>
    simp only [fusedRule, signed.op, op]
    exact fused_ok there signed inferred parts op (by rw [op, takes])
  | _ => exact ⟨none, log, by simp only [fusedRule, signed.op, op]; rfl⟩

/-- The rules of a pass answer for a node that is no match, or for which there are parts. -/
theorem propose_ok (mem : rule ∈ p.rules) :
    ∃ outcome log', rule.propose g node log = .ok outcome log' := by
  cases p with
  | conv =>
    obtain rfl := List.mem_singleton.1 mem
    exact forwardRule_ok there signed inferred parts fun _ => rfl
  | groupConv =>
    obtain rfl := List.mem_singleton.1 mem
    exact forwardRule_ok there signed inferred parts fun _ => rfl
  | convBackprop =>
    obtain rfl := List.mem_singleton.1 mem
    exact deconvRule_ok there signed inferred parts fun _ _ => rfl
  | groupConvBackprop =>
    rcases List.mem_pair.1 mem with rfl | rfl
    · exact fusedRule_ok there signed inferred parts fun _ _ _ => rfl
    · exact deconvRule_ok there signed inferred parts fun _ _ => rfl

end Answers

/-- A step of the queue succeeds on a node of the table that is bypassed, or no match, or for
which there are parts. -/
theorem step_ok {s : LoggedGraph} (wf : s.graph.WellFormed)
    (there : s.graph.nodes[id]? = some node)
    (parts : s.graph.Wanted id → ∀ σ, s.graph.Signed node σ → σ.Matches p →
      ∃ parts, Replaces σ node.provenance parts) :
    ∃ outcome s', RuleSet.step p.rules id s = .ok outcome s' := by
  obtain ⟨σ, signed, inferred⟩ := wf.signed there
  obtain rfl := wf.id_eq there
  refine RuleSet.step_ok there fun live rule mem log => ?_
  have wanted := (wf.isBypassed_eq_false there).1 live
  have among := (RuleSet.mem_rulesFor.1 mem).1
  obtain ⟨outcome, log', proposed⟩ :=
    propose_ok there signed inferred (parts wanted σ signed) among
  refine ⟨outcome, log', proposed, ?_⟩
  rintro patch rfl
  exact apply_ok wf.linked there signed among ⟨log, log', proposed⟩

end EvenPad.Pass
