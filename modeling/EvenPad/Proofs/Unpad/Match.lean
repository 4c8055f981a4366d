import EvenPad.Proofs.RuleSet
import EvenPad.Proofs.Unpad.Rewrites
import EvenPad.Unpad.Pass

/-!
The nodes that a pass is for. A signature `Matches` a pass when the pass takes its operator and
the pads that it resolves to are known and uneven; those of a transposed convolution may not be
negative either, and its output has known lengths. Main statements: the rules of a pass have
patches for matches only (`Pass.matches_of_proposes`), and they have one for every match
(`Pass.not_matches_of_declines`).
-/

namespace EvenPad

/-! ## Settled windows -/

section Settled

variable {w : Window} {t : ConvTraits} {data filters : Fact} {kind : ConvKind}
  {resolved : Resolution} {facts : List Fact} {rank : Nat}

theorem Window.Settled.withDefaults (settled : w.Settled) : (w.withDefaults rank).Settled := by
  obtain ⟨explicit, same⟩ := settled
  refine ⟨explicit, ?_⟩
  rw [Window.withDefaults, same]

theorem Window.Settled.even (settled : w.Settled) : w.isAsymmetric = false := by
  rw [isAsymmetric, settled.2]
  simp

namespace Conv

/-- Pads that are written down stay as they are. -/
theorem even_of_resolveForward (settled : w.Settled)
    (resolves : resolveForward kind w facts = .ok resolved) :
    resolved.window.isAsymmetric = false := by
  obtain ⟨data, filters, rfl⟩ := operands_of_resolveForward resolves
  obtain ⟨-, _, -, ⟨-, rfl⟩ | ⟨rank, operands, _, -, checked, pads, -⟩⟩ :=
    resolveForward_eq_ok_iff.1 resolves
  · exact settled.even
  · have settled : operands.window.Settled := by
      rw [(checkOperands_eq_ok checked).1]
      exact settled.withDefaults
    simp only [forwardPads, settled.1] at pads
    rw [← (Prod.mk.inj (Except.ok.inj pads)).1]
    exact settled.even

theorem requestedPads_settled {operands : Operands}
    {requested : Option (List Nat)} {padsKnown : Bool} (settled : operands.window.Settled)
    (pads : requestedPads operands requested = .ok (w, padsKnown)) : w = operands.window := by
  simp only [requestedPads, settled.1] at pads
  exact (Prod.mk.inj (Except.ok.inj pads)).1.symm

theorem transposedSpatial_settled {operands : Operands} {hasOutputShape padsKnown : Bool}
    {requested : Option (List Nat)} {spatial : List Extent} (settled : operands.window.Settled)
    (resolves : transposedSpatial operands rank hasOutputShape requested =
      .ok (w, padsKnown, spatial)) : w = operands.window := by
  obtain ⟨-, -, pads, -⟩ | ⟨-, -, rfl, -⟩ := transposedSpatial_eq_ok_iff.1 resolves
  · exact requestedPads_settled settled pads
  · exact if_pos settled.1

theorem even_of_resolveTransposed {outputShape : Option Fact} (settled : w.Settled)
    (resolves : resolveTransposed t w data filters outputShape = .ok resolved) :
    resolved.window.isAsymmetric = false := by
  obtain ⟨_, _, -, -, ⟨-, rfl⟩ | ⟨rank, operands, _, -, checked, spatials, -⟩⟩ :=
    resolveTransposed_eq_ok_iff.1 resolves
  · exact settled.even
  · have settled : operands.window.Settled := by
      rw [(checkOperands_eq_ok checked).1]
      exact settled.withDefaults
    rw [transposedSpatial_settled settled spatials]
    exact settled.even

end Conv

end Settled

namespace Unpad

variable {g : Graph} {node : Node} {fact : Fact} {requested : Shape} {rank : Nat}
  {lengths : List Nat} {resolved : Resolution} {log log' : Log} {kind : ConvKind} {w : Window}
  {takesOutputShape : Bool} {batch channels : Extent}

/-! ## Nodes without a patch -/

/-- There is no plan only if the pads are unknown, even or negative, or the output has unknown
lengths. -/
theorem plan_eq_none (run : plan node resolved requested log = .ok none log')
    (padsKnown : resolved.padsKnown = true) (uneven : resolved.window.isAsymmetric = true)
    (nonneg : ∀ pad ∈ resolved.window.padsBegin ++ resolved.window.padsEnd, 0 ≤ pad) :
    ∃ rank, targetLengths node requested rank = .ok none := by
  unfold plan at run
  dsimp only at run
  rw [if_neg (by simp [padsKnown]), if_neg (by simp [uneven])] at run
  rw [if_neg] at run
  · simp only [Edit.bind_eq_ok, Edit.lift_eq_ok] at run
    obtain ⟨_, _, -, target, _, ⟨told, rfl⟩, run⟩ := run
    cases target with
    | none => exact ⟨_, told⟩
    | some target => simp at run
  · simp only [List.any_eq_true, decide_eq_true_eq, not_exists, not_and, Int.not_lt]
    exact nonneg

theorem forward_eq_none {data filters : Outlet} (inputs : node.inputs = [data, filters])
    (run : forward kind w g node log = .ok none log') :
    ∃ facts resolved, g.inputFacts node.id = .ok facts ∧
      Conv.resolveForward kind w facts = .ok resolved ∧
      ¬ (resolved.padsKnown = true ∧ resolved.window.isAsymmetric = true) := by
  simp only [forward, inputs, Edit.lift_eq_ok, Edit.bind_eq_ok] at run
  obtain ⟨facts, _, ⟨known, rfl⟩, resolved, _, ⟨resolves, rfl⟩, run⟩ := run
  refine ⟨facts, resolved, known, resolves, ?_⟩
  rintro ⟨padsKnown, uneven⟩
  rw [if_neg (by simp [padsKnown]), if_neg (by simp [uneven])] at run
  simp at run

theorem deconv_eq_none (run : deconv kind w takesOutputShape g node log = .ok none log') :
    ∃ facts resolved requested, g.inputFacts node.id = .ok facts ∧
      Conv.resolveDeconv kind w takesOutputShape facts = .ok resolved ∧
      plan node resolved requested log = .ok none log' := by
  simp only [deconv, Edit.bind_eq_ok, Edit.lift_eq_ok] at run
  obtain ⟨facts, _, ⟨known, rfl⟩, resolved, _, ⟨resolves, rfl⟩, requested, _, ⟨-, rfl⟩, p, _,
      planned, run⟩ := run
  cases p with
  | none =>
    obtain ⟨-, rfl⟩ := Edit.pure_eq_ok.1 run
    exact ⟨facts, resolved, requested, known, resolves, planned⟩
  | some p => simp at run

theorem fused_eq_none (run : fused w takesOutputShape g node log = .ok none log') :
    ∃ facts resolved requested, g.inputFacts node.id = .ok facts ∧
      Conv.resolveFused w takesOutputShape facts = .ok resolved ∧
      plan node resolved requested log = .ok none log' := by
  simp only [fused, Edit.bind_eq_ok, Edit.lift_eq_ok] at run
  obtain ⟨facts, _, ⟨known, rfl⟩, resolved, _, ⟨resolves, rfl⟩, requested, _, ⟨-, rfl⟩, p, _,
      planned, run⟩ := run
  cases p with
  | none =>
    obtain ⟨-, rfl⟩ := Edit.pure_eq_ok.1 run
    exact ⟨facts, resolved, requested, known, resolves, planned⟩
  | some p => simp at run

end Unpad

/-! ## Matches -/

/-- What an operator of the convolution family resolves to. -/
inductive Op.Resolves : Op → List Fact → Resolution → Prop
  | conv {kind : ConvKind} {w : Window} {facts : List Fact} {r : Resolution} :
    Conv.resolveForward kind w facts = .ok r → Resolves (.conv kind w) facts r
  | deconv {kind : ConvKind} {w : Window} {takesOutputShape : Bool} {facts : List Fact}
      {r : Resolution} :
    Conv.resolveDeconv kind w takesOutputShape facts = .ok r →
      Resolves (.deconv kind w takesOutputShape) facts r
  | fusedDeconv {w : Window} {takesOutputShape : Bool} {built : Fact} {facts : List Fact}
      {r : Resolution} :
    Conv.resolveFused w takesOutputShape facts = .ok r →
      Resolves (.fusedDeconv w takesOutputShape built) facts r

def Op.isTransposed : Op → Bool
  | .deconv .. | .fusedDeconv .. => true
  | _ => false

/-- The operators that a pass is for. -/
def Pass.takes : Pass → Op → Bool
  | .conv, .conv kind _ => kind = .convolution
  | .groupConv, .conv kind _ => kind = .groupConvolution
  | .convBackprop, .deconv kind _ _ => kind = .convolutionBackpropData
  | .groupConvBackprop, .deconv kind _ _ => kind = .groupConvolutionBackpropData
  | .groupConvBackprop, .fusedDeconv .. => true
  | _, _ => false

/-- The pads can be cut off an output: none is negative, and what is left has known lengths. -/
def Resolution.Cuttable (r : Resolution) (fact : Fact) : Prop :=
  (∀ pad ∈ r.window.padsBegin ++ r.window.padsEnd, 0 ≤ pad) ∧
    ∃ batch channels, ∃ lengths : List Nat,
      fact.shape = .ranked (batch :: channels :: lengths.map .fixed)

/-- The pass is for the operator, and its pads are known and uneven. Those of a transposed
convolution can be cut off. -/
structure Signature.Matches (σ : Signature) (p : Pass) : Prop where
  takes : p.takes σ.op = true
  uneven : ∃ r, σ.op.Resolves σ.operands r ∧ r.padsKnown = true ∧ r.window.isAsymmetric = true ∧
    (σ.op.isTransposed = true → r.Cuttable σ.fact)

/-- The signature of the node matches. -/
def Graph.Matches (g : Graph) (n : Node) (p : Pass) : Prop := ∃ σ, g.Signed n σ ∧ σ.Matches p

section Matches

variable {g : Graph} {p : Pass} {σ : Signature} {n node : Node} {op : Op} {facts : List Fact}
  {r r' : Resolution} {kind : ConvKind} {w : Window} {takesOutputShape : Bool} {built : Fact}
  {rule : Rule} {patch : Patch}

/-- The fact of a transposed convolution is the one that it resolves to. -/
theorem Op.Resolves.outputFact {fact : Fact} (resolves : op.Resolves facts r)
    (inferred : op.outputFact facts = .ok fact) : fact = r.fact := by
  cases resolves with
  | conv resolves =>
    simp only [Op.outputFact, resolves] at inferred
    exact (Except.ok.inj inferred).symm
  | deconv resolves =>
    simp only [Op.outputFact, resolves] at inferred
    exact (Except.ok.inj inferred).symm
  | fusedDeconv resolves =>
    obtain ⟨r', resolves', rfl⟩ := fusedFact_eq_ok inferred
    rw [Except.ok.inj (resolves.symm.trans resolves')]

/-- Settled windows resolve to even pads. -/
theorem Op.Resolves.even (settled : op.Settled) (resolves : op.Resolves facts r) :
    r.window.isAsymmetric = false := by
  cases resolves with
  | conv resolves => exact Conv.even_of_resolveForward settled resolves
  | deconv resolves =>
    simp only [Conv.resolveDeconv, Checked.bind_eq_ok] at resolves
    obtain ⟨_, -, resolves⟩ := resolves
    exact Conv.even_of_resolveTransposed settled resolves
  | fusedDeconv resolves =>
    simp only [Conv.resolveFused, Checked.bind_eq_ok] at resolves
    obtain ⟨_, -, resolves⟩ := resolves
    exact Conv.even_of_resolveTransposed settled resolves

theorem Signature.not_matches_of_settled (settled : σ.op.Settled) : ¬ σ.Matches p := by
  rintro ⟨-, r, resolves, -, uneven, -⟩
  rw [resolves.even settled] at uneven
  simp at uneven

/-! ## Patches are for matches -/

namespace Unpad

variable {name : String} {log log' : Log}

theorem forwardRule_proposes (proposes : (forwardRule name kind).Proposes g node patch) :
    ∃ w log log', node.op = .conv kind w ∧ forward kind w g node log = .ok (some patch) log' := by
  obtain ⟨log, log', run⟩ := proposes
  cases op : node.op with
  | conv k w =>
    simp only [forwardRule, op] at run
    by_cases same : k = kind
    · subst same
      rw [if_pos rfl] at run
      exact ⟨w, log, log', rfl, run⟩
    · simp [if_neg same] at run
  | _ => simp [forwardRule, op] at run

theorem deconvRule_proposes (proposes : (deconvRule name kind).Proposes g node patch) :
    ∃ w takesOutputShape log log', node.op = .deconv kind w takesOutputShape ∧
      deconv kind w takesOutputShape g node log = .ok (some patch) log' := by
  obtain ⟨log, log', run⟩ := proposes
  cases op : node.op with
  | deconv k w takesOutputShape =>
    simp only [deconvRule, op] at run
    by_cases same : k = kind
    · subst same
      rw [if_pos rfl] at run
      exact ⟨w, takesOutputShape, log, log', rfl, run⟩
    · simp [if_neg same] at run
  | _ => simp [deconvRule, op] at run

theorem fusedRule_proposes (proposes : (fusedRule name).Proposes g node patch) :
    ∃ w takesOutputShape built log log', node.op = .fusedDeconv w takesOutputShape built ∧
      fused w takesOutputShape g node log = .ok (some patch) log' := by
  obtain ⟨log, log', run⟩ := proposes
  cases op : node.op with
  | fusedDeconv w takesOutputShape built =>
    simp only [fusedRule, op] at run
    exact ⟨w, takesOutputShape, built, log, log', rfl, run⟩
  | _ => simp [fusedRule, op] at run

end Unpad

/-- What there is a plan for has known and uneven pads that can be cut off. -/
theorem Graph.Signed.uneven_of_plan {requested : Shape} {plan : Unpad.Plan} {log log' : Log}
    (signed : g.Signed node σ) (inferred : σ.op.outputFact σ.operands = .ok σ.fact)
    (resolves : σ.op.Resolves σ.operands r)
    (transposed : Conv.ResolvesTransposed w r requested)
    (planned : Unpad.plan node r requested log = .ok (some plan) log') :
    ∃ r, σ.op.Resolves σ.operands r ∧ r.padsKnown = true ∧ r.window.isAsymmetric = true ∧
      (σ.op.isTransposed = true → r.Cuttable σ.fact) := by
  have fact := resolves.outputFact inferred
  obtain ⟨padsKnown, uneven, nonneg, batch, channels, target, shape, -⟩ :=
    Unpad.plan_eq (by rw [signed.facts, fact]) transposed planned
  exact ⟨r, resolves, padsKnown, uneven,
    fun _ => ⟨nonneg, batch, channels, target, by rwa [fact]⟩⟩

namespace Pass

/-- The patches of a pass are those of the rules for the operators that it takes. -/
theorem proposes_cases (mem : rule ∈ p.rules) (proposes : rule.Proposes g node patch) :
    p.takes node.op = true ∧
      ((∃ kind w log log', node.op = .conv kind w ∧
          Unpad.forward kind w g node log = .ok (some patch) log') ∨
        (∃ kind w takesOutputShape log log', node.op = .deconv kind w takesOutputShape ∧
          Unpad.deconv kind w takesOutputShape g node log = .ok (some patch) log') ∨
        ∃ w takesOutputShape built log log', node.op = .fusedDeconv w takesOutputShape built ∧
          Unpad.fused w takesOutputShape g node log = .ok (some patch) log') := by
  cases p with
  | conv =>
    cases List.mem_singleton.1 mem
    obtain ⟨w, log, log', op, run⟩ := Unpad.forwardRule_proposes proposes
    exact ⟨by rw [op]; rfl, .inl ⟨_, w, log, log', op, run⟩⟩
  | groupConv =>
    cases List.mem_singleton.1 mem
    obtain ⟨w, log, log', op, run⟩ := Unpad.forwardRule_proposes proposes
    exact ⟨by rw [op]; rfl, .inl ⟨_, w, log, log', op, run⟩⟩
  | convBackprop =>
    cases List.mem_singleton.1 mem
    obtain ⟨w, takesOutputShape, log, log', op, run⟩ := Unpad.deconvRule_proposes proposes
    exact ⟨by rw [op]; rfl, .inr (.inl ⟨_, w, takesOutputShape, log, log', op, run⟩)⟩
  | groupConvBackprop =>
    rcases List.mem_cons.1 mem with rfl | mem
    · obtain ⟨w, takesOutputShape, built, log, log', op, run⟩ := Unpad.fusedRule_proposes proposes
      exact ⟨by rw [op]; rfl, .inr (.inr ⟨w, takesOutputShape, built, log, log', op, run⟩)⟩
    · cases List.mem_singleton.1 mem
      obtain ⟨w, takesOutputShape, log, log', op, run⟩ := Unpad.deconvRule_proposes proposes
      exact ⟨by rw [op]; rfl, .inr (.inl ⟨_, w, takesOutputShape, log, log', op, run⟩)⟩

/-- A node that a rule of the pass has a patch for is a match. -/
theorem matches_of_proposes (wf : g.WellFormed) (there : g.nodes[node.id]? = some node)
    (mem : rule ∈ p.rules) (proposes : rule.Proposes g node patch) : g.Matches node p := by
  obtain ⟨σ, signed, inferred⟩ := wf.signed there
  obtain ⟨takes, cases⟩ := proposes_cases mem proposes
  rw [signed.op] at takes cases
  refine ⟨σ, signed, takes, ?_⟩
  rcases cases with ⟨kind, w, log, log', op, run⟩ |
    ⟨kind, w, takesOutputShape, log, log', op, run⟩ |
    ⟨w, takesOutputShape, built, log, log', op, run⟩
  · obtain ⟨_, _, facts, r, _, -, known, resolves, padsKnown, uneven, -⟩ :=
      Unpad.forward_eq_some run
    cases signed.operands_eq there known
    rw [op]
    exact ⟨r, .conv resolves, padsKnown, uneven, by simp [Op.isTransposed]⟩
  · obtain ⟨facts, r, _, plan, _, known, resolves, query, planned, -⟩ := Unpad.deconv_eq_some run
    cases signed.operands_eq there known
    have resolves' : σ.op.Resolves σ.operands r := by
      rw [op]
      exact .deconv resolves
    exact signed.uneven_of_plan inferred resolves'
      (Conv.resolvesTransposed_of_deconv resolves query) planned
  · obtain ⟨facts, r, _, plan, _, known, resolves, query, planned, -⟩ := Unpad.fused_eq_some run
    cases signed.operands_eq there known
    have resolves' : σ.op.Resolves σ.operands r := by
      rw [op]
      exact .fusedDeconv resolves
    exact signed.uneven_of_plan inferred resolves'
      (Conv.resolvesTransposed_of_fused resolves query) planned

/-! ## Every match has a patch -/

theorem forwardRule_mem (takes : p.takes (.conv kind w) = true) :
    ∃ name, Unpad.forwardRule name kind ∈ p.rules := by
  cases p with
  | conv =>
    cases of_decide_eq_true takes
    exact ⟨_, List.mem_cons_self⟩
  | groupConv =>
    cases of_decide_eq_true takes
    exact ⟨_, List.mem_cons_self⟩
  | convBackprop => simp [Pass.takes] at takes
  | groupConvBackprop => simp [Pass.takes] at takes

theorem deconvRule_mem (takes : p.takes (.deconv kind w takesOutputShape) = true) :
    ∃ name, Unpad.deconvRule name kind ∈ p.rules := by
  cases p with
  | conv => simp [Pass.takes] at takes
  | groupConv => simp [Pass.takes] at takes
  | convBackprop =>
    cases of_decide_eq_true takes
    exact ⟨_, List.mem_cons_self⟩
  | groupConvBackprop =>
    cases of_decide_eq_true takes
    exact ⟨_, List.mem_cons_of_mem _ List.mem_cons_self⟩

theorem fusedRule_mem (takes : p.takes (.fusedDeconv w takesOutputShape built) = true) :
    ∃ name, Unpad.fusedRule name ∈ p.rules := by
  cases p with
  | groupConvBackprop => exact ⟨_, List.mem_cons_self⟩
  | _ => simp [Pass.takes] at takes

/-- A match has known pads that can be cut off, so there is a plan for it. -/
theorem plan_ne_none {requested : Shape} {log log' : Log} {fact : Fact}
    (facts : node.facts = [fact]) (padsKnown : r.padsKnown = true)
    (uneven : r.window.isAsymmetric = true) (cuttable : r.Cuttable fact) :
    Unpad.plan node r requested log ≠ .ok none log' := by
  intro planned
  obtain ⟨nonneg, batch, channels, lengths, shape⟩ := cuttable
  obtain ⟨rank, told⟩ := Unpad.plan_eq_none planned padsKnown uneven nonneg
  exact Unpad.targetLengths_ne_none facts shape told

/-- A node that no rule has a patch for is no match. -/
theorem not_matches_of_declines (there : g.nodes[node.id]? = some node)
    (declines : ∀ rule ∈ RuleSet.rulesFor p.rules node.op, rule.Declines g node) :
    ¬ g.Matches node p := by
  rintro ⟨σ, signed, takes, r, resolves, padsKnown, uneven, cuttable⟩
  have declines {rule : Rule} (mem : rule ∈ p.rules) (type : rule.type = σ.op.type) :
      rule.Declines g node := by
    refine declines rule (RuleSet.mem_rulesFor.2 ⟨mem, ?_⟩)
    rw [type, signed.op]
  have op := signed.op
  have facts := signed.facts
  have operands {facts : List Fact} (known : g.inputFacts node.id = .ok facts) :
      facts = σ.operands := signed.operands_eq there known
  have inputs := signed.operands
  obtain ⟨name, op', operands', fact⟩ := σ
  dsimp only at *
  cases resolves with
  | @conv kind w _ _ resolves =>
    obtain ⟨name, mem⟩ := forwardRule_mem takes
    obtain ⟨log, log', run⟩ := declines mem rfl
    simp only [Unpad.forwardRule, op, if_true] at run
    obtain ⟨data, filters, pair⟩ : ∃ data filters, node.inputs = [data, filters] := by
      obtain ⟨_, _, rfl⟩ := Conv.operands_of_resolveForward resolves
      obtain ⟨data, _, -, rest, pair⟩ := List.forall₂_cons_right_iff.1 inputs
      obtain ⟨filters, _, -, nothing, rfl⟩ := List.forall₂_cons_right_iff.1 rest
      cases List.forall₂_nil_right_iff.1 nothing
      exact ⟨data, filters, pair⟩
    obtain ⟨facts, r', known, resolves', even⟩ := Unpad.forward_eq_none pair run
    cases operands known
    cases Except.ok.inj (resolves.symm.trans resolves')
    exact even ⟨padsKnown, uneven⟩
  | @deconv kind w takesOutputShape _ _ resolves =>
    obtain ⟨name, mem⟩ := deconvRule_mem takes
    obtain ⟨log, log', run⟩ := declines mem rfl
    simp only [Unpad.deconvRule, op, if_true] at run
    obtain ⟨facts, r', _, known, resolves', planned⟩ := Unpad.deconv_eq_none run
    cases operands known
    cases Except.ok.inj (resolves.symm.trans resolves')
    exact plan_ne_none signed.facts padsKnown uneven (cuttable rfl) planned
  | @fusedDeconv w takesOutputShape built _ _ resolves =>
    obtain ⟨name, mem⟩ := fusedRule_mem takes
    obtain ⟨log, log', run⟩ := declines mem rfl
    simp only [Unpad.fusedRule, op] at run
    obtain ⟨facts, r', _, known, resolves', planned⟩ := Unpad.fused_eq_none run
    cases operands known
    cases Except.ok.inj (resolves.symm.trans resolves')
    exact plan_ne_none signed.facts padsKnown uneven (cuttable rfl) planned

end Pass

end Matches

end EvenPad
