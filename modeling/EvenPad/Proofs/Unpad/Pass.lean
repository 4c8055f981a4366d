import EvenPad.Proofs.Graph.Compact
import EvenPad.Proofs.Patch.Live
import EvenPad.Proofs.Patch.Touched
import EvenPad.Proofs.Unpad.Match

/-!
Runs of a pass. A patch of a pass `Rewrites` a graph: a match is replaced, and nothing that comes
in is a match. Main statement: `Pass.run_induction`, a run is a sequence of such steps, between
which it passes over live nodes only if they are no matches.
-/

namespace EvenPad

/-- Whether a node is a match depends on its signature only. -/
theorem Graph.matches_congr {g g' : Graph} {n n' : Node} {σ : Signature} {p : Pass}
    (signed : g.Signed n σ) (signed' : g'.Signed n' σ) : g'.Matches n' p ↔ g.Matches n p := by
  constructor
  · rintro ⟨τ, other, isMatch⟩
    obtain rfl := other.unique signed'
    exact ⟨τ, signed, isMatch⟩
  · rintro ⟨τ, other, isMatch⟩
    obtain rfl := other.unique signed
    exact ⟨τ, signed', isMatch⟩

/-- The pass takes the operator of a match. -/
theorem Pass.takes_of_matches {p : Pass} {g : Graph} {n : Node} (isMatch : g.Matches n p) :
    p.takes n.op = true := by
  obtain ⟨σ, signed, takes, -⟩ := isMatch
  rw [signed.op, takes]

/-- No pass takes sources. -/
theorem Pass.isSource_of_takes {p : Pass} {op : Op} (takes : p.takes op = true) :
    op.isSource = false := by
  cases op <;> simp [Op.isSource, Pass.takes] at takes ⊢

/-- A node with a settled window is no match. -/
theorem Graph.not_matches_of_settled {p : Pass} {g : Graph} {n : Node} (settled : n.op.Settled) :
    ¬ g.Matches n p := by
  rintro ⟨σ, signed, isMatch⟩
  rw [signed.op] at settled
  exact Signature.not_matches_of_settled settled isMatch

/-- A step of a pass: a match has been replaced. The windows of what came in are settled. -/
structure Pass.Rewrites (p : Pass) (g : Graph) (node : Node) (nodes : List Node) (k : Nat)
    (g' : Graph) : Prop extends g.Rewritten node nodes k g' where
  isMatch : g.Matches node p
  settled : ∀ n ∈ nodes, n.op.Settled

namespace Pass.Rewrites

variable {p q : Pass} {g g' : Graph} {node n n' : Node} {nodes : List Node} {k id j : Nat}
  {σ : Signature} (rewrites : p.Rewrites g node nodes k g')
include rewrites

/-- Nodes that are kept have the signatures that they had. -/
theorem signed (there : g.nodes[id]? = some n) (there' : g'.nodes[id]? = some n')
    (signed : g.Signed n σ) : g'.Signed n' σ := by
  obtain ⟨keeps, inputs⟩ := rewrites.toGrown.keeps there there'
  exact rewrites.toRewritten.signed signed keeps inputs

/-- They are matches if they were. -/
theorem matches_iff (wf : g.WellFormed) (there : g.nodes[id]? = some n)
    (there' : g'.nodes[id]? = some n') : g'.Matches n' q ↔ g.Matches n q := by
  obtain ⟨σ, signed, -⟩ := wf.signed there
  exact Graph.matches_congr signed (rewrites.signed there there' signed)

/-- Nodes that came in are no matches. -/
theorem not_matches_of_came (there : g'.nodes[g.size + j]? = some n) : ¬ g'.Matches n q := by
  have settled : n.bare.op.Settled := rewrites.settled _ (rewrites.toGrown.mem_nodes there)
  exact Graph.not_matches_of_settled settled

end Pass.Rewrites

namespace Graph.Compacts

variable {p : Pass} {g g' : Graph} {n m : Node} {w : Wires} {σ : Signature} {id : Nat}
  (compacts : g.Compacts w g') (copies : n.Copies w m)
include compacts copies

/-- What is carried over has the signature that it had. -/
theorem signed (signed : g.Signed n σ) : g'.Signed m σ where
  name := copies.name.trans signed.name
  op := copies.op.trans signed.op
  operands := compacts.operands copies signed.operands
  facts := copies.facts.trans signed.facts

/-- It is a match if it was. -/
theorem matches_iff (wf : g.WellFormed) (there : g.nodes[id]? = some n) :
    g'.Matches m p ↔ g.Matches n p := by
  obtain ⟨σ, signed, -⟩ := wf.signed there
  exact matches_congr signed (compacts.signed copies signed)

end Graph.Compacts

namespace Pass

variable {p : Pass} {rule : Rule} {g g' : Graph} {node n : Node}
  {nodes : List Node} {patch : Patch} {touched : List Nat} {k id : Nat}

/-! ## Steps -/

/-- The patches of a pass are steps that put the parts of a signature in the place of a node. -/
theorem replaces (wf : g.WellFormed) (there : g.nodes[node.id]? = some node)
    (mem : rule ∈ p.rules) (proposes : rule.Proposes g node patch)
    (apply : patch.apply g = .ok touched g') :
    ∃ σ parts, g.Signed node σ ∧ Unpad.Replaces σ node.provenance parts ∧
      p.Rewrites g node (Part.nodes g.size node.inputs parts) (parts.length - 1) g' := by
  have isMatch := matches_of_proposes wf there mem proposes
  have settled {σ : Signature} {parts : List Part}
      (replaces : Unpad.Replaces σ node.provenance parts) :
      ∀ n ∈ Part.nodes g.size node.inputs parts, n.op.Settled := by
    intro n mem
    obtain ⟨part, among, op⟩ := Part.op_of_mem_nodes mem
    rw [op]
    exact replaces.settled part among
  rcases (proposes_cases mem proposes).2 with ⟨kind, w, log, log', op, run⟩ |
    ⟨kind, w, takesOutputShape, log, log', op, run⟩ |
    ⟨w, takesOutputShape, built, log, log', op, run⟩
  · obtain ⟨σ, parts, signed, replaces, rewritten⟩ := Unpad.forward_rewrites wf there op run apply
    exact ⟨σ, parts, signed, replaces, rewritten, isMatch, settled replaces⟩
  · obtain ⟨σ, parts, signed, replaces, rewritten⟩ := Unpad.deconv_rewrites wf there op run apply
    exact ⟨σ, parts, signed, replaces, rewritten, isMatch, settled replaces⟩
  · obtain ⟨σ, parts, signed, replaces, rewritten⟩ := Unpad.fused_rewrites wf there op run apply
    exact ⟨σ, parts, signed, replaces, rewritten, isMatch, settled replaces⟩

/-- There is a rule for each operator that a pass takes. -/
theorem concerns_of_takes (there : g.nodes[id]? = some n) (takes : p.takes n.op = true) :
    RuleSet.concerns p.rules g id = .ok true := by
  obtain ⟨rule, mem⟩ : ∃ rule, rule ∈ RuleSet.rulesFor p.rules n.op := by
    generalize n.op = op at takes
    cases op with
    | conv kind w =>
      obtain ⟨name, mem⟩ := forwardRule_mem takes
      exact ⟨_, RuleSet.mem_rulesFor.2 ⟨mem, rfl⟩⟩
    | deconv kind w takesOutputShape =>
      obtain ⟨name, mem⟩ := deconvRule_mem takes
      exact ⟨_, RuleSet.mem_rulesFor.2 ⟨mem, rfl⟩⟩
    | fusedDeconv w takesOutputShape built =>
      obtain ⟨name, mem⟩ := fusedRule_mem takes
      exact ⟨_, RuleSet.mem_rulesFor.2 ⟨mem, rfl⟩⟩
    | _ => cases p <;> simp [Pass.takes] at takes
  rw [RuleSet.concerns, RuleSet.nodeAt_eq_ok.2 there]
  cases rules : RuleSet.rulesFor p.rules n.op with
  | nil =>
    rw [rules] at mem
    simp at mem
  | cons => simp [pure, Except.pure, bind, Except.bind, rules]

/-- They are drafted with a node that takes over the output. -/
theorem draft_of_proposes (mem : rule ∈ p.rules) (proposes : rule.Proposes g node patch) :
    ∃ (d : Draft) (k : Nat) (taker : Node), d.Describes g patch ∧ d.nodes[k]? = some taker ∧
      d.shunts = [(⟨node.id, 0⟩, d.wire k)] := by
  rcases (proposes_cases mem proposes).2 with ⟨kind, w, log, log', op, run⟩ |
    ⟨kind, w, takesOutputShape, log, log', op, run⟩ |
    ⟨w, takesOutputShape, built, log, log', op, run⟩
  · obtain ⟨_, _, _, _, _, -, -, -, -, -, -, run⟩ := Unpad.forward_eq_some run
    obtain ⟨_, _, _, _, _, _, _, _, -, -, -, -, -, described⟩ := Unpad.padAhead_eq_ok run
    exact ⟨_, 4, _, described, rfl, rfl⟩
  · obtain ⟨_, _, _, _, _, -, -, -, -, run⟩ := Unpad.deconv_eq_some run
    obtain ⟨_, _, _, _, _, _, _, _, _, _, -, -, -, -, -, -, -, described⟩ :=
      Unpad.cropDeconv_eq_ok run
    exact ⟨_, _, _, described, Unpad.cutBack_getElem?_last (by simp [Unpad.unpaddedDeconv]), rfl⟩
  · obtain ⟨_, _, _, _, _, -, -, -, -, run⟩ := Unpad.fused_eq_some run
    obtain ⟨_, _, _, _, _, _, _, _, _, _, _, _, _, -, -, -, -, -, -, -, -, -, described⟩ :=
      Unpad.cropFused_eq_ok run
    exact ⟨_, _, _, described,
      Unpad.cutBack_getElem?_last (by cases takesOutputShape <;> simp [Unpad.unpaddedFused]), rfl⟩

/-- A step of the queue that applies a patch replaces the node in front. The readers of that node
that the pass takes are in the queue afterwards, and nothing has joined it but readers and nodes
that came in. -/
structure Applies (p : Pass) (g : Graph) (node : Node) (σ : Signature) (parts : List Part)
    (rest queue : List Nat) (g' : Graph) : Prop
    extends p.Rewrites g node (Part.nodes g.size node.inputs parts) (parts.length - 1) g' where
  signature : g.Signed node σ
  replaces : Unpad.Replaces σ node.provenance parts
  wanted : g.Wanted node.id
  waiting : ∃ more, queue = rest ++ more
  readers : ∀ {id : Nat} {n : Node}, g.nodes[id]? = some n → g.Reads id node.id →
    p.takes n.op = true → id ∈ queue
  joined : ∀ id ∈ queue, id ∈ rest ∨ g.size ≤ id ∨ g.Reads id node.id

theorem step_applies {s s' : LoggedGraph} {rest queue : List Nat} (wf : s.graph.WellFormed)
    (step : RuleSet.step p.rules id s = .ok (some touched) s')
    (requeued : RuleSet.requeue p.rules touched rest s' = .ok queue s') :
    ∃ node σ parts, node.id = id ∧ p.Applies s.graph node σ parts rest queue s'.graph := by
  obtain ⟨node, rule, patch, there, live, mem, -, proposes, apply⟩ := RuleSet.step_eq_some step
  have there' : s.graph.nodes[node.id]? = some node := by rwa [wf.id_eq there]
  have wanted := (wf.isBypassed_eq_false there).1 live
  rw [← wf.id_eq there] at wanted
  obtain ⟨σ, parts, signed, replaces, rewrites⟩ := replaces wf there' mem proposes apply
  obtain ⟨d, k, _, described, -, shunts⟩ := draft_of_proposes mem proposes
  have isTouched {i : Nat} : i ∈ touched ↔ _ :=
    Patch.mem_touched wf.linked (described.shunts.trans shunts) apply
  obtain ⟨-, ⟨more, rfl, among⟩, joined⟩ := RuleSet.requeue_eq_ok requeued
  refine ⟨node, σ, parts, wf.id_eq there, rewrites, signed, replaces, wanted,
    ⟨more, rfl⟩, ?_, ?_⟩
  · intro i n here read takes
    obtain ⟨n', here', keeps, -⟩ := rewrites.toGrown.kept here
    exact joined i (isTouched.2 (.inr (wf.reads_iff.1 read)))
      (concerns_of_takes here' (keeps.op ▸ takes))
  · intro i mem
    rcases List.mem_append.1 mem with mem | mem
    · exact .inl mem
    · rcases isTouched.1 (among i mem) with ⟨came, -⟩ | read
      · exact .inr (.inl came)
      · exact .inr (.inr (wf.reads_iff.2 read))

/-- A step of the queue that applies no patch passes over a node that is bypassed or no match. -/
theorem step_passes {s s' : LoggedGraph} (wf : s.graph.WellFormed)
    (run : RuleSet.step p.rules id s = .ok none s') :
    s'.graph = s.graph ∧
      ∀ n, s.graph.nodes[id]? = some n → s.graph.Wanted id → ¬ s.graph.Matches n p := by
  obtain ⟨same, node, there, outcome⟩ := RuleSet.step_eq_none run
  refine ⟨same, fun n here wanted => ?_⟩
  cases there.symm.trans here
  rcases outcome with bypassed | declines
  · rw [(wf.isBypassed_eq_false there).2 wanted] at bypassed
    simp at bypassed
  · have id_eq := wf.id_eq there
    subst id_eq
    exact not_matches_of_declines there declines

/-- Every step of the queue keeps what is kept where a node is passed over that is bypassed or no
match, and where a match is replaced. -/
theorem invariant (motive : Nat → Graph → List Nat → Prop)
    (passed : ∀ {applied g id rest}, g.WellFormed → motive applied g (id :: rest) →
      (∀ n, g.nodes[id]? = some n → g.Wanted id → ¬ g.Matches n p) → motive applied g rest)
    (patched : ∀ {applied g g' node σ parts rest queue}, g.WellFormed →
      motive applied g (node.id :: rest) → p.Applies g node σ parts rest queue g' →
      motive (applied + 1) g' queue) :
    RuleSet.Invariant p.rules fun applied g queue => g.WellFormed ∧ motive applied g queue where
  passed := by
    rintro _ s s' id rest ⟨wf, holds⟩ step
    obtain ⟨same, noMatch⟩ := step_passes wf step
    rw [same]
    exact ⟨wf, passed wf holds noMatch⟩
  patched := by
    rintro _ s s' id rest touched queue ⟨wf, holds⟩ step requeued
    obtain ⟨node, σ, parts, rfl, applies⟩ := step_applies wf step requeued
    exact ⟨applies.wellFormed wf, patched wf holds applies⟩

/-! ## Runs -/

/-- A run is a sequence of steps, after which the graph is compacted if there were any. All live
nodes that the pass takes are queued first. A node that is passed over is dead or no match, and
without a budget the run goes on until the queue is empty. -/
theorem run_induction {s s' : LoggedGraph} {budget : Option Nat} {applied : Nat}
    (motive : Nat → Graph → List Nat → Prop) (wf : s.graph.WellFormed)
    (start : ∀ {queue}, (∀ id n, s.graph.nodes[id]? = some n → s.graph.Live id →
      p.takes n.op = true → id ∈ queue) → motive 0 s.graph queue)
    (passed : ∀ {applied g id rest}, g.WellFormed → motive applied g (id :: rest) →
      (∀ n, g.nodes[id]? = some n → g.Live id → ¬ g.Matches n p) → motive applied g rest)
    (patched : ∀ {applied g g' node nodes k rest more}, g.WellFormed →
      motive applied g (node.id :: rest) → p.Rewrites g node nodes k g' →
      motive (applied + 1) g' (rest ++ more))
    (run : p.run budget s = .ok applied s') :
    ∃ g rest, g.WellFormed ∧ motive applied g rest ∧ (budget = none → rest = []) ∧
      if 0 < applied then ∃ w, g.Compacts w s'.graph else s'.graph = g := by
  simp only [Pass.run, Edit.within_eq_ok] at run
  have keeps : RuleSet.Invariant p.rules fun applied g queue => g.WellFormed ∧
      motive applied g queue :=
    invariant motive (fun wf holds noMatch => passed wf holds fun n there live =>
      noMatch n there live.wanted) fun wf holds applies => by
        obtain ⟨more, rfl⟩ := applies.waiting
        exact patched wf holds applies.toRewrites
  obtain ⟨g, rest, ⟨wf', holds⟩, finished, ended⟩ := RuleSet.run_invariant keeps
    (fun ordered concerned => ⟨wf, start fun id n there live takes => by
      rw [Checked.mem_filterM concerned]
      exact ⟨(wf.mem_evalOrder ordered).2 live, concerns_of_takes there takes⟩⟩) run
  refine ⟨g, rest, wf', holds, fun none => finished.resolve_right (by simp [none]), ?_⟩
  split at ended
  · next some =>
    obtain ⟨log, log', compacted⟩ := ended
    rw [if_pos some]
    exact wf'.compacts compacted
  · next none =>
    rw [if_neg none]
    exact ended

/-! ## Runs on a graph that is built -/

/-- How many patches the pass applies to what is built, if it succeeds. -/
def patchCount (p : Pass) (build : Edit Graph Unit) : Option Nat :=
  match build .empty with
  | .ok _ g => match p.run none ⟨g, []⟩ with
    | .ok applied _ => some applied
    | .error _ _ => none
  | .error _ _ => none

theorem run_of_patchCount {build : Edit Graph Unit} {u : Unit} {applied : Nat}
    (made : build .empty = .ok u g) (counted : p.patchCount build = some applied) :
    ∃ s', p.run none ⟨g, []⟩ = .ok applied s' := by
  rw [patchCount, made] at counted
  cases run : p.run none ⟨g, []⟩ with
  | error => simp [run] at counted
  | ok k s' =>
    simp only [run, Option.some.injEq] at counted
    subst counted
    exact ⟨s', rfl⟩

/-- What is told of the graph after the pass has run on what is built, if both succeed. -/
def askAfter {α : Type} (p : Pass) (build : Edit Graph Unit) (ask : Graph → α) : Option α :=
  match build .empty with
  | .ok _ g => match p.run none ⟨g, []⟩ with
    | .ok _ s' => some (ask s'.graph)
    | .error _ _ => none
  | .error _ _ => none

theorem run_of_askAfter {α : Type} {build : Edit Graph Unit} {ask : Graph → α} {u : Unit} {a : α}
    (made : build .empty = .ok u g) (told : p.askAfter build ask = some a) :
    ∃ k s', p.run none ⟨g, []⟩ = .ok k s' ∧ ask s'.graph = a := by
  rw [askAfter, made] at told
  cases run : p.run none ⟨g, []⟩ with
  | error => simp [run] at told
  | ok k s' =>
    simp only [run, Option.some.injEq] at told
    exact ⟨k, s', rfl, told⟩

end Pass

end EvenPad
