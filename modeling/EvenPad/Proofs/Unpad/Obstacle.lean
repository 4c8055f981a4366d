import EvenPad.Proofs.Graph.Compact.Progress
import EvenPad.Proofs.Unpad.Confluence
import EvenPad.Proofs.Unpad.Expand.Tally
import EvenPad.Proofs.Unpad.Progress

/-!
Nodes that a pass fails on. They are the matches that there are no parts for (`Pass.failsAt_iff`).
Where all that is left is live, a run succeeds exactly if there is none (`Pass.run_ok_iff`). Main
statement: `Graph.SettlesTo.run_ok_iff`, if other passes have run before, the pass succeeds
exactly if the first graph has no such node that the outputs depend on though the matches of those
passes are not told their output shapes.
-/

namespace EvenPad

/-- A rule of the pass fails on the node at the position. -/
def Pass.FailsAt (p : Pass) (g : Graph) (id : Nat) : Prop :=
  ∃ n rule log f log', g.nodes[id]? = some n ∧ rule ∈ p.rules ∧
    rule.propose g n log = .error f log'

/-- The node is a match of one of the passes. -/
def Graph.MatchesAny (g : Graph) (passes : List Pass) (n : Node) : Prop :=
  ∃ p ∈ passes, g.Matches n p

/-- The pass fails on a node that the outputs depend on, and not only for the output shapes of
matches of the passes before it. -/
def Graph.Obstructs (g : Graph) (before : List Pass) (p : Pass) : Prop :=
  ∃ id, p.FailsAt g id ∧ g.Needed (g.MatchesAny before) id

namespace Pass

variable {p : Pass} {g : Graph} {s s' : LoggedGraph} {touched : List Nat} {id : Nat}

theorem failsAt_iff (wf : g.WellFormed) : p.FailsAt g id ↔
      ∃ n σ, g.nodes[id]? = some n ∧ g.Signed n σ ∧
    σ.Matches p ∧ ¬ ∃ parts, Unpad.Replaces σ n.provenance parts := by
  constructor
  · rintro ⟨n, rule, log, f, log', there, mem, failed⟩
    obtain ⟨σ, signed, inferred⟩ := wf.signed there
    obtain rfl := wf.id_eq there
    by_contra without
    have parts : σ.Matches p → ∃ parts, Unpad.Replaces σ n.provenance parts := fun isMatch =>
      Classical.not_not.1 fun none => without ⟨n, σ, there, signed, isMatch, none⟩
    obtain ⟨outcome, log'', answered⟩ : ∃ outcome log'', rule.propose g n log =
        .ok outcome log'' :=
      propose_ok there signed inferred parts mem
    rw [failed] at answered
    cases answered
  · rintro ⟨n, σ, there, signed, isMatch, none⟩
    by_contra answers
    obtain rfl := wf.id_eq there
    refine not_matches_of_declines there (fun rule among => ?_) ⟨σ, signed, isMatch⟩
    have mem := (RuleSet.mem_rulesFor.1 among).1
    -- a rule that neither fails nor declines has a patch, which would tell the parts
    cases asked : rule.propose g n [] with
    | error f log' => exact absurd ⟨n, rule, [], f, log', there, mem, asked⟩ answers
    | ok outcome log' =>
      cases outcome with
      | none => exact ⟨[], log', asked⟩
      | some patch =>
        have proposes : rule.Proposes g n patch := ⟨[], log', asked⟩
        obtain ⟨touched, g', applied⟩ := apply_ok wf.linked there signed mem proposes
        obtain ⟨τ, parts, signed', replaces, -⟩ := Pass.replaces wf there mem proposes applied
        cases signed.unique signed'
        exact absurd ⟨parts, replaces⟩ none

theorem FailsAt.matchAt (fails : p.FailsAt g id) (wf : g.WellFormed) : p.MatchAt g id := by
  obtain ⟨n, σ, there, signed, isMatch, -⟩ := (failsAt_iff wf).1 fails
  exact ⟨n, there, σ, signed, isMatch⟩

/-- What a pass fails on is not replaced. -/
theorem FailsAt.fresh {h : Graph} {passes : List Pass}
    {done : Nat → Option (List Part)} {spot : Nat → Spot} (fails : p.FailsAt g id)
    (wf : g.WellFormed) (expands : g.Expands passes done spot h) : done id = none := by
  obtain ⟨n, σ, there, signed, -, without⟩ := (failsAt_iff wf).1 fails
  rw [Option.eq_none_iff_forall_ne_some]
  intro parts replacing
  obtain ⟨n', τ, there', signed', -, replaces⟩ := expands.replaced replacing
  cases there.symm.trans there'
  cases signed.unique signed'
  exact without ⟨parts, replaces⟩

/-! ## Runs -/

/-- What a patch touches is in the table. -/
theorem lt_size_of_touched (wf : s.graph.WellFormed)
    (step : RuleSet.step p.rules id s = .ok (some touched) s') :
    s.graph.size ≤ s'.graph.size ∧ ∀ i ∈ touched, i < s'.graph.size := by
  obtain ⟨node, rule, patch, there, -, mem, -, proposes, apply⟩ := RuleSet.step_eq_some step
  obtain ⟨d, k, _, described, -, shunts⟩ := draft_of_proposes mem proposes
  have grows : s.graph.size ≤ s'.graph.size := by
    rw [Patch.size_of_apply wf.linked.symmetric apply]
    exact Nat.le_add_right _ _
  refine ⟨grows, fun i among => ?_⟩
  rcases (Patch.mem_touched wf.linked (described.shunts.trans shunts) apply).1 among with
    ⟨-, came⟩ | ⟨n, there, -⟩
  · exact came
  · exact Nat.lt_of_lt_of_le (List.getElem?_eq_some_iff.1 there).1 grows

/-- All that is queued is in the table, at any time. -/
theorem queued_invariant {motive : Nat → Graph → List Nat → Prop}
    (keeps : RuleSet.Invariant p.rules fun applied g queue => g.WellFormed ∧
      motive applied g queue) :
    RuleSet.Invariant p.rules fun applied g queue =>
      (g.WellFormed ∧ motive applied g queue) ∧ ∀ id ∈ queue, id < g.size where
  passed := by
    rintro applied s s' id rest ⟨holds, queued⟩ step
    refine ⟨keeps.passed holds step, fun i mem => ?_⟩
    rw [(RuleSet.step_eq_none step).1]
    exact queued i (List.mem_cons_of_mem _ mem)
  patched := by
    rintro applied s s' id rest touched queue ⟨holds, queued⟩ step requeued
    obtain ⟨grows, there⟩ := lt_size_of_touched holds.1 step
    obtain ⟨-, ⟨more, rfl, among⟩, -⟩ := RuleSet.requeue_eq_ok requeued
    refine ⟨keeps.patched holds step requeued, fun i mem => ?_⟩
    rcases List.mem_append.1 mem with waits | joined
    · exact Nat.lt_of_lt_of_le (queued i (List.mem_cons_of_mem _ waits)) grows
    · exact there i (among i joined)

/-- A run without a budget replaces every live match, so it has parts for it. -/
theorem not_failsAt_of_run {k : Nat} (wf : s.graph.WellFormed) (acyclic : s.graph.Acyclic)
    (run : p.run none s = .ok k s') (live : s.graph.Live id) : ¬ p.FailsAt s.graph id := by
  intro fails
  have start : s.graph.Reduced [p] ∅ s.graph :=
    ⟨_, _, wf.expands acyclic, by simp [Graph.gone], .inl ⟨rfl, rfl, rfl⟩⟩
  obtain ⟨away, ⟨done, spot, expands, rfl, -⟩, -, -, -, finished⟩ :=
    start.run wf (List.mem_singleton_self p) run
  have replaced : id ∈ Graph.gone done := by
    rw [finished.resolve_left (by simp)]
    exact .inr (.inr ⟨rfl, .live (fails.matchAt wf) live⟩)
  exact replaced (fails.fresh wf expands)

/-- If all that is left is live, a run comes across no other matches, and succeeds if there are
parts for them. -/
theorem run_ok_iff (wf : s.graph.WellFormed) (acyclic : s.graph.Acyclic)
    (trimmed : s.graph.Trimmed) :
    (∃ k s', p.run none s = .ok k s') ↔ ∀ id, s.graph.Live id → ¬ p.FailsAt s.graph id := by
  refine ⟨fun ⟨k, s', run⟩ id live => not_failsAt_of_run wf acyclic run live, fun passes => ?_⟩
  obtain ⟨order, ordered⟩ := wf.evalOrder_ok acyclic
  obtain ⟨k, s', run⟩ := RuleSet.run_ok (r := p.rules)
    (queued_invariant (wf.expandsTo_invariant (List.mem_singleton_self p)))
    (by
      rintro applied t id rest ⟨⟨wf', done, spot, expands⟩, queued⟩
      have there := List.getElem?_eq_getElem (queued id List.mem_cons_self)
      refine step_ok wf' there fun _ σ signed isMatch => ?_
      -- a match was one from the start, with the same signature and notes, and live
      obtain ⟨i, n, τ, -, there', signed', signed'', isMatch', notes⟩ :=
        expands.kept_of_matches wf there ⟨σ, signed, isMatch⟩
      cases signed.unique signed''
      have live : s.graph.Live i := (trimmed there').resolve_right (by
        simp [isSource_of_takes (takes_of_matches ⟨σ, signed', isMatch⟩)])
      rw [notes]
      exact Classical.not_not.1 fun none =>
        passes i live ((failsAt_iff wf).2 ⟨n, σ, there', signed', isMatch, none⟩))
    (by
      rintro applied t t' id rest touched ⟨⟨wf', -⟩, -⟩ step
      exact (lt_size_of_touched wf' step).2)
    (s.graph.size + 1) wf ordered
    (fun concerned => ⟨⟨wf, _, _, wf.expands acyclic⟩, fun id mem =>
      wf.lt_size_of_live (live_of_queued wf ordered concerned mem)⟩)
    (by
      rintro applied h queue ⟨⟨wf', _, _, expands⟩, -⟩ - log
      exact wf'.compacted_ok expands.acyclic log)
  refine ⟨k, s', ?_⟩
  rw [run_ends wf acyclic (Nat.lt_succ_self _), Pass.run, Edit.within_eq_ok]
  exact run

/-- What is settled stays so when a pass replaces a match. -/
theorem Settled.rewritten {q : Pass} {g' : Graph} {node : Node} {nodes : List Node} {k : Nat}
    (settled : q.Settled g) (wf : g.WellFormed)
    (rewrites : p.Rewrites g node nodes k g') : q.Settled g' := by
  rintro id live ⟨n', there', isMatch⟩
  rcases rewrites.kept_or_came there' with ⟨n, there, -⟩ | ⟨j, rfl, -⟩
  · have before := (rewrites.live_of_live wf live).1 (List.getElem?_eq_some_iff.1 there).1
    exact settled before ⟨n, there, (rewrites.matches_iff wf there there').1 isMatch⟩
  · exact rewrites.not_matches_of_came there' isMatch

theorem Settled.run {q : Pass} {budget : Option Nat} {k : Nat} (settled : q.Settled s.graph)
    (wf : s.graph.WellFormed) (run : p.run budget s = .ok k s') : q.Settled s'.graph := by
  rw [Pass.run, Edit.within_eq_ok] at run
  have keeps := p.invariant (fun _ h _ => q.Settled h) (fun _ settled _ => settled)
    fun wf settled applies => settled.rewritten wf applies.toRewrites
  obtain ⟨h, rest, ⟨wf', settled'⟩, -, ended⟩ :=
    RuleSet.run_invariant keeps (fun _ _ => ⟨wf, settled⟩) run
  split at ended
  · obtain ⟨log, log', compacted⟩ := ended
    obtain ⟨w, compacts⟩ := wf'.compacts compacted
    exact settled'.compacted wf' compacts
  · rw [ended]
    exact settled'

/-- A run without a budget leaves no match of the pass that the outputs depend on. -/
theorem settled_of_run {k : Nat} (wf : s.graph.WellFormed) (acyclic : s.graph.Acyclic)
    (run : p.run none s = .ok k s') : p.Settled s'.graph := by
  obtain ⟨done, g, -, wf', work, ended⟩ := run_work wf acyclic run
  split at ended
  · obtain ⟨w, compacts⟩ := ended
    exact work.settled.compacted wf' compacts
  · rw [ended]
    exact work.settled

end Pass

namespace Graph

variable {g h : Graph} {before : List Pass} {done : Nat → Option (List Part)}
  {spot : Nat → Spot} {p : Pass} {s s' : LoggedGraph} {id i k : Nat} {log log' : Log}

/-! ## After other passes -/

namespace Expands

variable (expands : g.Expands before done spot h) (wf : g.WellFormed)
include expands wf

/-- A pass fails on what it failed on, if that is needed still. -/
theorem exists_failsAt_iff :
    (∃ id, h.Live id ∧ p.FailsAt h id) ↔
      ∃ i, p.FailsAt g i ∧ g.Needed (fun n => n.id ∈ gone done) i := by
  constructor
  · rintro ⟨id, live, fails⟩
    obtain ⟨m, σ, here, signed, isMatch, none⟩ := (Pass.failsAt_iff expands.wf).1 fails
    obtain ⟨i, n, τ, stands, there, signed₀, signed', -, notes⟩ :=
      expands.kept_of_matches wf here ⟨σ, signed, isMatch⟩
    cases signed.unique signed'
    rw [notes] at none
    exact ⟨i, (Pass.failsAt_iff wf).2 ⟨n, σ, there, signed₀, isMatch, none⟩,
      ((expands.live_kept_iff wf (expands.wf.lt_size_of_live live) stands).1 live).2⟩
  · rintro ⟨i, fails, needed⟩
    obtain ⟨n, σ, there, signed, isMatch, none⟩ := (Pass.failsAt_iff wf).1 fails
    obtain ⟨id, live, stands⟩ := expands.live_of_needed wf needed
    rw [Spot.settle, fails.fresh wf expands] at stands
    have here := List.getElem?_eq_getElem (expands.wf.lt_size_of_live live)
    have signed' := expands.signed here stands there signed
    obtain ⟨i', n', -, stands', there', -, -, -, notes⟩ :=
      expands.kept_of_matches wf here ⟨σ, signed', isMatch⟩
    cases stands.symm.trans stands'
    cases there.symm.trans there'
    rw [← notes] at none
    exact ⟨id, live, (Pass.failsAt_iff expands.wf).2 ⟨_, σ, here, signed', isMatch, none⟩⟩

/-- Where the passes are settled, a match of theirs is gone if it is come across, so what is
needed is told without what is gone. -/
theorem needed_iff (settled : ∀ p ∈ before, p.Settled h) :
    g.Needed (fun n => n.id ∈ gone done) i ↔ g.Needed (g.MatchesAny before) i := by
  constructor
  · intro needed
    induction needed with
    | answer mem => exact .answer mem
    | read needed there read needs ih =>
      refine .read ih there read ?_
      rintro ⟨p, mem, isMatch⟩
      refine needs (mem_gone.2 ?_)
      rw [wf.id_eq there]
      exact (expands.settled_iff wf).1 (settled p mem) _ ⟨_, there, isMatch⟩ needed
  · intro needed
    refine needed.mono fun {id n} there replaced => ?_
    rw [wf.id_eq there] at replaced
    obtain ⟨parts, replacing⟩ := Option.ne_none_iff_exists'.1 replaced
    obtain ⟨n', σ, there', signed, ⟨p, mem, isMatch⟩, -⟩ := expands.replaced replacing
    cases there.symm.trans there'
    exact ⟨p, mem, σ, signed, isMatch⟩

end Expands

theorem ExpandsTo.mono {passes : List Pass} (expands : g.ExpandsTo before h)
    (among : before ⊆ passes) :
    g.ExpandsTo passes h := by
  obtain ⟨done, spot, expands⟩ := expands
  refine ⟨done, spot, { expands with replaced := fun replacing => ?_ }⟩
  obtain ⟨n, σ, there, signed, ⟨p, mem, isMatch⟩, replaces⟩ := expands.replaced replacing
  exact ⟨n, σ, there, signed, ⟨p, among mem, isMatch⟩, replaces⟩

/-- Passes have made `h` of the graph and are settled on it, and all that is left is live or a
source. -/
structure SettlesTo (g : Graph) (before : List Pass) (h : Graph) : Prop where
  expands : g.ExpandsTo before h
  trimmed : h.Trimmed
  settled : ∀ p ∈ before, p.Settled h

namespace SettlesTo

theorem start (wf : g.WellFormed) (acyclic : g.Acyclic)
    (compacted : g.compacted log = .ok h log') :
    g.SettlesTo [] h := by
  obtain ⟨w, compacts⟩ := wf.compacts compacted
  exact ⟨⟨_, (wf.expands acyclic).compacted compacts⟩, compacts.trimmed wf,
    fun _ mem => absurd mem List.not_mem_nil⟩

variable (settles : g.SettlesTo before s.graph) (wf : g.WellFormed)
include settles wf

/-- Another pass succeeds exactly if nothing obstructs it. -/
theorem run_ok_iff : (∃ k s', p.run none s = .ok k s') ↔ ¬ g.Obstructs before p := by
  obtain ⟨⟨done, spot, expands⟩, trimmed, settled⟩ := settles
  have obstructs : g.Obstructs before p ↔ ∃ id, s.graph.Live id ∧ p.FailsAt s.graph id := by
    rw [expands.exists_failsAt_iff wf]
    exact exists_congr fun i => and_congr_right fun _ => (expands.needed_iff wf settled).symm
  rw [Pass.run_ok_iff expands.wf expands.acyclic trimmed, obstructs]
  simp

/-- Then it is settled too, and those before it still are. -/
theorem run (run : p.run none s = .ok k s') : g.SettlesTo (before ++ [p]) s'.graph := by
  obtain ⟨expands, trimmed, settled⟩ := settles
  obtain ⟨done, spot, start⟩ := expands.mono (List.subset_append_left before [p])
  have settled' : ∀ q ∈ before ++ [p], q.Settled s'.graph := by
    intro q mem
    rcases List.mem_append.1 mem with mem | mem
    · exact (settled q mem).run start.wf run
    · cases List.mem_singleton.1 mem
      exact Pass.settled_of_run start.wf start.acyclic run
  rw [Pass.run, Edit.within_eq_ok] at run
  obtain ⟨e, rest, ⟨wf', expands'⟩, -, ended⟩ := RuleSet.run_invariant
    (wf.expandsTo_invariant (List.mem_append_right before (List.mem_singleton_self p)))
    (fun _ _ => ⟨start.wf, done, spot, start⟩) run
  split at ended
  · obtain ⟨log, log', compacted⟩ := ended
    obtain ⟨w, compacts⟩ := wf'.compacts compacted
    obtain ⟨_, _, expands'⟩ := expands'
    exact ⟨⟨_, expands'.compacted compacts⟩, compacts.trimmed wf', settled'⟩
  · next none =>
    obtain rfl : k = 0 := Nat.eq_zero_of_not_pos none
    refine ⟨ended ▸ expands', ?_, settled'⟩
    rw [RuleSet.run_idle run]
    exact trimmed

end SettlesTo

end Graph

end EvenPad
