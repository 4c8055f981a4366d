import EvenPad.Proofs.Optimizer.Limit
import EvenPad.Proofs.Unpad.Failure
import EvenPad.Proofs.Unpad.Obstacle

/-!
Whether the optimizer succeeds, and what it then comes to. Without a limit it succeeds exactly if
no pass is obstructed (`Optimizer.optimize_ok_iff`): the first round does all that there is to do,
and the second one nothing. Main statement: `Optimizer.outcome_of_optimize`, the order of the
passes decides only whether a node that a pass fails on is bypassed before the pass comes to it.
-/

namespace EvenPad

/-- Nothing obstructs the passes one after another. -/
def Graph.Unobstructed (g : Graph) (passes : List Pass) : Prop :=
  ∀ before p after, passes = before ++ p :: after → ¬ g.Obstructs before p

/-- Whatever obstructs a pass obstructs it after fewer passes too. -/
theorem Graph.Obstructs.mono {g : Graph} {p : Pass} {before fewer : List Pass}
    (obstructs : g.Obstructs before p) (among : fewer ⊆ before) : g.Obstructs fewer p := by
  obtain ⟨id, fails, needed⟩ := obstructs
  exact ⟨id, fails, needed.mono fun _ ⟨q, mem, isMatch⟩ => ⟨q, among mem, isMatch⟩⟩

namespace Optimizer

variable {o o' : Optimizer} {g : Graph} {p : Pass} {before passes : List Pass}
  {s s' : Session} {u : Unit} {left round : Nat}

/-- A pass of a round succeeds if its run does and leaves a well-formed graph. -/
theorem runPass_ok {applied : Nat} {work : LoggedGraph}
    (run : p.run (o.stepLimit.map (· - s.applied)) s.work = .ok applied work)
    (wf : work.graph.WellFormed) :
    ∃ s', o.runPass round p s = .ok ⟨⟩ s' := by
  simp only [runPass, Edit.get_bind_apply, Edit.bind_eq_ok, Edit.within_eq_ok, onWork_eq_ok]
  obtain ⟨work', reported, same⟩ :=
    RuleSet.report_ok (s := work) (e := .passApplied round p.name applied)
  by_cases some : 0 < applied
  · have checked : work'.graph.checkEdges = .ok ⟨⟩ := by
      rw [same]
      exact wf.checkEdges_ok
    refine ⟨⟨work', s.applied + applied⟩, applied, _, ⟨work, run, rfl⟩, ?_⟩
    rw [if_pos some]
    simp only [Edit.bind_eq_ok, onWork_eq_ok, Edit.get_bind_apply, Edit.lift_eq_ok,
      Checked.within_eq_ok]
    exact ⟨⟨⟩, _, ⟨work', reported, rfl⟩, ⟨⟩, _, ⟨checked, rfl⟩, rfl⟩
  · refine ⟨⟨work, s.applied + applied⟩, applied, _, ⟨work, run, rfl⟩, ?_⟩
    rw [if_neg some]
    rfl

section Progress

variable (uncapped : o.stepLimit = none) (wf : g.WellFormed)
  (settles : g.SettlesTo before s.work.graph)
include uncapped wf settles

theorem settles_of_turn (turn : o.turn round p s = .ok u s') :
    g.SettlesTo (before ++ [p]) s'.work.graph := by
  rcases turn_eq_ok turn with ⟨exhausted, -⟩ | ⟨-, applied, work, run, graph, -⟩
  · simp [isExhausted, uncapped] at exhausted
  · rw [uncapped] at run
    rw [graph]
    exact settles.run wf run

theorem turn_ok_iff : (∃ s', o.turn round p s = .ok ⟨⟩ s') ↔ ¬ g.Obstructs before p := by
  rw [← settles.run_ok_iff wf]
  constructor
  · rintro ⟨s', turn⟩
    rcases turn_eq_ok turn with ⟨exhausted, -⟩ | ⟨-, applied, work, run, -⟩
    · simp [isExhausted, uncapped] at exhausted
    · rw [uncapped] at run
      exact ⟨applied, work, run⟩
  · rintro ⟨applied, work, run⟩
    obtain ⟨⟨_, _, expands⟩, -⟩ := settles.run wf run
    have going : o.isExhausted s.applied = false := by simp [isExhausted, uncapped]
    simp only [turn, Edit.get_bind_apply, going, Bool.false_eq_true, if_false]
    exact runPass_ok (by rwa [uncapped]) expands.wf

theorem settles_of_forM (run : forM passes (o.turn round) s = .ok u s') :
    g.SettlesTo (before ++ passes) s'.work.graph := by
  induction passes generalizing before s with
  | nil =>
    obtain ⟨-, rfl⟩ := Edit.pure_eq_ok.1 run
    rwa [List.append_nil]
  | cons p rest ih =>
    rw [List.forM_cons, Edit.bind_eq_ok] at run
    obtain ⟨_, s₁, first, run⟩ := run
    rw [List.append_cons]
    exact ih (settles_of_turn uncapped wf settles first) run

/-- Passes succeed one after another exactly if nothing obstructs them. Those that have run before
are settled, so each is told by the first graph what it comes across. -/
theorem forM_ok_iff : (∃ s', forM passes (o.turn round) s = .ok ⟨⟩ s') ↔
    ∀ front p back, passes = front ++ p :: back → ¬ g.Obstructs (before ++ front) p := by
  induction passes generalizing before s with
  | nil =>
    refine iff_of_true ⟨s, rfl⟩ fun front p back split => ?_
    simp at split
  | cons p rest ih =>
    constructor
    · rintro ⟨s', run⟩ front q back split
      rw [List.forM_cons, Edit.bind_eq_ok] at run
      obtain ⟨_, s₁, first, run⟩ := run
      rcases List.cons_eq_append_iff.1 split with ⟨rfl, same⟩ | ⟨front', rfl, rfl⟩
      · cases same
        rw [List.append_nil]
        exact (turn_ok_iff uncapped wf settles).1 ⟨s₁, first⟩
      · rw [List.append_cons]
        exact (ih (settles_of_turn uncapped wf settles first)).1 ⟨s', run⟩ front' q back rfl
    · intro clear
      obtain ⟨s₁, first⟩ : ∃ s₁, o.turn round p s = .ok ⟨⟩ s₁ := by
        refine (turn_ok_iff uncapped wf settles).2 ?_
        have here := clear [] p rest rfl
        rwa [List.append_nil] at here
      obtain ⟨s', run⟩ :=
        (ih (settles_of_turn uncapped wf settles first)).2 fun front q back split => by
        have later := clear (p :: front) q back (by rw [split, List.cons_append])
        rwa [List.append_cons] at later
      exact ⟨s', by rw [List.forM_cons, Edit.bind_eq_ok]; exact ⟨_, s₁, first, run⟩⟩

end Progress

/-! ## Rounds -/

/-- Rounds come to an end if those do that follow a round that applied something. -/
theorem rounds_ok_of_round {s₁ : Session} (run : forM o.passes (o.turn round) s = .ok u s₁)
    (more : s.applied ≠ s₁.applied → ∃ s', o.rounds left (round + 1) s₁ = .ok ⟨⟩ s') :
    ∃ s', o.rounds (left + 1) round s = .ok ⟨⟩ s' := by
  simp only [rounds, runPasses_eq, Edit.get_bind_apply, Edit.bind_eq_ok]
  by_cases stopped : (s.applied = s₁.applied || o.isExhausted s₁.applied) = true
  · refine ⟨s₁, u, s₁, run, ?_⟩
    rw [if_pos stopped]
    rfl
  · obtain ⟨s', rest⟩ := more fun same => stopped (by simp [same])
    refine ⟨s', u, s₁, run, ?_⟩
    rw [if_neg stopped]
    exact rest

variable (uncapped : o.stepLimit = none) (wf : g.WellFormed)
include uncapped wf

/-- One round settles the passes, and another one finds nothing to do. -/
theorem rounds_ok_iff (start : g.SettlesTo [] s.work.graph) (patient : 2 ≤ left) :
    (∃ s', o.rounds left round s = .ok ⟨⟩ s') ↔ g.Unobstructed o.passes := by
  have once : (∃ s₁, forM o.passes (o.turn round) s = .ok ⟨⟩ s₁) ↔ g.Unobstructed o.passes :=
    forM_ok_iff uncapped wf start
  rw [← once]
  constructor
  · rintro ⟨s', run⟩
    obtain ⟨_, s₁, first, -⟩ := rounds_eq_ok run
    exact ⟨s₁, first⟩
  · rintro ⟨s₁, first⟩
    have settles := settles_of_forM uncapped wf start first
    obtain ⟨s₂, second⟩ : ∃ s₂, forM o.passes (o.turn (round + 1)) s₁ = .ok ⟨⟩ s₂ := by
      refine (forM_ok_iff uncapped wf settles).2 fun front p back split obstructs => ?_
      exact once.1 ⟨s₁, first⟩ front p back split (obstructs.mono (List.subset_append_right _ _))
    obtain ⟨_, _, expands⟩ := settles.expands
    have same : s₂.work.graph = s₁.work.graph ∧ s₂.applied = s₁.applied :=
      (keeps_of_stopped expands.wf (.inr settles.settled)).turns ⟨rfl, rfl⟩
        (forM_turns (List.Subset.refl _) second)
    obtain ⟨left, rfl⟩ := Nat.exists_eq_add_of_le' patient
    -- if the first round applied something there is a second one, which applies nothing
    exact rounds_ok_of_round first fun _ => rounds_ok_of_round second fun other =>
      absurd same.2.symm other

/-- The compaction at the beginning succeeds, so it is up to the rounds. -/
theorem optimize_ok_iff (acyclic : g.Acyclic) (log : Log) :
    (∃ done, o.optimize ⟨g, log⟩ = .ok ⟨⟩ done) ↔ g.Unobstructed o.passes := by
  have patient (h : Graph) : 2 ≤ o.patience h := Nat.le_add_left _ _
  constructor
  · rintro ⟨done, run⟩
    obtain ⟨h, log', session, compacted, rounds, -⟩ := optimize_eq_ok run
    exact (rounds_ok_iff uncapped wf (.start wf acyclic compacted) (patient h)).1
      ⟨session, rounds⟩
  · intro clear
    obtain ⟨h, log', compacted⟩ := wf.compacted_ok acyclic log
    obtain ⟨session, rounds⟩ : ∃ session,
        o.rounds (o.patience h) 0 ⟨⟨h, log'⟩, 0⟩ = .ok ⟨⟩ session :=
      (rounds_ok_iff uncapped wf (.start wf acyclic compacted) (patient h)).2 clear
    refine ⟨session.work, ?_⟩
    simp only [optimize, Edit.get_bind_apply, Edit.bind_eq_ok, Edit.lift_eq_ok]
    refine ⟨⟨⟩, _, ⟨wf.checkEdges_ok, rfl⟩, Edit.bind_eq_ok.2
      ⟨⟨⟩, ⟨h, log'⟩, RuleSet.compact_eq_ok.2 compacted, ?_⟩⟩
    simp only [optimizeSession, Edit.get_bind_apply, rounds]

omit uncapped wf

/-! ## Orders of the passes -/

/-- If all nodes that passes fail on are needed apart from the output shapes of matches, no order
of the passes gets around them. -/
theorem unobstructed_iff (needs : ∀ p ∈ passes, ∀ id, g.Live id → p.FailsAt g id →
      g.Needed (g.MatchesAny passes) id) :
    g.Unobstructed passes ↔ ∀ p ∈ passes, ∀ id, g.Live id → ¬ p.FailsAt g id := by
  constructor
  · intro clear p mem id live fails
    obtain ⟨before, after, split⟩ := List.append_of_mem mem
    have obstructs : g.Obstructs passes p := ⟨id, fails, needs p mem id live fails⟩
    exact clear before p after split (obstructs.mono (by simp [split]))
  · rintro passable before p after rfl ⟨id, fails, needed⟩
    exact passable p (List.mem_append_right _ List.mem_cons_self) id needed.live fails

/-- Without a limit the optimizer succeeds on a graph that is built exactly if no pass fails on a
node that the outputs depend on, and not only for the output shapes of matches of the passes
before it. So the order of the passes does not decide that if all nodes that they fail on are
needed for more than output shapes of matches. It never changes the result: two optimizers with
the same passes and no limit that succeed come to one graph, also when calls with limits have been
made before. -/
theorem outcome_of_optimize (log log' : Log) (built : g.Built)
    (same : ∀ p, p ∈ o.passes ↔ p ∈ o'.passes) (uncapped : o.stepLimit = none)
    (uncapped' : o'.stepLimit = none) :
    ((∃ done, o.optimize ⟨g, log⟩ = .ok ⟨⟩ done) ↔ g.Unobstructed o.passes) ∧
    ((∀ p ∈ o.passes, ∀ id, g.Live id → p.FailsAt g id → g.Needed (g.MatchesAny o.passes) id) →
      ((∃ done, o.optimize ⟨g, log⟩ = .ok ⟨⟩ done) ↔
        ∃ done, o'.optimize ⟨g, log'⟩ = .ok ⟨⟩ done)) ∧
    ∀ start start' done done', Optimized o.passes g start.graph →
      Optimized o.passes g start'.graph →
      o.optimize start = .ok ⟨⟩ done → o'.optimize start' = .ok ⟨⟩ done' →
      done.graph = done'.graph := by
  have succeeds := optimize_ok_iff uncapped built.wellFormed built.acyclic log
  have succeeds' := optimize_ok_iff uncapped' built.wellFormed built.acyclic log'
  refine ⟨succeeds, fun needs => ?_, fun start start' done done' reached reached' run run' =>
    optimize_confluent built same uncapped uncapped' reached reached' run run'⟩
  have needs' : ∀ p ∈ o'.passes, ∀ id, g.Live id → p.FailsAt g id →
      g.Needed (g.MatchesAny o'.passes) id := by
    intro p mem id live fails
    refine (needs p ((same p).2 mem) id live fails).mono fun _ => ?_
    rintro ⟨q, among, isMatch⟩
    exact ⟨q, (same q).2 among, isMatch⟩
  rw [succeeds, succeeds', unobstructed_iff needs, unobstructed_iff needs']
  simp only [same]

/-- Whether the optimizer succeeds on what is built. -/
def succeedsOn (o : Optimizer) (build : Edit Graph Unit) : Bool :=
  match build .empty with
  | .ok _ g => match o.optimize ⟨g, []⟩ with
    | .ok _ _ => true
    | .error _ _ => false
  | .error _ _ => false

theorem succeedsOn_iff {build : Edit Graph Unit} (made : build .empty = .ok u g) :
    o.succeedsOn build = true ↔ ∃ done, o.optimize ⟨g, []⟩ = .ok ⟨⟩ done := by
  rw [succeedsOn, made]
  cases run : o.optimize ⟨g, []⟩ <;> simp [run]

/-- A transposed convolution whose output shape is a constant that is computed from a convolution
that the passes fail on. -/
def overcutShape : Edit Graph Unit := do
  let data ← Graph.addSource "data" (.typed .f32 (.ofLengths [1, 1, 3]))
  let filters ← Graph.addSource "filters" (.typed .f32 (.ranked [.fixed 1, .fixed 1, .dynamic]))
  let bad ← Graph.wire "bad"
      (.conv .convolution ⟨[], [], [-4], [0], .explicit, []⟩) [data, filters]
  let shape ← Graph.wire "shape" (.const (.vector [6])) [bad]
  let x ← Graph.addSource "x" (.typed .f32 (.ofLengths [1, 1, 4]))
  let f ← Graph.addSource "f" (.typed .f32 (.ofLengths [1, 1, 3]))
  let out ← Graph.wire "deconv"
    (.deconv .convolutionBackpropData ⟨[], [], [1], [0], .explicit, []⟩ true) [x, f, shape]
  Graph.setOutputs [out]

theorem built_overcutShape (run : overcutShape .empty = .ok u g) : g.Built := by
  simp only [overcutShape, Edit.bind_eq_ok] at run
  obtain ⟨_, _, addData, _, _, addFilters, _, _, wireBad, _, _, wireShape, _, _, addX, _, _, addF,
      out, _, wireOut, answer⟩ := run
  exact .answerLast
    (.source (.source (.wire (.wire (.source (.source .empty addData) addFilters) wireBad)
      wireShape) addX) addF) wireOut answer

/-- The passes the other way round. -/
def reversed : Optimizer := ⟨Pass.all.reverse, none⟩

/-- The passes with one for transposed convolutions moved to the front. -/
def deconvFirst : Optimizer := ⟨[.convBackprop, .conv, .groupConv, .groupConvBackprop], none⟩

/-- In the usual order the convolution makes the optimizer fail. If transposed convolutions come
first nothing depends on it any more, and the other passes may come in any order. Where the
outputs read such a convolution themselves, no order is of any help. -/
theorem outcome_of_optimize_overcutShape :
    (∃ g done done', overcutShape .empty = .ok ⟨⟩ g ∧ g.Built ∧
      (¬ ∃ done, unpadding.optimize ⟨g, []⟩ = .ok ⟨⟩ done) ∧ ¬ g.Unobstructed unpadding.passes ∧
      reversed.optimize ⟨g, []⟩ = .ok ⟨⟩ done ∧ g.Unobstructed reversed.passes ∧
      deconvFirst.optimize ⟨g, []⟩ = .ok ⟨⟩ done' ∧ done.graph = done'.graph) ∧
    ∃ g, Pass.flawedConvs .empty = .ok ⟨⟩ g ∧ g.Built ∧ ¬ ∃ done,
      reversed.optimize ⟨g, []⟩ = .ok ⟨⟩ done := by
  have same (p : Pass) : p ∈ unpadding.passes ↔ p ∈ reversed.passes := List.mem_reverse.symm
  have same' (p : Pass) : p ∈ reversed.passes ↔ p ∈ deconvFirst.passes := by cases p <;> decide
  constructor
  · obtain ⟨g, made⟩ : ∃ g, overcutShape .empty = .ok ⟨⟩ g := ⟨_, rfl⟩
    have built := built_overcutShape made
    have fails : unpadding.succeedsOn overcutShape = false := by cbv
    have runs : reversed.succeedsOn overcutShape = true := by cbv
    have runs' : deconvFirst.succeedsOn overcutShape = true := by cbv
    have failed : ¬ ∃ done, unpadding.optimize ⟨g, []⟩ = .ok ⟨⟩ done := by
      rw [← succeedsOn_iff made, fails]
      exact Bool.false_ne_true
    obtain ⟨done, run⟩ := (succeedsOn_iff made).1 runs
    obtain ⟨done', run'⟩ := (succeedsOn_iff made).1 runs'
    obtain ⟨succeeds, -⟩ := outcome_of_optimize [] [] built same rfl rfl
    obtain ⟨succeeds', -, unique⟩ := outcome_of_optimize [] [] built same' rfl rfl
    exact ⟨g, done, done', made, built, failed, fun clear => failed (succeeds.2 clear), run,
      succeeds'.1 ⟨done, run⟩, run', unique _ _ done done' .start .start run run'⟩
  · obtain ⟨g, made, types, outputs⟩ : ∃ g, Pass.flawedConvs .empty = .ok ⟨⟩ g ∧
        g.nodes.map (·.op.type) = [.source, .source, .source, .conv, .conv] ∧
        g.outputs = [⟨4, 0⟩, ⟨3, 0⟩] :=
      ⟨_, rfl, rfl, rfl⟩
    have built := Pass.built_flawedConvs made
    have fails : unpadding.succeedsOn Pass.flawedConvs = false := by cbv
    have answers : ∀ p ∈ unpadding.passes, ∀ id, g.Live id → p.FailsAt g id →
        g.Needed (g.MatchesAny unpadding.passes) id := by
      intro p _ id _ failsAt
      obtain ⟨type, at_id, other⟩ := type_of_matchAt (failsAt.matchAt built.wellFormed)
      rw [types] at at_id
      rcases id with _ | _ | _ | _ | _ | id
      · exact absurd (Option.some.inj at_id).symm other
      · exact absurd (Option.some.inj at_id).symm other
      · exact absurd (Option.some.inj at_id).symm other
      · exact .answer (o := ⟨3, 0⟩) (by simp [outputs])
      · exact .answer (o := ⟨4, 0⟩) (by simp [outputs])
      · cases at_id
    refine ⟨g, made, built, ?_⟩
    rw [← (outcome_of_optimize [] [] built same rfl rfl).2.1 answers,
      ← succeedsOn_iff made, fails]
    exact Bool.false_ne_true

end Optimizer

end EvenPad
