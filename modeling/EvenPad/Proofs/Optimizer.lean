import EvenPad.Optimizer
import EvenPad.Proofs.Unpad.Confluence

/-!
What the optimizer comes to. Its rounds keep what each run of a pass keeps, and the last round of
an optimizer without a limit applies nothing. Main statement: `Optimizer.optimize_confluent`, the
order of the passes and calls with a limit before the last one do not change the result.
-/

namespace EvenPad

/-- The pass has nothing to do on the graph. -/
def Pass.Idle (p : Pass) (g : Graph) : Prop := ∃ s s', s.graph = g ∧ p.run none s = .ok 0 s'

/-- Then it has no match there that the outputs depend on. -/
theorem Pass.Idle.settled {p : Pass} {g : Graph} (idle : p.Idle g) (wf : g.WellFormed)
    (acyclic : g.Acyclic) : p.Settled g := by
  obtain ⟨s, s', rfl, run⟩ := idle
  obtain ⟨done, g, length, -, work, -⟩ := Pass.run_work wf acyclic run
  obtain rfl := List.eq_nil_of_length_eq_zero length
  rw [← work.same rfl]
  exact work.settled

namespace Optimizer

variable {o o' : Optimizer} {p : Pass} {passes : List Pass} {s s' : Session}
  {u : Unit} {left round : Nat}

/-! ## Sessions -/

theorem onWork_eq_ok {α : Type} {e : Edit LoggedGraph α} {a : α} :
    Session.onWork e s = .ok a s' ↔
      ∃ work, e s.work = .ok a work ∧ { s with work := work } = s' := by
  simp [Session.onWork]

/-- A pass of a round runs and adds to the count. -/
theorem runPass_eq_ok (run : o.runPass round p s = .ok u s') :
    ∃ applied work, p.run (o.stepLimit.map (· - s.applied)) s.work = .ok applied work ∧
      s'.work.graph = work.graph ∧ s'.applied = s.applied + applied := by
  simp only [runPass, Edit.get_bind_apply, Edit.bind_eq_ok, Edit.within_eq_ok, onWork_eq_ok]
    at run
  obtain ⟨applied, _, ⟨work, run, rfl⟩, rest⟩ := run
  refine ⟨applied, work, run, ?_⟩
  split at rest
  · simp only [Edit.bind_eq_ok, onWork_eq_ok, Edit.get_bind_apply, Edit.lift_eq_ok] at rest
    obtain ⟨_, _, ⟨work', reported, rfl⟩, _, _, ⟨-, rfl⟩, rest⟩ := rest
    cases rest
    exact ⟨RuleSet.report_eq_ok reported, rfl⟩
  · cases rest
    exact ⟨rfl, rfl⟩

/-- A pass of a round, unless the limit is reached. -/
def turn (o : Optimizer) (round : Nat) (p : Pass) : Edit Session Unit := do
  let s ← get
  if o.isExhausted s.applied then return ()
  else o.runPass round p

theorem runPasses_eq : o.runPasses round = forM o.passes (o.turn round) := rfl

theorem turn_eq_ok (run : o.turn round p s = .ok u s') :
    (o.isExhausted s.applied = true ∧ s' = s) ∨
      o.isExhausted s.applied = false ∧
        ∃ applied work, p.run (o.stepLimit.map (· - s.applied)) s.work = .ok applied work ∧
          s'.work.graph = work.graph ∧ s'.applied = s.applied + applied := by
  simp only [turn, Edit.get_bind_apply] at run
  split at run
  · next exhausted =>
    obtain ⟨-, rfl⟩ := Edit.pure_eq_ok.1 run
    exact .inl ⟨exhausted, rfl⟩
  · next going => exact .inr ⟨by simpa using going, runPass_eq_ok run⟩

/-- A turn of one of the passes leads from one session to the other. -/
def Turns (o : Optimizer) (s s' : Session) : Prop :=
  ∃ round, ∃ p ∈ o.passes, ∃ u, o.turn round p s = .ok u s'

/-- A round is a sequence of turns. -/
theorem forM_turns (among : passes ⊆ o.passes) (run : forM passes (o.turn round) s = .ok u s') :
    Relation.ReflTransGen o.Turns s s' := by
  induction passes generalizing s with
  | nil =>
    obtain ⟨-, rfl⟩ := Edit.pure_eq_ok.1 run
    exact .refl
  | cons p rest ih =>
    rw [List.forM_cons, Edit.bind_eq_ok] at run
    obtain ⟨_, s₁, first, run⟩ := run
    obtain ⟨mem, among⟩ := List.cons_subset.1 among
    exact .head ⟨round, p, mem, _, first⟩ (ih among run)

/-- After a round it is over if the round applied nothing or the limit is reached, or there are
more rounds. -/
theorem rounds_eq_ok (run : o.rounds left round s = .ok u s') :
    ∃ u₁ s₁, forM o.passes (o.turn round) s = .ok u₁ s₁ ∧
      (s' = s₁ ∧ (s.applied = s₁.applied ∨ o.isExhausted s₁.applied = true) ∨
        ∃ left', left' < left ∧ o.rounds left' (round + 1) s₁ = .ok u s') := by
  cases left with
  | zero => simp [rounds] at run
  | succ left =>
    simp only [rounds, runPasses_eq, Edit.get_bind_apply, Edit.bind_eq_ok] at run
    obtain ⟨_, s₁, passes, run⟩ := run
    refine ⟨_, s₁, passes, ?_⟩
    split at run
    · next stopped =>
      obtain ⟨-, rfl⟩ := Edit.pure_eq_ok.1 run
      exact .inl ⟨rfl, by simpa using stopped⟩
    · exact .inr ⟨left, Nat.lt_succ_self left, run⟩

/-- So are all rounds. -/
theorem rounds_turns (run : o.rounds left round s = .ok u s') :
    Relation.ReflTransGen o.Turns s s' := by
  induction left using Nat.strong_induction_on generalizing round s with
  | h left ih =>
    obtain ⟨_, s₁, passes, ⟨rfl, -⟩ | ⟨left', less, run⟩⟩ := rounds_eq_ok run
    · exact forM_turns (List.Subset.refl _) passes
    · exact (forM_turns (List.Subset.refl _) passes).trans (ih left' less run)

/-- Turns of the passes keep a property of the graph and the number of patches. -/
def Keeps (o : Optimizer) (motive : Graph → Nat → Prop) : Prop :=
  ∀ ⦃s s'⦄, o.Turns s s' → motive s.work.graph s.applied → motive s'.work.graph s'.applied

variable {motive : Graph → Nat → Prop}

theorem Keeps.turns (keeps : o.Keeps motive) (start : motive s.work.graph s.applied)
    (turns : Relation.ReflTransGen o.Turns s s') : motive s'.work.graph s'.applied := by
  induction turns with
  | refl => exact start
  | tail _ turn ih => exact keeps turn ih

/-- They keep what runs of the passes keep. -/
theorem keeps_of_run
    (runs : ∀ ⦃p budget t applied t' count⦄, p ∈ o.passes → motive t.graph count →
    p.run budget t = .ok applied t' → motive t'.graph (count + applied)) : o.Keeps motive := by
  rintro s s' ⟨round, p, mem, _, turn⟩ holds
  rcases turn_eq_ok turn with ⟨-, rfl⟩ | ⟨-, applied, work, run, graph, count⟩
  · exact holds
  · rw [graph, count]
    exact runs mem holds run

/-! ## The last round -/

theorem count_le (among : passes ⊆ o.passes) (run : forM passes (o.turn round) s = .ok u s') :
    s.applied ≤ s'.applied := by
  have keeps : o.Keeps fun _ count => s.applied ≤ count :=
    keeps_of_run fun _ _ _ _ _ _ _ le _ => Nat.le_trans le (Nat.le_add_right _ _)
  exact keeps.turns (Nat.le_refl _) (forM_turns among run)

variable (uncapped : o.stepLimit = none)
include uncapped

/-- Passes that apply nothing leave the graph as it is, and have all seen it. -/
theorem idle_of_forM (among : passes ⊆ o.passes) (run : forM passes (o.turn round) s = .ok u s')
    (same : s'.applied = s.applied) :
    s'.work.graph = s.work.graph ∧ ∀ p ∈ passes, p.Idle s.work.graph := by
  induction passes generalizing s with
  | nil =>
    obtain ⟨-, rfl⟩ := Edit.pure_eq_ok.1 run
    exact ⟨rfl, fun _ mem => absurd mem List.not_mem_nil⟩
  | cons p rest ih =>
    rw [List.forM_cons, Edit.bind_eq_ok] at run
    obtain ⟨_, s₁, first, run⟩ := run
    have among' := (List.cons_subset.1 among).2
    have le := count_le among' run
    rcases turn_eq_ok first with ⟨exhausted, -⟩ | ⟨-, applied, work, ran, graph, count⟩
    · simp [isExhausted, uncapped] at exhausted
    · obtain rfl : applied = 0 := by omega
      rw [uncapped] at ran
      have kept : work.graph = s.work.graph := by
        rw [Pass.run, Edit.within_eq_ok] at ran
        exact RuleSet.run_idle ran
      obtain ⟨graph', idle⟩ := ih among' run (same.trans count.symm)
      rw [graph, kept] at graph' idle
      exact ⟨graph', List.forall_mem_cons.2 ⟨⟨s.work, work, rfl, ran⟩, idle⟩⟩

/-- Rounds without a limit come to an end when no pass has anything to do. -/
theorem idle_of_rounds (run : o.rounds left round s = .ok u s') :
    ∀ p ∈ o.passes, p.Idle s'.work.graph := by
  induction left using Nat.strong_induction_on generalizing round s with
  | h left ih =>
    obtain ⟨_, s₁, passes, ⟨rfl, stopped⟩ | ⟨left', less, run⟩⟩ := rounds_eq_ok run
    · have same := stopped.resolve_right (by simp [isExhausted, uncapped])
      obtain ⟨graph, idle⟩ := idle_of_forM uncapped (List.Subset.refl _) passes same.symm
      rwa [graph]
    · exact ih left' less run

omit uncapped

/-! ## Results -/

variable {g h : Graph} {start start' done done' : LoggedGraph}

theorem optimize_eq_ok (run : o.optimize start = .ok u done) :
    ∃ g log session, start.graph.compacted start.log = .ok g log ∧
      o.rounds (o.patience g) 0 ⟨⟨g, log⟩, 0⟩ = .ok u session ∧ session.work = done := by
  simp only [optimize, Edit.get_bind_apply] at run
  obtain ⟨_, _, checked, run⟩ := Edit.bind_eq_ok.1 run
  obtain ⟨-, rfl⟩ := Edit.lift_eq_ok.1 checked
  obtain ⟨_, ⟨g, log⟩, compact, run⟩ := Edit.bind_eq_ok.1 run
  refine ⟨g, log, ?_⟩
  split at run
  · next session rounds =>
    cases run
    exact ⟨session, RuleSet.compact_eq_ok.1 compact, rounds, rfl⟩
  · cases run

/-- Runs of the passes lead from a reduction to a reduction. -/
theorem keeps_reducesTo (wf : g.WellFormed) (among : o.passes ⊆ passes) :
    o.Keeps fun h _ => g.ReducesTo passes h := by
  refine keeps_of_run fun p budget t applied t' count mem reduces run => ?_
  rw [Pass.run, Edit.within_eq_ok] at run
  obtain ⟨done, spot, expands⟩ := reduces.expandsTo
  obtain ⟨g', rest, ⟨-, expands'⟩, -, ended⟩ :=
    RuleSet.run_invariant (wf.expandsTo_invariant (among mem))
    (fun _ _ => ⟨expands.wf, done, spot, expands⟩) run
  split at ended
  · obtain ⟨log, log', compacted⟩ := ended
    exact ⟨g', log, log', expands', compacted⟩
  · next none =>
    obtain rfl : applied = 0 := Nat.eq_zero_of_not_pos none
    rwa [RuleSet.run_idle run]

theorem reducesTo_of_optimize (wf : g.WellFormed) (among : o.passes ⊆ passes)
    (expands : g.ExpandsTo passes start.graph) (run : o.optimize start = .ok u done) :
    g.ReducesTo passes done.graph := by
  obtain ⟨h, log, session, compacted, rounds, rfl⟩ := optimize_eq_ok run
  exact (keeps_reducesTo wf among).turns ⟨_, _, _, expands, compacted⟩ (rounds_turns rounds)

/-- What calls of optimizers with these passes make of a graph, whatever their limits. -/
inductive Optimized (passes : List Pass) (g : Graph) : Graph → Prop
  | start : Optimized passes g g
  | call {o : Optimizer} {s s' : LoggedGraph} {u : Unit} : Optimized passes g s.graph →
    o.passes ⊆ passes → o.optimize s = .ok u s' → Optimized passes g s'.graph

theorem Optimized.expandsTo (optimized : Optimized passes g h) (wf : g.WellFormed)
    (acyclic : g.Acyclic) :
    g.ExpandsTo passes h := by
  induction optimized with
  | start => exact ⟨_, _, wf.expands acyclic⟩
  | call _ among run ih => exact (reducesTo_of_optimize wf among ih run).expandsTo

/-- An optimizer without a limit leaves no match that the outputs depend on. -/
theorem settled_of_optimize (wf : g.WellFormed) (among : o.passes ⊆ passes)
    (uncapped : o.stepLimit = none) (expands : g.ExpandsTo passes start.graph)
    (run : o.optimize start = .ok u done) (mem : p ∈ o.passes) :
    p.Settled done.graph := by
  obtain ⟨_, _, expands'⟩ := (reducesTo_of_optimize wf among expands run).expandsTo
  obtain ⟨h, log, session, -, rounds, rfl⟩ := optimize_eq_ok run
  exact (idle_of_rounds uncapped rounds p mem).settled expands'.wf expands'.acyclic

theorem optimize_confluent {u' : Unit} (built : g.Built)
    (same : ∀ p, p ∈ o.passes ↔ p ∈ o'.passes) (uncapped : o.stepLimit = none)
    (uncapped' : o'.stepLimit = none) (reached : Optimized o.passes g start.graph)
    (reached' : Optimized o.passes g start'.graph) (run : o.optimize start = .ok u done)
    (run' : o'.optimize start' = .ok u' done') :
    done.graph = done'.graph := by
  have expands := reached.expandsTo built.wellFormed built.acyclic
  have expands' := reached'.expandsTo built.wellFormed built.acyclic
  have among : o.passes ⊆ o.passes := List.Subset.refl _
  have among' : o'.passes ⊆ o.passes := fun p => (same p).2
  refine (reducesTo_of_optimize built.wellFormed among expands run).unique
    (reducesTo_of_optimize built.wellFormed among' expands' run')
      (fun p mem => ?_) (fun p mem => ?_)
  · exact settled_of_optimize built.wellFormed among uncapped expands run mem
  · exact settled_of_optimize built.wellFormed among' uncapped' expands' run' ((same p).1 mem)

end Optimizer

end EvenPad
