import EvenPad.Proofs.Unpad.Expand.Live
import Mathlib.Data.Set.Card

/-!
How many matches a pass replaces in a graph that passes have worked on before, told by the graph
that they began with. What the pass `finds` there depends on what is gone by then and on nothing
else that the earlier passes did. Main statement: `Graph.Reduced.run`, a run replaces what the
pass finds, each match once, unless its budget is spent before.
-/

namespace EvenPad

/-- What a pass finds when some nodes are gone: the matches that the outputs depend on though what
is gone is not told its output shape. A graph in which nothing is gone has not been compacted, and
there the readers of a match come up as well. -/
def Pass.finds (p : Pass) (g : Graph) (away : Set Nat) : Set Nat :=
  {id | p.MatchAt g id ∧ g.Needed (fun n => n.id ∈ away) id ∨ away = ∅ ∧ p.Pulled g id}

/-- All that is left is live or a source. -/
def Graph.Trimmed (g : Graph) : Prop :=
  ∀ ⦃id : Nat⦄ ⦃n : Node⦄, g.nodes[id]? = some n → g.Live id ∨ n.op.isSource = true

theorem Graph.Compacts.trimmed {g g' : Graph} {w : Wires} (compacts : g.Compacts w g')
    (wf : g.WellFormed) :
    g'.Trimmed := by
  intro k m here
  rcases compacts.placed here with ⟨⟨id, slot⟩, found, live | isSource⟩
  · have at_zero : 0 = slot := (compacts.found found).1
    subst at_zero
    exact .inl (compacts.live_copy wf live found)
  · exact .inr isSource

namespace Graph

variable {g h h' : Graph} {passes : List Pass} {done done' : Nat → Option (List Part)}
  {spot spot' : Nat → Spot} {p : Pass} {away : Set Nat} {parts : List Part} {i id : Nat}

/-! ## What is gone -/

theorem Expands.gone_finite (expands : g.Expands passes done spot h) : (gone done).Finite := by
  refine (Set.finite_lt_nat g.size).subset fun i replaced => ?_
  rcases Option.ne_none_iff_exists'.1 replaced with ⟨parts, replaced⟩
  rcases expands.replaced replaced with ⟨n, _, there, -⟩
  exact (List.getElem?_eq_some_iff.1 there).1

theorem gone_update : gone (Function.update done i (some parts)) = insert i (gone done) := by
  ext j
  rcases eq_or_ne j i with same | other
  · subst same
    simp [gone]
  · simp [gone, other]

/-- The passes have made `h` of `g`, and what they replaced is away. -/
def Reduced (g : Graph) (passes : List Pass) (away : Set Nat) (h : Graph) : Prop :=
  ∃ done spot, g.Expands passes done spot h ∧ gone done = away ∧
    (away = ∅ ∧ h = g ∧ spot = .kept ∨ away.Nonempty ∧ h.Trimmed)

/-- What is gone, and what a run pulls. -/
theorem Expands.gone_or_pulled (expands : g.Expands passes done spot h) (wf : g.WellFormed)
    (state : gone done = ∅ ∧ h = g ∧ spot = .kept ∨ (gone done).Nonempty ∧ h.Trimmed) :
    (i ∈ gone done ∨ ∃ id, p.Pulled h id ∧ spot id = .kept i) ↔
      i ∈ gone done ∪ p.finds g (gone done) := by
  refine or_congr_right' fun fresh => ?_
  rcases state with ⟨none, rfl, rfl⟩ | ⟨some, trimmed⟩
  · constructor
    · rintro ⟨id, pulled, stands⟩
      cases stands
      exact .inr ⟨none, pulled⟩
    · rintro (⟨isMatch, needed⟩ | ⟨-, pulled⟩)
      · exact ⟨i, .live isMatch needed.live, rfl⟩
      · exact ⟨i, pulled, rfl⟩
  · constructor
    · rintro ⟨id, pulled, stands⟩
      rcases pulled.matchAt with ⟨m, here, isMatch⟩
      have live : h.Live id := (trimmed here).resolve_right (by
        simp [Pass.isSource_of_takes (Pass.takes_of_matches isMatch)])
      have found := (expands.exists_match_iff wf).1 ⟨id, live, pulled.matchAt, stands⟩
      exact .inl ⟨found.2.2, found.2.1⟩
    · rintro (⟨isMatch, needed⟩ | ⟨none, -⟩)
      · rcases (expands.exists_match_iff wf).2 ⟨not_not.1 fresh, needed, isMatch⟩ with
          ⟨id, live, isMatch, stands⟩
        exact ⟨id, .live isMatch live, stands⟩
      · exact absurd none some.ne_empty

end Graph

open EvenPad.Graph

/-! ## Runs -/

namespace Pass

variable {p : Pass} {g h h₁ h₂ : Graph} {passes : List Pass}
  {done done' : Nat → Option (List Part)} {spot spot' : Nat → Spot} {away : Set Nat}
  {replaced rest queue : List Nat} {id k : Nat} {node : Node} {σ : Signature} {parts : List Part}

/-- A run on `h`, which passes have made of `g`, has come to `h₁`: the nodes of `g` are gone that
the replaced ones stood for. -/
structure Tally (p : Pass) (g : Graph) (passes : List Pass) (h : Graph)
    (done : Nat → Option (List Part))
    (spot : Nat → Spot) (replaced : List Nat) (h₁ : Graph) (queue : List Nat)
    (done' : Nat → Option (List Part)) (spot' : Nat → Spot) : Prop where
  work : p.Work h replaced h₁ queue
  expands : g.Expands passes done' spot' h₁
  stands : ∀ {id}, id < h.size → spot' id = spot id
  gone : ∀ {i}, i ∈ gone done' ↔ i ∈ gone done ∨ ∃ id ∈ replaced, spot id = .kept i
  count : (Graph.gone done').ncard = (Graph.gone done).ncard + replaced.length

namespace Tally

theorem start (work : p.Work h [] h queue) (expands : g.Expands passes done spot h) :
    p.Tally g passes h done spot [] h queue done spot where
  work := work
  expands := expands
  stands := fun _ => rfl
  gone := by simp
  count := rfl

theorem passed (tally : p.Tally g passes h done spot replaced h₁ (id :: rest) done' spot')
    (noMatch : ∀ n, h₁.nodes[id]? = some n → h₁.Wanted id → ¬ h₁.Matches n p) :
    p.Tally g passes h done spot replaced h₁ rest done' spot' :=
  { tally with work := tally.work.passed noMatch }

/-- A step replaces one more. -/
theorem patched (tally : p.Tally g passes h done spot replaced h₁ (node.id :: rest) done' spot')
    (wf : g.WellFormed) (wf₁ : h₁.WellFormed) (mem : p ∈ passes)
    (applies : p.Applies h₁ node σ parts rest queue h₂) :
    ∃ done'' spot'',
      p.Tally g passes h done spot (node.id :: replaced) h₂ queue done'' spot'' := by
  rcases tally.expands.applied wf mem applies with ⟨i, stands, fresh, expands⟩
  rcases tally.work.of_applies applies with ⟨isMatch, -, -⟩
  refine ⟨_, _, tally.work.patched wf₁ applies, expands, ?_, ?_, ?_⟩
  · intro id old
    rw [spotIn_kept (Nat.lt_of_lt_of_le old tally.work.size), tally.stands old]
  · intro j
    rw [tally.stands isMatch.lt_size] at stands
    rw [gone_update, Set.mem_insert_iff, tally.gone]
    simp only [List.mem_cons, exists_eq_or_imp, stands, Spot.kept.injEq]
    rw [eq_comm, or_left_comm]
  · rw [gone_update,
      Set.ncard_insert_of_notMem (by simpa [Graph.gone] using fresh) tally.expands.gone_finite,
      tally.count, List.length_cons, Nat.add_assoc]

end Tally

theorem tally_invariant (h : Graph) (done : Nat → Option (List Part))
    (spot : Nat → Spot) (wf : g.WellFormed) (mem : p ∈ passes) :
    RuleSet.Invariant p.rules fun applied h₁ queue => h₁.WellFormed ∧ ∃ replaced done' spot',
      replaced.length = applied ∧ p.Tally g passes h done spot replaced h₁ queue done' spot' := by
  refine p.invariant (fun applied h₁ queue => ∃ replaced done' spot', replaced.length = applied ∧
    p.Tally g passes h done spot replaced h₁ queue done' spot') ?_ ?_
  · rintro applied h₁ id rest - ⟨replaced, done', spot', length, tally⟩ noMatch
    exact ⟨replaced, done', spot', length, tally.passed noMatch⟩
  · rintro applied h₁ h₂ node σ parts rest queue wf₁ ⟨replaced, done', spot', rfl, tally⟩ applies
    rcases tally.patched wf wf₁ mem applies with ⟨done'', spot'', tally⟩
    exact ⟨node.id :: replaced, done'', spot'', rfl, tally⟩

end Pass

/-- A run replaces what the pass finds, or as much of it as its budget has patches. -/
theorem Graph.Reduced.run {p : Pass} {g : Graph} {passes : List Pass} {away : Set Nat}
    {s s' : LoggedGraph} {budget : Option Nat} {k : Nat}
    (reduced : g.Reduced passes away s.graph) (wf : g.WellFormed) (mem : p ∈ passes)
    (run : p.run budget s = .ok k s') :
    ∃ away', g.Reduced passes away' s'.graph ∧ away'.ncard = away.ncard + k ∧ away ⊆ away' ∧
      away' ⊆ away ∪ p.finds g away ∧ (budget = some k ∨ away' = away ∪ p.finds g away) := by
  rcases reduced with ⟨done, spot, expands, rfl, state⟩
  rw [Pass.run, Edit.within_eq_ok] at run
  rcases RuleSet.run_invariant (Pass.tally_invariant s.graph done spot wf mem)
    (fun ordered concerned => by
      rcases Pass.Work.started expands.wf expands.acyclic ordered concerned with
        ⟨wf', _, length, work⟩
      cases List.eq_nil_of_length_eq_zero length
      exact ⟨wf', [], done, spot, rfl, .start work expands⟩) run with
    ⟨h₁, rest, ⟨wf₁, replaced, done', spot', rfl, tally⟩, finished, ended⟩
  have below : gone done' ⊆ gone done ∪ p.finds g (gone done) := by
    intro i mem
    refine (expands.gone_or_pulled wf state).1 ((tally.gone.1 mem).imp_right ?_)
    rintro ⟨id, mem, stands⟩
    exact ⟨id, tally.work.pulled mem, stands⟩
  refine ⟨gone done', ?_, tally.count, fun i mem => tally.gone.2 (.inl mem), below, ?_⟩
  · split at ended
    · next some =>
      rcases ended with ⟨log, log', compacted⟩
      rcases wf₁.compacts compacted with ⟨w, compacts⟩
      rcases tally.expands.compacted compacts with ⟨spot'', expands''⟩
      refine ⟨done', spot'', expands'', rfl, .inr ⟨?_, compacts.trimmed wf₁⟩⟩
      refine Set.nonempty_of_ncard_ne_zero ?_
      rw [tally.count]
      omega
    · next none =>
      obtain rfl : replaced = [] := List.eq_nil_of_length_eq_zero (Nat.eq_zero_of_not_pos none)
      have same : gone done' = gone done := by
        ext i
        simp [tally.gone]
      rw [ended, tally.work.same rfl, same]
      exact ⟨done, spot, expands, rfl, state⟩
  · rcases finished with rfl | spent
    · refine .inr (below.antisymm fun i mem => ?_)
      refine tally.gone.2 (((expands.gone_or_pulled wf state).2 mem).imp_right ?_)
      rintro ⟨id, pulled, stands⟩
      exact ⟨id, tally.work.mem_iff.2 pulled, stands⟩
    · exact .inl spent

end EvenPad
