import EvenPad.Proofs.Optimizer
import EvenPad.Proofs.Unpad.Expand.Tally

/-!
How many patches a session applies. In the first round each pass replaces what it `finds`, unless
the limit is reached before, and the rounds after that have nothing to do.

* `Graph.goneAfter` is what is gone when the passes have run one after another, told by the first
  graph alone.
* `Optimizer.Tallies` holds between two turns, and `Optimizer.Done` says how far they have come.
* `Optimizer.session_counts` counts the patches of a session with a limit or without, and the
  matches that are left.
-/

namespace EvenPad

/-- What is gone when passes have run one after another, if some nodes were gone before. -/
def Graph.goneAfter (g : Graph) : List Pass → Set Nat → Set Nat
  | [], away => away
  | p :: rest, away => g.goneAfter rest (away ∪ p.finds g away)

/-- What the four passes come to replace, if there is no limit. -/
def Graph.found (g : Graph) : Set Nat := g.goneAfter Pass.all ∅

/-- The matches in an order. -/
def Graph.matchesIn (g : Graph) (order : List Nat) : Set Nat :=
  {id | id ∈ order ∧ ∃ p : Pass, p.MatchAt g id}

/-- The outputs depend on every match that is read or an output, and not only for the output shape
of another match. -/
def Graph.NeedsMatches (g : Graph) : Prop :=
  ∀ ⦃p : Pass⦄ ⦃id : Nat⦄, p.MatchAt g id → g.Wanted id →
    g.Needed (fun n => ∃ q : Pass, q.MatchAt g n.id) id

namespace Graph

variable {g h : Graph} {p : Pass} {passes : List Pass} {away : Set Nat}
  {order : List Nat} {id : Nat}

/-! ## What is gone -/

theorem subset_goneAfter : away ⊆ g.goneAfter passes away := by
  induction passes generalizing away with
  | nil => exact Set.Subset.refl _
  | cons p rest ih => exact Set.subset_union_left.trans ih

/-- All that has gone were matches that are read or outputs. -/
theorem match_of_goneAfter (mem : id ∈ g.goneAfter passes away) :
    id ∈ away ∨ (∃ p : Pass, p.MatchAt g id) ∧ g.Wanted id := by
  induction passes generalizing away with
  | nil => exact .inl mem
  | cons p rest ih =>
    rcases ih mem with (before | ⟨isMatch, needed⟩ | ⟨-, pulled⟩) | found
    · exact .inl before
    · exact .inr ⟨⟨p, isMatch⟩, needed.live.wanted⟩
    · exact .inr ⟨⟨p, pulled.matchAt⟩, pulled.wanted⟩
    · exact .inr found

theorem match_of_found (mem : id ∈ g.goneAfter passes ∅) :
    (∃ p : Pass, p.MatchAt g id) ∧ g.Wanted id :=
  (match_of_goneAfter mem).resolve_left (Set.notMem_empty id)

theorem goneAfter_finite : (g.goneAfter passes ∅).Finite := by
  refine (Set.finite_lt_nat g.size).subset fun id mem => ?_
  rcases match_of_found mem with ⟨⟨p, isMatch⟩, -⟩
  exact isMatch.lt_size

/-- What is needed when more is gone is needed when less is. -/
theorem Needed.anti {fewer more : Set Nat} (sub : fewer ⊆ more)
    (needed : g.Needed (fun n => n.id ∈ more) id) :
    g.Needed (fun n => n.id ∈ fewer) id :=
  needed.mono fun _ mem => sub mem

/-- The passes leave no match that the outputs then depend on. -/
theorem mem_goneAfter (mem : p ∈ passes) (isMatch : p.MatchAt g id)
    (needed : g.Needed (fun n => n.id ∈ g.goneAfter passes away) id) :
    id ∈ g.goneAfter passes away := by
  induction passes generalizing away with
  | nil => exact absurd mem List.not_mem_nil
  | cons q rest ih =>
    rcases List.mem_cons.1 mem with rfl | mem
    · have found : id ∈ p.finds g away := .inl ⟨isMatch, needed.anti subset_goneAfter⟩
      rw [goneAfter]
      exact subset_goneAfter (.inr found)
    · exact ih mem needed

namespace Reduced

variable (reduced : g.Reduced passes away h) (wf : g.WellFormed)
include reduced wf

/-- The passes are settled when all that they find is away: less is needed when more is gone, so
what a pass has settled stays settled. -/
theorem settled (all : away = g.goneAfter passes ∅) (mem : p ∈ passes) : p.Settled h := by
  rcases reduced with ⟨done, spot, expands, rfl, -⟩
  refine (expands.settled_iff wf).2 fun id isMatch needed => ?_
  rw [← mem_gone]
  rw [all] at needed ⊢
  exact mem_goneAfter mem isMatch needed

omit wf in
theorem wellFormed : h.WellFormed := by
  rcases reduced with ⟨_, _, expands, -⟩
  exact expands.wf

omit wf in
theorem acyclic : h.Acyclic := by
  rcases reduced with ⟨_, _, expands, -⟩
  exact expands.acyclic

/-- The matches that are left are those that are not away and are needed still. -/
theorem ncard_matchesIn (ordered : h.evalOrder = .ok order) : (h.matchesIn order).ncard =
    {id | (∃ p : Pass, p.MatchAt g id) ∧ id ∉ away ∧
      g.Needed (fun n => n.id ∈ away) id}.ncard := by
  rcases reduced with ⟨done, spot, expands, rfl, -⟩
  have stands {p : Pass} {id : Nat} (isMatch : p.MatchAt h id) :
      spot id = .kept (spot id).node := by
    rcases isMatch with ⟨m, here, isMatch⟩
    rcases expands.kept_of_matches wf here isMatch with ⟨i, _, _, stands, -⟩
    rw [stands, Spot.node]
  have injective : Set.InjOn (fun id => (spot id).node) (h.matchesIn order) := by
    rintro a ⟨-, p, isMatch⟩ b ⟨-, q, isMatch'⟩ same
    refine expands.injective isMatch.lt_size isMatch'.lt_size ?_
    rw [stands isMatch, stands isMatch']
    exact congrArg Spot.kept same
  rw [← injective.ncard_image]
  congr 1
  ext i
  constructor
  · rintro ⟨id, ⟨mem, p, isMatch⟩, rfl⟩
    have live := (expands.wf.mem_evalOrder ordered).1 mem
    rcases (expands.exists_match_iff wf).1 ⟨id, live, isMatch, stands isMatch⟩ with
      ⟨fresh, needed, isMatch'⟩
    exact ⟨⟨p, isMatch'⟩, not_not.2 fresh, needed⟩
  · rintro ⟨⟨p, isMatch⟩, fresh, needed⟩
    rcases (expands.exists_match_iff wf).2 ⟨not_not.1 fresh, needed, isMatch⟩ with
      ⟨id, live, isMatch, stands⟩
    exact ⟨id, ⟨(expands.wf.mem_evalOrder ordered).2 live, p, isMatch⟩,
      by simp [stands, Spot.node]⟩

end Reduced

end Graph

theorem Pass.mem_all (p : Pass) : p ∈ Pass.all := by
  cases p <;> decide

/-- Where all matches are needed the passes find the matches in the evaluation order. -/
theorem Graph.found_eq_matchesIn {g : Graph} {order : List Nat} (wf : g.WellFormed)
    (needs : g.NeedsMatches) (ordered : g.evalOrder = .ok order) :
    g.found = g.matchesIn order := by
  ext id
  constructor
  · intro mem
    rcases match_of_found mem with ⟨⟨p, isMatch⟩, wanted⟩
    exact ⟨(wf.mem_evalOrder ordered).2 (needs isMatch wanted).live, p, isMatch⟩
  · rintro ⟨mem, p, isMatch⟩
    have live := (wf.mem_evalOrder ordered).1 mem
    exact mem_goneAfter p.mem_all isMatch ((needs isMatch live.wanted).mono fun _ mem =>
      (match_of_found mem).1)

/-- A run on a settled graph applies nothing. -/
theorem Pass.run_of_settled_eq {p : Pass} {s s' : LoggedGraph} {budget : Option Nat} {k : Nat}
    (settled : p.Settled s.graph) (wf : s.graph.WellFormed) (run : p.run budget s = .ok k s') :
    k = 0 ∧ s'.graph = s.graph := by
  rw [Pass.run, Edit.within_eq_ok] at run
  rcases RuleSet.run_invariant (settled_invariant settled)
    (fun ordered concerned =>
      ⟨wf, rfl, rfl, fun _ mem => live_of_queued wf ordered concerned mem⟩) run with
    ⟨_, _, ⟨-, none, -⟩, -⟩
  subst none
  exact ⟨rfl, RuleSet.run_idle run⟩

namespace Optimizer

variable {o : Optimizer} {g h : Graph} {p : Pass} {passes : List Pass}
  {now away : Set Nat} {s s' : Session} {u : Unit} {left round applied : Nat}

/-! ## Turns -/

theorem isExhausted_eq_true :
    o.isExhausted applied = true ↔ ∃ limit, o.stepLimit = some limit ∧ limit ≤ applied := by
  simp [isExhausted, Option.any_eq_true]

/-- No more patches are applied than the limit allows. -/
def WithinLimit (o : Optimizer) (applied : Nat) : Prop :=
  ∀ limit, o.stepLimit = some limit → applied ≤ limit

/-- A turn takes its budget from what is left of the limit. -/
theorem keeps_withinLimit : o.Keeps fun _ count => o.WithinLimit count := by
  rintro s s' ⟨round, p, -, _, turn⟩ within limit limited
  rcases turn_eq_ok turn with ⟨-, rfl⟩ | ⟨-, applied, work, run, -, count⟩
  · exact within limit limited
  · rw [limited, Option.map_some, Pass.run, Edit.within_eq_ok] at run
    have most := RuleSet.run_le run
    have before := within limit limited
    omega

/-- The passes of the optimizer have made `h` of `g`; what they replaced is away and has been
counted. -/
structure Tallies (o : Optimizer) (g : Graph) (away : Set Nat) (h : Graph)
    (applied : Nat) : Prop where
  reduced : g.Reduced o.passes away h
  count : away.ncard = applied
  within : o.WithinLimit applied

theorem Tallies.start (wf : g.WellFormed) (acyclic : g.Acyclic) : o.Tallies g ∅ g 0 where
  reduced := ⟨_, _, wf.expands acyclic, by simp [Graph.gone], .inl ⟨rfl, rfl, rfl⟩⟩
  count := Set.ncard_empty Nat
  within := fun _ _ => Nat.zero_le _

/-- All that was to be replaced is away, or as much of it as the limit allows. -/
def Done (o : Optimizer) (goal now : Set Nat) (applied : Nat) : Prop :=
  now ⊆ goal ∧ o.stepLimit = some applied ∨ now = goal

theorem Done.subset (complete : o.Done away now applied) : now ⊆ away := by
  rcases complete with ⟨sub, -⟩ | rfl
  · exact sub
  · exact Set.Subset.refl _

/-- A turn replaces what its pass finds. -/
theorem Tallies.turn (tallies : o.Tallies g away s.work.graph s.applied) (wf : g.WellFormed)
    (mem : p ∈ o.passes) (turn : o.turn round p s = .ok u s') :
    ∃ away', o.Tallies g away' s'.work.graph s'.applied ∧
      o.Done (away ∪ p.finds g away) away' s'.applied := by
  have within : o.WithinLimit s'.applied :=
    keeps_withinLimit ⟨round, p, mem, u, turn⟩ tallies.within
  rcases turn_eq_ok turn with ⟨exhausted, rfl⟩ | ⟨-, applied, work, run, graph, count⟩
  · rcases isExhausted_eq_true.1 exhausted with ⟨limit, limited, reached⟩
    have same : limit = s'.applied := Nat.le_antisymm reached (within limit limited)
    exact ⟨away, tallies, .inl ⟨Set.subset_union_left, same ▸ limited⟩⟩
  · rcases tallies.reduced.run wf mem run with ⟨away', reduced, more, -, below, spent⟩
    rw [tallies.count, ← count] at more
    rw [← graph] at reduced
    refine ⟨away', ⟨reduced, more, within⟩, spent.imp_left fun spent => ⟨below, ?_⟩⟩
    rcases Option.map_eq_some_iff.1 spent with ⟨limit, limited, left⟩
    have before := tallies.within limit limited
    rw [limited, count, ← left, Nat.add_sub_cancel' before]

/-- When the limit is reached turns change nothing. -/
theorem eq_of_turn (limited : o.stepLimit = some s.applied)
    (turn : o.turn round p s = .ok u s') : s' = s := by
  rcases turn_eq_ok turn with ⟨-, same⟩ | ⟨going, -⟩
  · exact same
  · rw [isExhausted_eq_true.2 ⟨_, limited, Nat.le_refl _⟩] at going
    cases going

/-- A round replaces what its passes find one after another. -/
theorem Tallies.forM (tallies : o.Tallies g now s.work.graph s.applied) (wf : g.WellFormed)
    (among : passes ⊆ o.passes)
    (upTo : now ⊆ g.goneAfter passes away ∧ o.stepLimit = some s.applied ∨ now = away)
    (run : forM passes (o.turn round) s = .ok u s') :
    ∃ now', o.Tallies g now' s'.work.graph s'.applied ∧
      o.Done (g.goneAfter passes away) now' s'.applied := by
  induction passes generalizing s now away with
  | nil =>
    obtain ⟨-, rfl⟩ := Edit.pure_eq_ok.1 run
    exact ⟨now, tallies, upTo⟩
  | cons p rest ih =>
    rw [List.forM_cons, Edit.bind_eq_ok] at run
    rcases run with ⟨_, s₁, first, run⟩
    rcases List.cons_subset.1 among with ⟨mem, among⟩
    rcases upTo with ⟨sub, limited⟩ | rfl
    · have same := eq_of_turn limited first
      subst same
      exact ih tallies among (.inl ⟨sub, limited⟩) run
    · rcases tallies.turn wf mem first with ⟨now', tallies', ⟨below, limited⟩ | full⟩
      · exact ih tallies' among (.inl ⟨below.trans Graph.subset_goneAfter, limited⟩) run
      · exact ih tallies' among (.inr full) run

/-! ## Sessions -/

/-- When the limit is reached or all passes are settled, turns change nothing. -/
theorem keeps_of_stopped (wf : s.work.graph.WellFormed)
    (stopped : o.stepLimit = some s.applied ∨ ∀ p ∈ o.passes, p.Settled s.work.graph) :
    o.Keeps fun h count => h = s.work.graph ∧ count = s.applied := by
  rintro t t' ⟨round, p, mem, _, turn⟩ ⟨graph, count⟩
  rcases stopped with limited | settled
  · rw [eq_of_turn (count ▸ limited) turn]
    exact ⟨graph, count⟩
  · rcases turn_eq_ok turn with ⟨-, rfl⟩ | ⟨-, applied, work, run, graph', count'⟩
    · exact ⟨graph, count⟩
    · rw [← graph] at settled wf
      rcases Pass.run_of_settled_eq (settled p mem) wf run with ⟨rfl, same⟩
      exact ⟨graph'.trans (same.trans graph), count'.trans count⟩

/-- The first round does all that a session does. -/
theorem tallies_of_session {log : Log} (wf : g.WellFormed) (acyclic : g.Acyclic)
    (run : o.optimizeSession ⟨⟨g, log⟩, 0⟩ = .ok u s') :
    ∃ away, o.Tallies g away s'.work.graph s'.applied ∧
      o.Done (g.goneAfter o.passes ∅) away s'.applied := by
  simp only [optimizeSession, Edit.get_bind_apply] at run
  rcases rounds_eq_ok run with ⟨_, s₁, first, rest⟩
  rcases Tallies.forM (.start wf acyclic) wf (List.Subset.refl _) (.inr rfl) first with
    ⟨away, tallies, complete⟩
  rcases rest with ⟨rfl, -⟩ | ⟨left, -, rest⟩
  · exact ⟨away, tallies, complete⟩
  · have stopped : o.stepLimit = some s₁.applied ∨ ∀ p ∈ o.passes, p.Settled s₁.work.graph :=
      complete.imp And.right fun all _ mem => tallies.reduced.settled wf all mem
    rcases (keeps_of_stopped tallies.reduced.wellFormed stopped).turns
      ⟨rfl, rfl⟩ (rounds_turns rest) with
      ⟨graph, count⟩
    rw [graph, count]
    exact ⟨away, tallies, complete⟩

/-- The number of patches that are applied when so many are found. -/
theorem Done.applied_eq (complete : o.Done away now applied) (finite : away.Finite)
    (count : now.ncard = applied) (within : o.WithinLimit applied) :
    applied = o.stepLimit.elim away.ncard (min · away.ncard) := by
  have most : applied ≤ away.ncard := count ▸ Set.ncard_le_ncard complete.subset finite
  rcases complete with ⟨-, limited⟩ | rfl
  · rw [limited, Option.elim_some, Nat.min_eq_left most]
  · cases limited : o.stepLimit with
    | none => rw [Option.elim_none, count]
    | some limit => rw [Option.elim_some, count, Nat.min_eq_right (within limit limited)]

/-- A session of the optimizer with a limit or without one never applies more patches than the
limit allows, and applies as many as the passes find, up to the limit. The matches that are then
in the evaluation order are those of the beginning that have not been replaced and that the
outputs depend on though what has been replaced is not told its output shape; none is left when
all that is found has been replaced. If the outputs depend on every match anyway, the passes find
the matches in the evaluation order, and those that are left are the others. -/
theorem session_counts {cap : Option Nat} {log : Log} (built : g.Built)
    (run : { unpadding with stepLimit := cap }.optimizeSession ⟨⟨g, log⟩, 0⟩ = .ok u s') :
    (∀ limit, cap = some limit →
      ∀ s, Relation.ReflTransGen (Turns { unpadding with stepLimit := cap })
      ⟨⟨g, log⟩, 0⟩ s → s.applied ≤ limit) ∧
    s'.applied = cap.elim g.found.ncard (min · g.found.ncard) ∧
    ∃ order order' away, g.evalOrder = .ok order ∧ s'.work.graph.evalOrder = .ok order' ∧
      away ⊆ g.found ∧ away.ncard = s'.applied ∧
      (s'.work.graph.matchesIn order').ncard =
        {id | (∃ p : Pass, p.MatchAt g id) ∧ id ∉ away ∧
          g.Needed (fun n => n.id ∈ away) id}.ncard ∧
      (s'.applied = g.found.ncard → s'.work.graph.matchesIn order' = ∅) ∧
      (g.NeedsMatches → g.found.ncard = (g.matchesIn order).ncard ∧
        (s'.work.graph.matchesIn order').ncard = (g.matchesIn order).ncard - s'.applied) := by
  have wf := built.wellFormed
  rcases tallies_of_session wf built.acyclic run with ⟨away, tallies, complete⟩
  rcases wf.evalOrder_ok built.acyclic with ⟨order, ordered⟩
  rcases tallies.reduced.wellFormed.evalOrder_ok tallies.reduced.acyclic with ⟨order', ordered'⟩
  have left := tallies.reduced.ncard_matchesIn wf ordered'
  refine ⟨?_, complete.applied_eq Graph.goneAfter_finite tallies.count tallies.within, order,
    order', away, ordered, ordered', complete.subset, tallies.count, left, ?_, ?_⟩
  · intro limit capped s turns
    exact keeps_withinLimit.turns (fun _ _ => Nat.zero_le _) turns limit capped
  · intro all
    have same : away = g.found := Set.eq_of_subset_of_ncard_le complete.subset
      (by rw [tallies.count, all]) Graph.goneAfter_finite
    refine Set.eq_empty_of_forall_notMem fun id => ?_
    rintro ⟨mem, p, isMatch⟩
    have live := (tallies.reduced.wellFormed.mem_evalOrder ordered').1 mem
    exact tallies.reduced.settled wf same p.mem_all live isMatch
  · intro needs
    have found := Graph.found_eq_matchesIn wf needs ordered
    have among : away ⊆ g.matchesIn order := found ▸ complete.subset
    have finite : away.Finite := Graph.goneAfter_finite.subset complete.subset
    refine ⟨by rw [found], ?_⟩
    rw [left, ← tallies.count, ← Set.ncard_sdiff among finite]
    congr 1
    ext id
    constructor
    · rintro ⟨isMatch, fresh, needed⟩
      exact ⟨⟨(wf.mem_evalOrder ordered).2 needed.live, isMatch⟩, fresh⟩
    · rintro ⟨⟨mem, p, isMatch⟩, fresh⟩
      have wanted := ((wf.mem_evalOrder ordered).1 mem).wanted
      exact ⟨⟨p, isMatch⟩, fresh, (needs isMatch wanted).mono fun _ mem => (among mem).2⟩

/-! ## Convolutions that read each other -/

/-- How many patches a session of the optimizer applies to what is built, if it succeeds. -/
def patchCount (o : Optimizer) (build : Edit Graph Unit) : Option Nat :=
  match build .empty with
  | .ok _ g => match o.optimizeSession ⟨⟨g, []⟩, 0⟩ with
    | .ok _ s' => some s'.applied
    | .error _ _ => none
  | .error _ _ => none

theorem session_of_patchCount {build : Edit Graph Unit} (made : build .empty = .ok u g)
    (counted : o.patchCount build = some applied) :
    ∃ s', o.optimizeSession ⟨⟨g, []⟩, 0⟩ = .ok ⟨⟩ s' ∧ s'.applied = applied := by
  rw [patchCount, made] at counted
  cases run : o.optimizeSession ⟨⟨g, []⟩, 0⟩ with
  | error => simp [run] at counted
  | ok u s' =>
    simp only [run, Option.some.injEq] at counted
    exact ⟨s', rfl, counted⟩

theorem type_of_matchAt {id : Nat} (isMatch : p.MatchAt g id) :
    ∃ type, (g.nodes.map (·.op.type))[id]? = some type ∧ type ≠ .source := by
  rcases isMatch with ⟨n, there, isMatch⟩
  refine ⟨n.op.type, by rw [List.getElem?_map, there, Option.map_some], fun type => ?_⟩
  have takes := Pass.takes_of_matches isMatch
  cases op : n.op <;> simp [op, Pass.takes, Op.type] at takes type

/-- A graph that answers with a convolution that reads another one. -/
def convPair (w : Window) (data filters : List Nat) : Edit Graph Unit := do
  let data ← Graph.addSource "data" (.typed .f32 (.ofLengths data))
  let filters ← Graph.addSource "filters" (.typed .f32 (.ofLengths filters))
  let first ← Graph.wire "first" (.conv .convolution w) [data, filters]
  let second ← Graph.wire "second" (.conv .convolution w) [first, filters]
  Graph.setOutputs [second]

theorem built_convPair {w : Window} {data filters : List Nat}
    (run : convPair w data filters .empty = .ok u g) :
    g.Built := by
  simp only [convPair, Edit.bind_eq_ok] at run
  rcases run with
    ⟨_, _, addData, _, _, addFilters, first, _, wireFirst, second, _, wireSecond, answer⟩
  exact .answerLast (.wire (.source (.source .empty addData) addFilters) wireFirst) wireSecond
    answer

/-- Two matches that are both needed: a limit of one leaves one of them. -/
theorem session_counts_convPair :
    ∃ g order s' order',
      convPair ⟨[], [], [0], [1], .explicit, []⟩ [1, 1, 9] [1, 1, 2] .empty = .ok ⟨⟩ g ∧
      g.Built ∧ g.NeedsMatches ∧ g.evalOrder = .ok order ∧ (g.matchesIn order).ncard = 2 ∧
      { unpadding with stepLimit := some 1 }.optimizeSession ⟨⟨g, []⟩, 0⟩ = .ok ⟨⟩ s' ∧
      s'.applied = 1 ∧ s'.work.graph.evalOrder = .ok order' ∧
      (s'.work.graph.matchesIn order').ncard = 1 := by
  obtain ⟨g, second, made, types, outputs, there, inputs, untold⟩ : ∃ g second,
      convPair ⟨[], [], [0], [1], .explicit, []⟩ [1, 1, 9] [1, 1, 2] .empty = .ok ⟨⟩ g ∧
      g.nodes.map (·.op.type) = [.source, .source, .conv, .conv] ∧ g.outputs = [⟨3, 0⟩] ∧
      g.nodes[3]? = some second ∧ second.inputs = [⟨2, 0⟩, ⟨1, 0⟩] ∧
      second.op.takesOutputShape = false :=
    ⟨_, _, rfl, rfl, rfl, rfl, rfl, rfl⟩
  have needs : g.NeedsMatches := by
    intro p id isMatch _
    rcases type_of_matchAt isMatch with ⟨type, at_id, other⟩
    rw [types] at at_id
    have answer {stops : Node → Prop} : g.Needed stops 3 :=
      .answer (o := ⟨3, 0⟩) (by simp [outputs])
    match id, at_id with
    | 0, at_id => exact absurd (Option.some.inj at_id).symm other
    | 1, at_id => exact absurd (Option.some.inj at_id).symm other
    | 2, _ =>
      refine .read (o := ⟨2, 0⟩) answer there (by simp [inputs]) fun _ => ?_
      exact Node.mem_needs_iff.2 ⟨0, by simp [inputs], by simp [Op.NeedsSlot, untold]⟩
    | 3, _ => exact answer
  have built := built_convPair made
  have uncapped : Optimizer.patchCount { unpadding with stepLimit := none }
      (convPair ⟨[], [], [0], [1], .explicit, []⟩ [1, 1, 9] [1, 1, 2]) = some 2 := by cbv
  have capped : Optimizer.patchCount { unpadding with stepLimit := some 1 }
      (convPair ⟨[], [], [0], [1], .explicit, []⟩ [1, 1, 9] [1, 1, 2]) = some 1 := by cbv
  rcases session_of_patchCount made uncapped with ⟨s₂, run₂, applied₂⟩
  rcases session_of_patchCount made capped with ⟨s₁, run₁, applied₁⟩
  rcases session_counts built run₂ with ⟨-, all, -⟩
  rcases session_counts built run₁ with
    ⟨-, -, order, order', _, ordered, ordered', -, -, -, -, plain⟩
  rcases plain needs with ⟨found, left⟩
  rw [applied₂, Option.elim_none, found] at all
  rw [← all, applied₁] at left
  exact ⟨g, order, s₁, order', made, built, needs, ordered, all.symm, run₁,
    applied₁, ordered', left⟩

/-- At most one match is in the evaluation order, and a session applies two patches: what is
replaced is read by a match that the outputs do not depend on. -/
theorem session_applies_two_to_convChain :
    ∃ g order s', Pass.convChain ⟨[], [], [0], [1], .explicit, []⟩ [1, 1, 9] [1, 1, 2] .empty =
      .ok ⟨⟩ g ∧ g.Built ∧ g.evalOrder = .ok order ∧ (g.matchesIn order).ncard ≤ 1 ∧
      { unpadding with stepLimit := none }.optimizeSession ⟨⟨g, []⟩, 0⟩ = .ok ⟨⟩ s' ∧
      s'.applied = 2 := by
  obtain ⟨g, made, types⟩ : ∃ g,
      Pass.convChain ⟨[], [], [0], [1], .explicit, []⟩ [1, 1, 9] [1, 1, 2] .empty = .ok ⟨⟩ g ∧
      g.nodes.map (·.op.type) = [.source, .source, .conv, .conv, .conv] := ⟨_, rfl, rfl⟩
  have ordered :
      ((Pass.convChain ⟨[], [], [0], [1], .explicit, []⟩ [1, 1, 9] [1, 1, 2]).runFrom .empty >>=
      fun built => built.2.evalOrder) = .ok [0, 1, 2] := by cbv
  rw [Edit.runFrom_eq_ok.2 made] at ordered
  have counted : Optimizer.patchCount { unpadding with stepLimit := none }
      (Pass.convChain ⟨[], [], [0], [1], .explicit, []⟩ [1, 1, 9] [1, 1, 2]) = some 2 := by cbv
  rcases session_of_patchCount made counted with ⟨s', run, applied⟩
  have only : g.matchesIn [0, 1, 2] ⊆ {2} := by
    rintro id ⟨mem, p, isMatch⟩
    rcases type_of_matchAt isMatch with ⟨type, at_id, other⟩
    rw [types] at at_id
    simp only [List.mem_cons, List.not_mem_nil, or_false] at mem
    rcases mem with rfl | rfl | rfl
    · exact absurd (Option.some.inj at_id).symm other
    · exact absurd (Option.some.inj at_id).symm other
    · exact Set.mem_singleton 2
  refine ⟨g, [0, 1, 2], s', made, Pass.built_convChain made, ordered, ?_, run, applied⟩
  have le := Set.ncard_le_ncard only (Set.finite_singleton 2)
  rwa [Set.ncard_singleton] at le

end Optimizer

end EvenPad
