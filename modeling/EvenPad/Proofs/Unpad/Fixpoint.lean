import EvenPad.Proofs.Unpad.Progress
import Mathlib

/-!
What a run of a pass comes to. A match is `Pulled` if the outputs depend on it, or if something
reads it and it reads a pulled one, since the readers of what has been replaced are queued again.
`Work` relates a graph to what it has become when some of its matches are replaced. Main
statement: `Pass.run_settles`, a run replaces the pulled matches, each once, and leaves none that
the outputs depend on; another run changes nothing.
-/

namespace EvenPad

/-- There is a match of the pass at the position. -/
def Pass.MatchAt (p : Pass) (g : Graph) (id : Nat) : Prop :=
  ∃ n, g.nodes[id]? = some n ∧ g.Matches n p

/-- The matches that a run comes across: those in the evaluation order, and those that are read
and that read one of them. -/
inductive Pass.Pulled (p : Pass) (g : Graph) : Nat → Prop
  | live {id : Nat} : p.MatchAt g id → g.Live id → Pulled p g id
  | reader {id source : Nat} :
    p.MatchAt g id → g.Wanted id → g.Reads id source → Pulled p g source → Pulled p g id

/-- The outputs do not depend on any match of the pass. -/
def Pass.Settled (p : Pass) (g : Graph) : Prop := ∀ ⦃id : Nat⦄, g.Live id → ¬ p.MatchAt g id

/-- What can bring the node into the queue once some nodes are replaced. -/
def Graph.Called (g : Graph) (done : List Nat) (id : Nat) : Prop :=
  g.Live id ∨ ∃ source ∈ done, g.Reads id source

/-- The graph `g` has become `g'`: the matches in `done` are replaced, and those that are still to
be replaced are queued. -/
structure Pass.Work (p : Pass) (g : Graph) (done : List Nat) (g' : Graph)
    (queue : List Nat) : Prop where
  acyclic : g'.Acyclic
  size : g.size ≤ g'.size
  same : done = [] → g' = g
  matchAt : ∀ {id}, p.MatchAt g' id ↔ p.MatchAt g id
  live : ∀ {id}, id < g.size → g'.Live id → g.Live id
  reads : ∀ {id source}, id < g.size → source < g.size → source ∉ done →
    (g'.Reads id source ↔ g.Reads id source)
  wanted : ∀ {id}, id < g.size → id ∉ done → (g'.Wanted id ↔ g.Wanted id)
  nodup : done.Nodup
  pulled : ∀ {id}, id ∈ done → p.Pulled g id
  bypassed : ∀ {id}, id ∈ done → ¬ g'.Wanted id
  owed : ∀ {id}, p.MatchAt g id → g.Wanted id → g.Called done id → id ∈ done ∨ id ∈ queue
  queued : ∀ {id}, id ∈ queue → id < g.size → g.Called done id

namespace Pass

variable {p : Pass} {g g' g'' : Graph} {node : Node} {nodes : List Node} {σ : Signature}
  {parts : List Part} {w : Wires} {done rest queue : List Nat} {k id : Nat} {s s' : LoggedGraph}

theorem MatchAt.lt_size (isMatch : p.MatchAt g id) : id < g.size := by
  obtain ⟨n, there, -⟩ := isMatch
  exact (List.getElem?_eq_some_iff.1 there).1

theorem Pulled.matchAt (pulled : p.Pulled g id) : p.MatchAt g id := by
  cases pulled with
  | live isMatch => exact isMatch
  | reader isMatch => exact isMatch

theorem Pulled.wanted (pulled : p.Pulled g id) : g.Wanted id := by
  cases pulled with
  | live _ live => exact live.wanted
  | reader _ wanted => exact wanted

/-- A step leaves the matches where they were: what comes in is none. -/
theorem Rewrites.matchAt_iff (rewrites : p.Rewrites g node nodes k g') (wf : g.WellFormed) :
    p.MatchAt g' id ↔ p.MatchAt g id := by
  constructor
  · rintro ⟨n', there', isMatch⟩
    rcases rewrites.kept_or_came there' with ⟨n, there, -⟩ | ⟨j, rfl, -⟩
    · exact ⟨n, there, (rewrites.matches_iff wf there there').1 isMatch⟩
    · exact absurd isMatch (rewrites.not_matches_of_came there')
  · rintro ⟨n, there, isMatch⟩
    obtain ⟨n', there', -⟩ := rewrites.kept there
    exact ⟨n', there', (rewrites.matches_iff wf there there').2 isMatch⟩

namespace Work

/-- Before the first step all nodes that the outputs depend on and that the pass takes are
queued. -/
theorem start (acyclic : g.Acyclic) (live : ∀ {id}, id ∈ queue → g.Live id)
    (queued : ∀ id n, g.nodes[id]? = some n → g.Live id → p.takes n.op = true → id ∈ queue) :
    p.Work g [] g queue where
  acyclic := acyclic
  size := Nat.le_refl _
  same := fun _ => rfl
  matchAt := Iff.rfl
  live := fun _ live => live
  reads := fun _ _ _ => Iff.rfl
  wanted := fun _ _ => Iff.rfl
  nodup := .nil
  pulled := fun mem => absurd mem List.not_mem_nil
  bypassed := fun mem => absurd mem List.not_mem_nil
  owed := by
    rintro id ⟨n, there, isMatch⟩ - (live | ⟨_, mem, -⟩)
    · exact .inr (queued id n there live (takes_of_matches isMatch))
    · exact absurd mem List.not_mem_nil
  queued := fun mem _ => .inl (live mem)

/-- What is passed over is bypassed or no match, so it is not owed. -/
theorem passed (work : p.Work g done g' (id :: rest))
    (noMatch : ∀ n, g'.nodes[id]? = some n → g'.Wanted id → ¬ g'.Matches n p) :
    p.Work g done g' rest := by
  refine { work with owed := ?_, queued := fun mem => work.queued (List.mem_cons_of_mem _ mem) }
  intro i isMatch wanted called
  rcases work.owed isMatch wanted called with replaced | waits
  · exact .inl replaced
  · rcases List.mem_cons.1 waits with rfl | waits
    · by_cases replaced : i ∈ done
      · exact .inl replaced
      · obtain ⟨n, there, isMatch'⟩ := work.matchAt.2 isMatch
        have wanted' := (work.wanted isMatch.lt_size replaced).2 wanted
        exact absurd isMatch' (noMatch n there wanted')
    · exact .inr waits

/-- What is replaced was a match of the first graph, wanted and not yet replaced. -/
theorem of_applies (work : p.Work g done g' (node.id :: rest))
    (applies : p.Applies g' node σ parts rest queue g'') :
    p.MatchAt g node.id ∧ node.id ∉ done ∧ p.Pulled g node.id := by
  have isMatch : p.MatchAt g node.id := work.matchAt.1 ⟨node, applies.there, applies.isMatch⟩
  have fresh : node.id ∉ done := fun replaced => work.bypassed replaced applies.wanted
  have wanted : g.Wanted node.id := (work.wanted isMatch.lt_size fresh).1 applies.wanted
  refine ⟨isMatch, fresh, ?_⟩
  rcases work.queued List.mem_cons_self isMatch.lt_size with live | ⟨source, replaced, reads⟩
  · exact .live isMatch live
  · exact .reader isMatch wanted reads (work.pulled replaced)

/-- A step replaces one more match, and brings its readers into the queue. -/
theorem patched (work : p.Work g done g' (node.id :: rest)) (wf : g'.WellFormed)
    (applies : p.Applies g' node σ parts rest queue g'') :
    p.Work g (node.id :: done) g'' queue := by
  obtain ⟨isMatch, fresh, pulled⟩ := work.of_applies applies
  have lt : node.id < g.size := isMatch.lt_size
  have old {i : Nat} (lt : i < g.size) : i < g'.size := Nat.lt_of_lt_of_le lt work.size
  have grows : g'.size ≤ g''.size := by
    rcases Nat.eq_zero_or_pos g'.size with none | some
    · omega
    · obtain ⟨_, there, -⟩ := applies.kept (List.getElem?_eq_getElem (Nat.sub_one_lt_of_lt some))
      have lt := (List.getElem?_eq_some_iff.1 there).1
      unfold Graph.size at *
      omega
  have loopless := work.acyclic.loopless
  exact {
    acyclic := applies.acyclic wf work.acyclic
    size := Nat.le_trans work.size grows
    same := fun none => absurd none (List.cons_ne_nil _ _)
    matchAt := (applies.matchAt_iff wf).trans work.matchAt
    live := fun lt live => work.live lt ((applies.live_of_live wf live).1 (old lt))
    reads := by
      intro i source lt there notDone
      rw [List.mem_cons, not_or] at notDone
      rw [applies.reads_iff wf (old lt) (old there) notDone.1, work.reads lt there notDone.2]
    wanted := by
      intro i lt notDone
      rw [List.mem_cons, not_or] at notDone
      rw [applies.wanted_iff wf (old lt) notDone.1, work.wanted lt notDone.2]
    nodup := List.nodup_cons.2 ⟨fresh, work.nodup⟩
    pulled := by
      intro i mem
      rcases List.mem_cons.1 mem with rfl | mem
      · exact pulled
      · exact work.pulled mem
    bypassed := by
      intro i mem
      rcases List.mem_cons.1 mem with rfl | mem
      · exact applies.not_wanted wf loopless
      · have other : i ≠ node.id := fun same => fresh (same ▸ mem)
        rw [applies.wanted_iff wf (old (work.pulled mem).matchAt.lt_size) other]
        exact work.bypassed mem
    owed := by
      intro i isMatch' wanted called
      -- a reader of what has been replaced joins the queue, all others were called before
      have waits : g.Called done i → i ∈ node.id :: done ∨ i ∈ queue := by
        intro called
        rcases work.owed isMatch' wanted called with replaced | waits
        · exact .inl (List.mem_cons_of_mem _ replaced)
        · rcases List.mem_cons.1 waits with rfl | waits
          · exact .inl List.mem_cons_self
          · obtain ⟨more, rfl⟩ := applies.waiting
            exact .inr (List.mem_append_left _ waits)
      rcases called with live | ⟨source, mem, reads⟩
      · exact waits (.inl live)
      · rcases List.mem_cons.1 mem with rfl | mem
        · obtain ⟨n, there, isMatch'⟩ := work.matchAt.2 isMatch'
          have reads :=
            (work.reads (work.matchAt.1 ⟨n, there, isMatch'⟩).lt_size lt fresh).2 reads
          exact .inr (applies.readers there reads (takes_of_matches isMatch'))
        · exact waits (.inr ⟨source, mem, reads⟩)
    queued := by
      intro i mem lt'
      have before : g.Called done i → g.Called (node.id :: done) i :=
        Or.imp_right fun ⟨source, mem, reads⟩ => ⟨source, List.mem_cons_of_mem _ mem, reads⟩
      rcases applies.joined i mem with mem | came | reads
      · exact before (work.queued (List.mem_cons_of_mem _ mem) lt')
      · exact absurd (old lt') (Nat.not_lt.2 came)
      · exact .inr ⟨node.id, List.mem_cons_self, (work.reads lt' lt fresh).1 reads⟩ }

/-- No more matches are replaced than there are nodes. -/
theorem length_le (work : p.Work g done g' queue) : done.length ≤ g.size := by
  have among : done ⊆ List.range g.size :=
    fun _ mem => List.mem_range.2 (work.pulled mem).matchAt.lt_size
  have le := (List.subperm_of_subset work.nodup among).length_le
  rwa [List.length_range] at le

/-- When the queue is empty, the pulled matches are replaced. -/
theorem mem_iff (work : p.Work g done g' []) : id ∈ done ↔ p.Pulled g id := by
  refine ⟨work.pulled, fun pulled => ?_⟩
  have replaced {i : Nat} (isMatch : p.MatchAt g i) (wanted : g.Wanted i)
      (called : g.Called done i) :
      i ∈ done :=
    (work.owed isMatch wanted called).resolve_right List.not_mem_nil
  induction pulled with
  | live isMatch live => exact replaced isMatch live.wanted (.inl live)
  | reader isMatch wanted reads _ ih => exact replaced isMatch wanted (.inr ⟨_, ih, reads⟩)

theorem length_eq (work : p.Work g done g' []) : done.length = {id | p.Pulled g id}.ncard := by
  have same : {id | p.Pulled g id} = (done.toFinset : Set Nat) := by
    ext id
    rw [List.coe_toFinset, Set.mem_ofPred_eq, Set.mem_ofPred_eq, work.mem_iff]
  rw [same, Set.ncard_coe_finset, List.toFinset_card_of_nodup work.nodup]

/-- Then the outputs do not depend on any match. -/
theorem settled (work : p.Work g done g' []) : p.Settled g' := by
  intro id live isMatch
  have isMatch := work.matchAt.1 isMatch
  have called := work.live isMatch.lt_size live
  have replaced := work.mem_iff.2 (.live isMatch called)
  exact work.bypassed replaced live.wanted

end Work

/-- A compaction brings no match back. -/
theorem Settled.compacted (settled : p.Settled g) (wf : g.WellFormed)
    (compacts : g.Compacts w g') :
    p.Settled g' := by
  rintro id live ⟨m, here, isMatch⟩
  obtain ⟨o, found, live⟩ := compacts.live_of_live wf live
  obtain ⟨-, n, m', there, here', copies, -⟩ := compacts.found found
  cases here.symm.trans here'
  exact settled live ⟨n, there, (compacts.matches_iff copies wf there).1 isMatch⟩

/-- It takes none away either. -/
theorem Settled.of_compacted (settled : p.Settled g') (wf : g.WellFormed)
    (compacts : g.Compacts w g') :
    p.Settled g := by
  rintro id live ⟨n, there, isMatch⟩
  obtain ⟨o', found⟩ := Option.isSome_iff_exists.1 (compacts.live live)
  obtain ⟨-, n', m, there', here, copies, -⟩ := compacts.found found
  cases there.symm.trans there'
  exact settled (compacts.live_copy wf live found)
    ⟨m, here, (compacts.matches_iff copies wf there).2 isMatch⟩

/-! ## Runs -/

/-- All that is queued first is live. -/
theorem live_of_queued {order : List Nat} (wf : g.WellFormed) (ordered : g.evalOrder = .ok order)
    (concerned : order.filterM (RuleSet.concerns p.rules g) = .ok queue) (mem : id ∈ queue) :
    g.Live id :=
  (wf.mem_evalOrder ordered).1 ((Checked.mem_filterM concerned).1 mem).1

/-- On a settled graph nothing is done: all that is queued is live, and no match. -/
theorem settled_invariant (settled : p.Settled g) :
    RuleSet.Invariant p.rules fun applied g' queue =>
      g'.WellFormed ∧ applied = 0 ∧ g' = g ∧ ∀ id ∈ queue, g.Live id := by
  refine p.invariant (fun applied g' queue => applied = 0 ∧ g' = g ∧
    ∀ id ∈ queue, g.Live id) ?_ ?_
  · rintro applied g' id rest - ⟨zero, same, live⟩ -
    exact ⟨zero, same, fun i mem => live i (List.mem_cons_of_mem _ mem)⟩
  · rintro applied g₁ g₂ node σ parts rest queue - ⟨-, rfl, live⟩ applies
    exact absurd ⟨node, applies.there, applies.isMatch⟩ (settled (live _ List.mem_cons_self))

/-- A run on a settled graph succeeds and changes nothing. -/
theorem run_of_settled (wf : s.graph.WellFormed) (acyclic : s.graph.Acyclic)
    (settled : p.Settled s.graph) : ∃ s', p.run none s = .ok 0 s' ∧ s'.graph = s.graph := by
  have keeps := settled_invariant settled
  obtain ⟨order, ordered⟩ := wf.evalOrder_ok acyclic
  have start {order queue : List Nat} (ordered : s.graph.evalOrder = .ok order)
      (concerned : order.filterM (RuleSet.concerns p.rules s.graph) = .ok queue) :
      s.graph.WellFormed ∧ 0 = 0 ∧ s.graph = s.graph ∧ ∀ id ∈ queue, s.graph.Live id :=
    ⟨wf, rfl, rfl, fun _ mem => live_of_queued wf ordered concerned mem⟩
  obtain ⟨k, s', run⟩ := RuleSet.run_ok keeps
    (by
      rintro applied t id rest ⟨wf, -, same, live⟩
      rw [← same] at settled live
      have live := live id List.mem_cons_self
      have there := List.getElem?_eq_getElem (wf.lt_size_of_live live)
      refine step_ok wf there fun _ σ signed isMatch => ?_
      exact absurd ⟨_, there, σ, signed, isMatch⟩ (settled live))
    (by
      rintro applied t t' id rest touched ⟨wf, -, same, live⟩ step
      rw [← same] at settled live
      obtain ⟨n, rule, patch, there, -, mem, -, proposes, -⟩ := RuleSet.step_eq_some step
      obtain rfl := wf.id_eq there
      exact absurd ⟨n, there, matches_of_proposes wf there mem proposes⟩
        (settled (live n.id List.mem_cons_self)))
    1 wf ordered (start ordered)
    (by
      rintro applied g queue ⟨-, rfl, -⟩ some
      exact absurd some (Nat.lt_irrefl _))
  have same := RuleSet.run_congr 1 0 keeps
    (by
      rintro applied g queue ⟨-, rfl, -⟩
      exact Nat.le_refl _) start Nat.one_pos
    (by
      unfold RuleSet.patience
      exact Nat.lt_of_lt_of_le (by decide) (Nat.le_add_right _ _))
  obtain ⟨g, rest, ⟨-, rfl, rfl, -⟩, -, ended⟩ := RuleSet.run_invariant keeps start run
  rw [if_neg (Nat.lt_irrefl _)] at ended
  refine ⟨s', ?_, ended⟩
  rw [Pass.run, Edit.within_eq_ok, ← same, run]

theorem work_invariant : RuleSet.Invariant p.rules fun applied g' queue =>
    g'.WellFormed ∧ ∃ done, done.length = applied ∧ p.Work g done g' queue := by
  refine p.invariant
    (fun applied g' queue => ∃ done, done.length = applied ∧ p.Work g done g' queue) ?_ ?_
  · rintro applied g' id rest - ⟨done, length, work⟩ noMatch
    exact ⟨done, length, work.passed noMatch⟩
  · rintro applied g₁ g₂ node σ parts rest queue wf ⟨done, rfl, work⟩ applies
    exact ⟨node.id :: done, rfl, work.patched wf applies⟩

theorem Work.started {order : List Nat} (wf : g.WellFormed) (acyclic : g.Acyclic)
    (ordered : g.evalOrder = .ok order)
    (concerned : order.filterM (RuleSet.concerns p.rules g) = .ok queue) :
    g.WellFormed ∧ ∃ done, done.length = 0 ∧ p.Work g done g queue := by
  refine ⟨wf, [], rfl, .start acyclic (live_of_queued wf ordered concerned) ?_⟩
  intro id n there live takes
  rw [Checked.mem_filterM concerned]
  exact ⟨(wf.mem_evalOrder ordered).2 live, concerns_of_takes there takes⟩

/-- A run without a budget comes to an end by itself: a budget of more patches than there are
nodes is as good as none. -/
theorem run_ends {budget : Nat} (wf : s.graph.WellFormed) (acyclic : s.graph.Acyclic)
    (enough : s.graph.size < budget) : p.run none s = p.run (some budget) s := by
  have same := RuleSet.run_congr (r := p.rules) budget s.graph.size work_invariant
    (by
      rintro applied g queue ⟨-, done, rfl, work⟩
      exact work.length_le) (Work.started wf acyclic) enough
    (by
      unfold RuleSet.patience
      exact Nat.lt_add_of_pos_left (by decide))
  unfold Pass.run Edit.within
  rw [same]

/-- It ends when all work is done. -/
theorem run_work (wf : s.graph.WellFormed) (acyclic : s.graph.Acyclic)
    (run : p.run none s = .ok k s') :
    ∃ done g, done.length = k ∧ g.WellFormed ∧ p.Work s.graph done g [] ∧
      if 0 < k then ∃ w, g.Compacts w s'.graph else s'.graph = g := by
  rw [Pass.run, Edit.within_eq_ok] at run
  obtain ⟨g, rest, ⟨wf', done, rfl, work⟩, finished, ended⟩ :=
    RuleSet.run_invariant work_invariant (Work.started wf acyclic) run
  obtain rfl := finished.resolve_right (by simp)
  refine ⟨done, g, rfl, wf', work, ?_⟩
  split at ended
  · next some =>
    obtain ⟨log, log', compacted⟩ := ended
    rw [if_pos some]
    exact wf'.compacts compacted
  · next none =>
    rw [if_neg none]
    exact ended

/-- A run on a graph that is built comes to an end by itself. If it succeeds, it has replaced the
pulled matches, each once; what it leaves is settled, is what there was if nothing has been
replaced, and is left alone by another run. -/
theorem run_settles (built : s.graph.Built) :
    (∀ budget, s.graph.size < budget → p.run none s = p.run (some budget) s) ∧
    ∀ k s', p.run none s = .ok k s' →
      k = {id | p.Pulled s.graph id}.ncard ∧
      (∃ order, s'.graph.evalOrder = .ok order ∧ ∀ id ∈ order, ¬ p.MatchAt s'.graph id) ∧
      (k = 0 → s'.graph = s.graph) ∧
      ∃ s'', p.run none s' = .ok 0 s'' ∧ s''.graph = s'.graph := by
  refine ⟨fun budget enough => run_ends built.wellFormed built.acyclic enough, ?_⟩
  intro k s' run
  obtain ⟨done, g, rfl, wf, work, ended⟩ := run_work built.wellFormed built.acyclic run
  obtain ⟨wf', acyclic, settled, unchanged⟩ : s'.graph.WellFormed ∧ s'.graph.Acyclic ∧
      p.Settled s'.graph ∧ (done.length = 0 → s'.graph = s.graph) := by
    split at ended
    · next some =>
      obtain ⟨w, compacts⟩ := ended
      exact ⟨compacts.wellFormed wf, compacts.acyclic wf work.acyclic,
        work.settled.compacted wf compacts, fun none => absurd some (by omega)⟩
    · rw [ended]
      exact ⟨wf, work.acyclic, work.settled,
        fun none => work.same (List.length_eq_zero_iff.1 none)⟩
  obtain ⟨order, ordered⟩ := wf'.evalOrder_ok acyclic
  refine ⟨work.length_eq, ⟨order, ordered, fun id mem => ?_⟩, unchanged,
    run_of_settled wf' acyclic settled⟩
  exact settled ((wf'.mem_evalOrder ordered).1 mem)

/-- One convolution is replaced, and none is left. -/
theorem run_settles_oneConv :
    ∃ g s', Unpad.oneConv ⟨[2], [], [0], [1], .explicit, []⟩ [1, 1, 3] [1, 1, 2] .empty =
      .ok ⟨⟩ g ∧ g.Built ∧ Pass.conv.run none ⟨g, []⟩ = .ok 1 s' ∧
      (∀ budget, g.size < budget → Pass.conv.run (some budget) ⟨g, []⟩ = .ok 1 s') ∧
      {id | Pass.conv.Pulled g id}.ncard = 1 ∧
      (∃ order, s'.graph.evalOrder = .ok order ∧ ∀ id ∈ order, ¬ Pass.conv.MatchAt s'.graph id) ∧
      ∃ s'', Pass.conv.run none s' = .ok 0 s'' ∧ s''.graph = s'.graph := by
  obtain ⟨g, made⟩ : ∃ g,
      Unpad.oneConv ⟨[2], [], [0], [1], .explicit, []⟩ [1, 1, 3] [1, 1, 2] .empty = .ok ⟨⟩ g :=
    ⟨_, rfl⟩
  have counted : Pass.conv.patchCount
      (Unpad.oneConv ⟨[2], [], [0], [1], .explicit, []⟩ [1, 1, 3] [1, 1, 2]) = some 1 := by cbv
  obtain ⟨s', run⟩ := Pass.run_of_patchCount made counted
  have built := Unpad.built_oneConv made
  obtain ⟨ends, settles⟩ := run_settles (p := .conv) (s := ⟨g, []⟩) built
  obtain ⟨count, settled, -, again⟩ := settles 1 s' run
  exact ⟨g, s', made, built, run, fun budget enough => ends budget enough ▸ run, count.symm,
    settled, again⟩

/-! ## A chain that the outputs do not need -/

/-- A graph that answers with a convolution, which a second one reads, which a third one reads. -/
def convChain (w : Window) (data filters : List Nat) : Edit Graph Unit := do
  let data ← Graph.addSource "data" (.typed .f32 (.ofLengths data))
  let filters ← Graph.addSource "filters" (.typed .f32 (.ofLengths filters))
  let kept ← Graph.wire "kept" (.conv .convolution w) [data, filters]
  let first ← Graph.wire "first" (.conv .convolution w) [kept, filters]
  let _ ← Graph.wire "second" (.conv .convolution w) [first, filters]
  Graph.setOutputs [kept]

theorem built_convChain {w : Window} {data filters : List Nat} {u : Unit}
    (run : convChain w data filters .empty = .ok u g) : g.Built := by
  simp only [convChain, Edit.bind_eq_ok] at run
  obtain ⟨_, _, addData, _, _, addFilters, kept, _, wireKept, _, _, wireFirst, _, _, wireSecond,
    answer⟩ := run
  refine .answer
    (.wire (.wire (.wire (.source (.source .empty addData) addFilters) wireKept) wireFirst)
    wireSecond) ?_ answer
  intro o mem
  cases List.mem_singleton.1 mem
  exact Graph.isSome_wire (Graph.isSome_wire (Graph.isSome_of_wire wireKept) wireFirst) wireSecond

/-- One match is in the evaluation order, and two are replaced: the second convolution is queued
when what it reads is replaced, and the third reads it. -/
theorem run_replaces_two_of_convChain :
    ∃ g order s',
      convChain ⟨[], [], [0], [1], .explicit, []⟩ [1, 1, 9] [1, 1, 2] .empty = .ok ⟨⟩ g ∧
      g.Built ∧ g.evalOrder = .ok order ∧ {id | id ∈ order ∧ Pass.conv.MatchAt g id}.ncard = 1 ∧
      Pass.conv.run none ⟨g, []⟩ = .ok 2 s' := by
  set σ : Signature := ⟨"kept", .conv .convolution ⟨[], [], [0], [1], .explicit, []⟩,
    [.typed .f32 (.ofLengths [1, 1, 9]), .typed .f32 (.ofLengths [1, 1, 2])],
    .typed .f32 (.ofLengths [1, 1, 9])⟩ with σ_eq
  obtain ⟨g, node, made, types, there, name, op, known, facts⟩ : ∃ g node,
      convChain ⟨[], [], [0], [1], .explicit, []⟩ [1, 1, 9] [1, 1, 2] .empty = .ok ⟨⟩ g ∧
      g.nodes.map (·.op.type) = [.source, .source, .conv, .conv, .conv] ∧
      g.nodes[2]? = some node ∧ node.name = σ.name ∧ node.op = σ.op ∧
      node.inputs.map g.fact? = σ.operands.map some ∧ node.facts = [σ.fact] :=
    ⟨_, _, rfl, rfl, rfl, rfl, rfl, rfl, rfl⟩
  have counted : Pass.conv.patchCount
      (convChain ⟨[], [], [0], [1], .explicit, []⟩ [1, 1, 9] [1, 1, 2]) = some 2 := by cbv
  have ordered :
      ((convChain ⟨[], [], [0], [1], .explicit, []⟩ [1, 1, 9] [1, 1, 2]).runFrom .empty >>=
      fun built => built.2.evalOrder) = .ok [0, 1, 2] := by cbv
  rw [Edit.runFrom_eq_ok.2 made] at ordered
  obtain ⟨s', run⟩ := run_of_patchCount made counted
  have isMatch : g.Matches node .conv :=
    ⟨σ, .of_map name op known facts, rfl, _, .conv rfl, rfl, rfl,
      by simp [σ_eq, Op.isTransposed]⟩
  have only : {id | id ∈ [0, 1, 2] ∧ Pass.conv.MatchAt g id} = {2} := by
    ext id
    simp only [Set.mem_ofPred_eq, Set.mem_singleton_iff]
    constructor
    · rintro ⟨mem, n, here, isMatch⟩
      have takes := takes_of_matches isMatch
      have type : (g.nodes.map (·.op.type))[id]? = some n.op.type := by
        rw [List.getElem?_map, here, Option.map_some]
      rw [types] at type
      simp only [List.mem_cons, List.not_mem_nil, or_false] at mem
      rcases mem with rfl | rfl | rfl
      · cases op : n.op <;> simp [op, Pass.takes, Op.type] at takes type
      · cases op : n.op <;> simp [op, Pass.takes, Op.type] at takes type
      · rfl
    · rintro rfl
      exact ⟨by simp, node, there, isMatch⟩
  exact ⟨g, [0, 1, 2], s', made, built_convChain made, ordered,
    by rw [only, Set.ncard_singleton], run⟩

end Pass

end EvenPad
