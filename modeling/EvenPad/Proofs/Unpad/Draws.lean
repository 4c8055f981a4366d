import EvenPad.Proofs.Graph.Draws
import EvenPad.Proofs.Graph.Inputs
import EvenPad.Proofs.Interface
import EvenPad.Proofs.Reachable
import EvenPad.Proofs.Unpad.Fixpoint

/-!
What the outputs of a graph draw on, through runs of a pass. A rewriting step is followed along
paths: a path leads past what has been replaced through what came in for it, unless it leads to
the output shape that a match was told. Main statement: `Pass.run_keeps_draws`, where no match
that the outputs depend on is an input, they depend on the inputs that they did, apart from those
that tell a match its output shape. What takes over from a match is no input
(`Pass.run_bypasses_input`).
-/

namespace EvenPad

open Relation

namespace Graph

variable {g g' : Graph} {node n : Node} {nodes : List Node}
  {k id source start target : Nat} {o : Outlet} {l : List Outlet} {stops stops' : Node → Prop}

/-- What the outputs depend on is live, whatever the inputs are. -/
theorem live_of_demandedBut (demanded : (g.withInputs l).DemandedBut stops id) : g.Live id := by
  obtain ⟨o, answer, path⟩ := demanded
  induction path with
  | refl => exact .answer answer
  | tail _ depends ih =>
    obtain ⟨-, n, o, there, read, -, rfl⟩ := depends
    exact .read ih there read

/-! ## Steps -/

/-- The node that stands at the place of a node after a step: what has taken over, or the node
itself. -/
def heir (g : Graph) (node : Node) (k id : Nat) : Nat := if id = node.id then g.size + k else id

/-- The node at whose place a node came in, or the node itself. -/
def origin (g : Graph) (node : Node) (id : Nat) : Nat := if id < g.size then id else node.id

theorem heir_of_ne (other : id ≠ node.id) : g.heir node k id = id := if_neg other

theorem redirect_node (slot : o.slot = 0) :
    (Outlet.redirect ⟨node.id, 0⟩ ⟨g.size + k, 0⟩ o).node = g.heir node k o.node := by
  obtain ⟨id, _⟩ := o
  obtain rfl : _ = 0 := slot
  simp only [Outlet.redirect, heir, Outlet.mk.injEq, and_true]
  split <;> rfl

theorem origin_heir (lt : id < g.size) : g.origin node (g.heir node k id) = id := by
  unfold heir
  split
  · next replaced => rw [origin, if_neg (Nat.not_lt.2 (Nat.le_add_right _ _)), replaced]
  · rw [origin, if_pos lt]

namespace Rewritten

variable (rewritten : g.Rewritten node nodes k g') (wf : g.WellFormed)
include rewritten wf

/-- Where a node depends on another one, its heir depends on the heir of that, if the node stops
that is replaced and no node that comes in does. -/
theorem path_of_dependsBut (loopless : g.Loopless)
    (kept : ∀ {id : Nat} {n n' : Node}, g.nodes[id]? = some n → g'.nodes[id]? = some n' →
      stops' n' → stops n)
    (here : stops node)
    (came : ∀ {j : Nat} {n : Node}, g'.nodes[g.size + j]? = some n → ¬ stops' n)
    (old : ∀ o ∈ l, o.node < g.size) (depends : (g.withInputs l).DependsBut stops id source) :
    ReflTransGen ((g'.withInputs l).DependsBut stops') (g.heir node k id)
      (g.heir node k source) := by
  obtain ⟨inner, n, o, there, read, needs, rfl⟩ := depends
  obtain ⟨slot, -⟩ := wf.read_eq there read
  by_cases replaced : id = node.id
  · subst replaced
    cases there.symm.trans rewritten.there
    have other : o.node ≠ node.id := loopless there read
    rw [heir, if_pos rfl, heir_of_ne other]
    -- what came in hands on to all that the node needs
    refine rewritten.covers (S := ReflTransGen _ (g.size + k)) ?_ .refl o (needs here)
    intro j m x new path reads
    obtain ⟨m', there', rfl⟩ := rewritten.came new
    refine path.tail ⟨fun input => ?_, m', x, there', reads,
      fun stop => absurd stop (came there'), rfl⟩
    exact absurd (old _ input) (Nat.not_lt.2 (Nat.le_add_right _ _))
  · obtain ⟨n', there', keeps, inputs⟩ := rewritten.kept there
    rw [← redirect_node slot, heir_of_ne replaced]
    refine .single ⟨inner, n', _, there', ?_, fun stop => ?_, rfl⟩
    · rw [inputs]
      exact List.mem_map_of_mem read
    · rw [keeps.needs_eq inputs]
      exact List.mem_map_of_mem (needs (kept there there' stop))

/-- What the heir of a node depends on stands at the place of something that the node depended on,
if that does not lead through an input that is replaced. -/
theorem path_of_heir
    (kept : ∀ {id : Nat} {n n' : Node}, g.nodes[id]? = some n → g'.nodes[id]? = some n' →
      stops n → stops' n')
    (lt : start < g.size)
    (apart : ReflTransGen ((g.withInputs l).DependsBut stops) start node.id → ⟨node.id, 0⟩ ∉ l)
    (path : ReflTransGen ((g'.withInputs l).DependsBut stops') (g.heir node k start) target) :
    ReflTransGen ((g.withInputs l).DependsBut stops) start (g.origin node target) := by
  induction path with
  | refl =>
    rw [origin_heir lt]
  | tail _ depends ih =>
    obtain ⟨inner, n, o, there, read, needs, rfl⟩ := depends
    rcases rewritten.kept_or_came there with ⟨m, before, keeps, inputs⟩ | ⟨j, rfl, new⟩
    · have old : _ < g.size := (List.getElem?_eq_some_iff.1 before).1
      rw [origin, if_pos old] at ih
      obtain ⟨x, reads, need, rfl⟩ := keeps.exists_read inputs (kept before there) read needs
      obtain ⟨slot, lt⟩ := wf.read_eq before reads
      rw [redirect_node slot, origin_heir lt]
      exact ih.tail ⟨inner, m, x, before, reads, need, rfl⟩
    · rw [origin, if_neg (Nat.not_lt.2 (Nat.le_add_right _ _))] at ih
      rcases rewritten.reads new read with ⟨ge, -⟩ | need
      · rwa [origin, if_neg (Nat.not_lt.2 ge)]
      · have reads := Node.mem_inputs_of_mem_needs need
        rw [origin, if_pos (wf.read_eq rewritten.there reads).2]
        exact ih.tail ⟨apart ih, node, o, rewritten.there, reads, fun _ => need, rfl⟩

end Rewritten

end Graph

/-- The graph `g` with inputs `l` has become `h`, with the same inputs: the outputs depend on the
inputs that they depended on when the matches read what they need only, and the matches that they
depend on still are queued. -/
structure Pass.Draws (p : Pass) (g : Graph) (l : List Outlet) (h : Graph)
    (queue : List Nat) : Prop where
  acyclic : h.Acyclic
  there : ∀ o ∈ l, (h.output? o).isSome
  matchAt : ∀ {id}, p.MatchAt h id ↔ p.MatchAt g id
  draws : List.Forall₂ (fun o o' => ∀ id, ⟨id, 0⟩ ∈ l →
    (ReflTransGen ((h.withInputs l).DependsBut (h.Matches · p)) o'.node id ↔
      ReflTransGen ((g.withInputs l).DependsBut (g.Matches · p)) o.node id)) g.outputs h.outputs
  queued : ∀ {id}, p.MatchAt h id → (h.withInputs l).DemandedBut (h.Matches · p) id → id ∈ queue

namespace Pass.Draws

variable {p : Pass} {g h h' : Graph} {l : List Outlet} {node : Node} {nodes : List Node}
  {k id : Nat} {rest queue more : List Nat}

theorem old (draws : p.Draws g l h queue) (o : Outlet) (input : o ∈ l) : o.node < h.size :=
  Graph.lt_size_of_isSome (draws.there o input)

theorem passed (draws : p.Draws g l h (id :: rest))
    (noMatch : ∀ n, h.nodes[id]? = some n → h.Wanted id → ¬ h.Matches n p) :
    p.Draws g l h rest := by
  refine { draws with queued := fun {i} isMatch demanded => ?_ }
  rcases List.mem_cons.1 (draws.queued isMatch demanded) with rfl | mem
  · obtain ⟨n, there, isMatch⟩ := isMatch
    exact absurd isMatch (noMatch n there (Graph.live_of_demandedBut demanded).wanted)
  · exact mem

/-- A match that is replaced is no input, if the outputs depend on it. -/
theorem apart (draws : p.Draws g l h queue)
    (free : ∀ o ∈ l, (g.withInputs l).DemandedBut (g.Matches · p) o.node → ¬ p.MatchAt g o.node)
    (isMatch : p.MatchAt h id) (demanded : (h.withInputs l).DemandedBut (h.Matches · p) id) :
    ⟨id, 0⟩ ∉ l := by
  intro input
  obtain ⟨o', answer', path'⟩ := demanded
  obtain ⟨o, answer, same⟩ := forall₂_of_mem draws.draws.flip answer'
  exact free _ input ⟨o, answer, (same id input).1 path'⟩ (draws.matchAt.1 isMatch)

theorem patched (draws : p.Draws g l h (node.id :: rest)) (wf : h.WellFormed)
    (free : ∀ o ∈ l, (g.withInputs l).DemandedBut (g.Matches · p) o.node → ¬ p.MatchAt g o.node)
    (rewrites : p.Rewrites h node nodes k h') : p.Draws g l h' (rest ++ more) := by
  have loopless := draws.acyclic.loopless
  have isMatch : p.MatchAt h node.id := ⟨node, rewrites.there, rewrites.isMatch⟩
  have answered {o : Outlet} (answer : o ∈ h.outputs) :
      (Outlet.redirect ⟨node.id, 0⟩ ⟨h.size + k, 0⟩ o).node = h.heir node k o.node :=
    Graph.redirect_node (wf.answer_eq answer).1
  have back {o : Outlet} (answer : o ∈ h.outputs) {t : Nat} (lt : t < h.size)
      (path : ReflTransGen ((h'.withInputs l).DependsBut (h'.Matches · p))
        (h.heir node k o.node) t) :
      ReflTransGen ((h.withInputs l).DependsBut (h.Matches · p)) o.node t := by
    have path :=
      rewrites.path_of_heir wf (fun there there' => (rewrites.matches_iff wf there there').2)
      (wf.answer_eq answer).2 (fun path => draws.apart free isMatch ⟨o, answer, path⟩) path
    rwa [Graph.origin, if_pos lt] at path
  have onward {o : Outlet} {t : Nat} (other : t ≠ node.id)
      (path : ReflTransGen ((h.withInputs l).DependsBut (h.Matches · p)) o.node t) :
      ReflTransGen ((h'.withInputs l).DependsBut (h'.Matches · p)) (h.heir node k o.node) t := by
    rw [← Graph.heir_of_ne (g := h) (k := k) other]
    exact ReflTransGen.lift' (h.heir node k) (fun _ _ => rewrites.path_of_dependsBut wf loopless
      (fun there there' => (rewrites.matches_iff wf there there').1) rewrites.isMatch
      (fun there => rewrites.not_matches_of_came there) draws.old) _ _ path
  exact {
    acyclic := rewrites.acyclic wf draws.acyclic
    there := by
      intro o mem
      obtain ⟨fact, known⟩ := Graph.isSome_output?_iff_fact?.1 (draws.there o mem)
      exact Graph.isSome_output?_iff_fact?.2 ⟨fact, rewrites.fact?_kept known⟩
    matchAt := (rewrites.matchAt_iff wf).trans draws.matchAt
    draws := by
      rw [rewrites.outputs_eq, List.forall₂_map_right_iff]
      refine forall₂_join draws.draws (List.forall₂_same.2 fun o _ => Eq.refl o) ?_
      rintro o o' _ - answer same rfl id input
      rw [answered answer, ← same id input]
      refine ⟨back answer (draws.old _ input), fun path => onward ?_ path⟩
      -- an input that the outputs depend on is not replaced
      rintro rfl
      exact draws.apart free isMatch ⟨_, answer, path⟩ input
    queued := by
      rintro id isMatch' ⟨o', answer', path'⟩
      have wasMatch : p.MatchAt h id := (rewrites.matchAt_iff wf).1 isMatch'
      have live := Graph.live_of_demandedBut ⟨o', answer', path'⟩
      rw [Graph.withInputs_outputs, rewrites.outputs_eq] at answer'
      obtain ⟨o, answer, rfl⟩ := List.mem_map.1 answer'
      rw [answered answer] at path'
      rcases List.mem_cons.1 (draws.queued wasMatch
        ⟨o, answer, back answer wasMatch.lt_size path'⟩) with
        rfl | mem
      · exact absurd live (rewrites.dead wf loopless)
      · exact List.mem_append_left _ mem }

end Pass.Draws

namespace Pass

variable {p : Pass} {g h : Graph} {l : List Outlet} {s s' : LoggedGraph} {k : Nat}

/-- The rules of a pass do not look at the inputs of a graph. -/
theorem ignoresInputs (p : Pass) : RuleSet.IgnoresInputs p.rules := by
  intro rule mem g node l
  cases p with
  | groupConvBackprop => rcases List.mem_pair.1 mem with rfl | rfl <;> rfl
  | _ =>
    obtain rfl := List.mem_singleton.1 mem
    rfl

/-- Steps of the queue keep what the outputs draw on, if no input that they draw on is a match. -/
theorem draws_invariant
    (free : ∀ o ∈ l, (g.withInputs l).DemandedBut (g.Matches · p) o.node → ¬ p.MatchAt g o.node) :
    RuleSet.Invariant p.rules fun _ h queue => h.WellFormed ∧ p.Draws g l h queue :=
  p.invariant (fun _ h queue => p.Draws g l h queue) (fun _ draws noMatch => draws.passed noMatch)
    fun wf draws applies => by
      obtain ⟨more, rfl⟩ := applies.waiting
      exact draws.patched wf free applies.toRewrites

@[simp] theorem matches_withInputs {n : Node} : (g.withInputs l).Matches n p ↔ g.Matches n p :=
  ⟨fun ⟨σ, signed, isMatch⟩ =>
    ⟨σ, ⟨signed.name, signed.op, signed.operands, signed.facts⟩, isMatch⟩,
    fun ⟨σ, signed, isMatch⟩ =>
      ⟨σ, ⟨signed.name, signed.op, signed.operands, signed.facts⟩, isMatch⟩⟩

@[simp] theorem matchAt_withInputs {id : Nat} : p.MatchAt (g.withInputs l) id ↔ p.MatchAt g id :=
  exists_congr fun _ => and_congr_right fun _ => matches_withInputs

/-- Before the first step. -/
theorem Draws.start {order queue : List Nat} (built : g.Built)
    (there : ∀ o ∈ l, (g.output? o).isSome) (ordered : (g.withInputs l).evalOrder = .ok order)
    (concerned : order.filterM (RuleSet.concerns p.rules (g.withInputs l)) = .ok queue) :
    p.Draws g l g queue where
  acyclic := built.acyclic
  there := there
  matchAt := Iff.rfl
  draws := List.forall₂_same.2 fun _ _ _ _ => Iff.rfl
  queued := by
    rintro id ⟨n, here, isMatch⟩ demanded
    have referenced := built.wellFormed.referenced_withInputs there
    rw [Checked.mem_filterM concerned]
    exact ⟨referenced.mem_evalOrder_of_demanded ordered demanded.demanded,
      concerns_of_takes (g := g.withInputs l) here (takes_of_matches isMatch)⟩

/-- When the queue is empty, no match is left that the outputs depend on. -/
theorem Draws.drawsOn (wf : h.WellFormed) (draws : p.Draws g l h []) : List.Forall₂
    (fun o o' => ∀ i, (h.withInputs l).DrawsOn o' i ↔
      (g.withInputs l).DrawsBut (g.Matches · p) o i)
    g.outputs h.outputs := by
  refine forall₂_join draws.draws (List.forall₂_same.2 fun o _ => Eq.refl o) ?_
  rintro o o' _ - answer same rfl i
  have goesOn : ∀ id n, (h.withInputs l).DemandedBut (h.Matches · p) id → h.nodes[id]? = some n →
      ¬ h.Matches n p := fun id n demanded there isMatch =>
    absurd (draws.queued ⟨n, there, isMatch⟩ demanded) List.not_mem_nil
  refine (Graph.drawsBut_iff (g := h.withInputs l) answer goesOn).symm.trans ?_
  refine exists_congr fun input => and_congr_right fun listed => same input.node ?_
  have mem := List.mem_of_getElem? listed
  rwa [← ((wf.referenced_withInputs draws.there).sources mem).1]

/-- After a run of a pass each output depends on the inputs that it depended on, if the matches
are taken to read what they need only: an output shape is told by a constant afterwards. No input
that the outputs depend on may be a match, since what takes over from a match does not become an
input in its place. -/
theorem run_keeps_draws (built : s.graph.BuiltFreely)
    (free : ∀ o ∈ s.graph.inputs, s.graph.DemandedBut (s.graph.Matches · p) o.node →
      ¬ p.MatchAt s.graph o.node)
    (run : p.run none s = .ok k s') :
    s'.graph.inputs.length = s.graph.inputs.length ∧
      List.Forall₂ (fun o o' => ∀ i, s'.graph.DrawsOn o' i ↔
        s.graph.DrawsBut (s.graph.Matches · p) o i)
        s.graph.outputs s'.graph.outputs ∧
      ((∀ n ∈ s.graph.nodes, s.graph.Matches n p → n.op.takesOutputShape = false) →
        List.Forall₂ (fun o o' => ∀ i, s'.graph.DrawsOn o' i ↔ s.graph.DrawsOn o i)
          s.graph.outputs s'.graph.outputs) := by
  obtain ⟨g, log⟩ := s
  obtain ⟨h, l, rebuilt, there, rfl⟩ := built.exists_built
  have starts {order queue : List Nat} (ordered : (h.withInputs l).evalOrder = .ok order)
      (concerned : order.filterM (RuleSet.concerns p.rules (h.withInputs l)) = .ok queue) :
      ∃ h', h.withInputs l = h'.withInputs l ∧ h'.WellFormed ∧ p.Draws h l h' queue :=
    ⟨h, rfl, rebuilt.wellFormed, .start rebuilt there ordered concerned⟩
  simp only [matches_withInputs, matchAt_withInputs] at free ⊢
  rw [Pass.run, Edit.within_eq_ok] at run
  obtain ⟨_, rest, ⟨g, rfl, wf, draws⟩, finished, ended⟩ :=
    RuleSet.run_invariant ((draws_invariant free).withInputs p.ignoresInputs l) starts run
  obtain rfl := finished.resolve_right (by simp)
  have kept : s'.graph.inputs.length = l.length ∧ List.Forall₂
      (fun o o' => ∀ i, s'.graph.DrawsOn o' i ↔ (h.withInputs l).DrawsBut (h.Matches · p) o i)
      h.outputs s'.graph.outputs := by
    split at ended
    · obtain ⟨log, log', compacted⟩ := ended
      have referenced := wf.referenced_withInputs draws.there
      obtain ⟨order, kept, unused, r, carrying⟩ := Graph.compacted_eq_ok referenced compacted
      refine ⟨carrying.inputs.length_eq.symm, ?_⟩
      exact forall₂_trans (fun one two i => (two i).trans (one i)) (draws.drawsOn wf)
        (carrying.draws referenced)
    · rw [ended]
      exact ⟨rfl, draws.drawsOn wf⟩
  refine ⟨kept.1, kept.2, fun whole => kept.2.imp fun o o' same i => (same i).trans ?_⟩
  exact Graph.drawsBut_of_needs whole

/-! ## Inputs inside a graph -/

/-- Two convolutions, of which the second one is uneven and the first one is taken for an
input. -/
def innerInput : Edit Graph Unit := do
  let data ← Graph.addSource "data" (.typed .f32 (.ofLengths [1, 1, 4]))
  let filters ← Graph.addSource "filters" (.typed .f32 (.ofLengths [1, 1, 2]))
  let even ← Graph.wire "even"
      (.conv .convolution ⟨[], [], [0], [0], .explicit, []⟩) [data, filters]
  let uneven ← Graph.wire "uneven"
      (.conv .convolution ⟨[], [], [0], [1], .explicit, []⟩) [even, filters]
  Graph.setOutputs [uneven]
  Graph.setInputs [filters, even]

theorem builtFreely_innerInput {u : Unit} (run : innerInput .empty = .ok u g) :
    g.BuiltFreely := by
  simp only [innerInput, Edit.bind_eq_ok] at run
  obtain ⟨_, _, addData, filters, _, addFilters, even, _, wireEven, uneven, _, wireUneven, _, _,
      answer, ask⟩ := run
  refine .ask
    (.answer (.wire (.wire (.source (.source .empty addData) addFilters) wireEven) wireUneven)
    ?_ answer) ?_ ask
  · intro o mem
    cases List.mem_singleton.1 mem
    exact Graph.isSome_of_wire wireUneven
  · have thereFilters := Graph.isSome_wire
      (Graph.isSome_wire (Graph.isSome_of_addSource addFilters) wireEven) wireUneven
    have thereEven := Graph.isSome_wire (Graph.isSome_of_wire wireEven) wireUneven
    cases answer
    intro o mem
    rcases List.mem_pair.1 mem with rfl | rfl
    · exact thereFilters
    · exact thereEven

theorem run_keeps_draws_innerInput :
    ∃ g s', innerInput .empty = .ok ⟨⟩ g ∧ g.BuiltFreely ∧
      (∀ o ∈ g.inputs, g.DemandedBut (g.Matches · .conv) o.node → ¬ Pass.conv.MatchAt g o.node) ∧
      Pass.conv.run none ⟨g, []⟩ = .ok 1 s' ∧ s'.graph.inputs.length = g.inputs.length ∧
      List.Forall₂ (fun o o' => ∀ i, s'.graph.DrawsOn o' i ↔ g.DrawsBut (g.Matches · .conv) o i)
        g.outputs s'.graph.outputs ∧
      ((∀ n ∈ g.nodes, g.Matches n .conv → n.op.takesOutputShape = false) →
        List.Forall₂ (fun o o' => ∀ i, s'.graph.DrawsOn o' i ↔ g.DrawsOn o i)
          g.outputs s'.graph.outputs) := by
  obtain ⟨g, made, inputs, filters, even⟩ : ∃ g, innerInput .empty = .ok ⟨⟩ g ∧
      g.inputs = [⟨1, 0⟩, ⟨2, 0⟩] ∧
      g.nodes[1]?.map Node.op = some (.source (.typed .f32 (.ofLengths [1, 1, 2]))) ∧
      g.nodes[2]?.map Node.op = some (.conv .convolution ⟨[], [], [0], [0], .explicit, []⟩) :=
    ⟨_, rfl, rfl, rfl, rfl⟩
  have counted : Pass.conv.patchCount innerInput = some 1 := by cbv
  obtain ⟨s', run⟩ := Pass.run_of_patchCount made counted
  have built := builtFreely_innerInput made
  have free : ∀ o ∈ g.inputs, g.DemandedBut (g.Matches · .conv) o.node →
      ¬ Pass.conv.MatchAt g o.node := by
    rw [inputs]
    rintro o mem - ⟨n, there, isMatch⟩
    rcases List.mem_pair.1 mem with rfl | rfl
    · rw [there, Option.map_some, Option.some.injEq] at filters
      exact Graph.not_matches_of_settled (by rw [filters]; trivial) isMatch
    · rw [there, Option.map_some, Option.some.injEq] at even
      exact Graph.not_matches_of_settled (by rw [even]; exact ⟨rfl, rfl⟩) isMatch
  exact ⟨g, s', made, built, free, run, run_keeps_draws (s := ⟨g, []⟩) built free run⟩

/-- A transposed convolution that is told its output shape by an input. -/
def shapedDeconv : Edit Graph Unit := do
  let data ← Graph.addSource "data" (.typed .f32 (.ofLengths [1, 1, 4]))
  let filters ← Graph.addSource "filters" (.typed .f32 (.ofLengths [1, 1, 3]))
  let shape ← Graph.addSource "shape" (.constant (.vector [5]))
  let out ← Graph.wire "deconv"
    (.deconv .convolutionBackpropData ⟨[], [], [1], [0], .explicit, []⟩ true)
    [data, filters, shape]
  Graph.setOutputs [out]

theorem built_shapedDeconv {u : Unit} (run : shapedDeconv .empty = .ok u g) : g.Built := by
  simp only [shapedDeconv, Edit.bind_eq_ok] at run
  obtain ⟨_, _, addData, _, _, addFilters, _, _, addShape, out, _, wire, answer⟩ := run
  exact .answerLast (.source (.source (.source .empty addData) addFilters) addShape) wire answer

/-- The output depends on the input that tells its shape before the run, and not afterwards. -/
theorem run_drops_outputShape :
    ∃ g k s' o o', shapedDeconv .empty = .ok ⟨⟩ g ∧ g.Built ∧
      Pass.convBackprop.run none ⟨g, []⟩ = .ok k s' ∧ g.outputs = [o] ∧ s'.graph.outputs = [o'] ∧
      g.DrawsOn o 2 ∧ ¬ s'.graph.DrawsOn o' 2 := by
  obtain ⟨g, made, inputs, outputs, node⟩ : ∃ g, shapedDeconv .empty = .ok ⟨⟩ g ∧
      g.inputs = [⟨0, 0⟩, ⟨1, 0⟩, ⟨2, 0⟩] ∧ g.outputs = [⟨3, 0⟩] ∧
      g.nodes[3]?.map Node.inputs = some [⟨0, 0⟩, ⟨1, 0⟩, ⟨2, 0⟩] := ⟨_, rfl, rfl, rfl, rfl⟩
  have told : Pass.convBackprop.askAfter shapedDeconv
      (fun g => (g.inputs, g.outputs, g.evalOrder.toOption)) =
        some ([⟨0, 0⟩, ⟨1, 0⟩, ⟨8, 0⟩], [⟨7, 0⟩], some [0, 1, 2, 3, 4, 5, 6, 7]) := by cbv
  obtain ⟨k, s', run, told⟩ := run_of_askAfter made told
  obtain ⟨inputs', outputs', ordered⟩ : s'.graph.inputs = [⟨0, 0⟩, ⟨1, 0⟩, ⟨8, 0⟩] ∧
      s'.graph.outputs = [⟨7, 0⟩] ∧
      s'.graph.evalOrder.toOption = some [0, 1, 2, 3, 4, 5, 6, 7] := by
    simpa using told
  have built := built_shapedDeconv made
  refine ⟨g, k, s', _, _, made, built, run, outputs, outputs', ?_, ?_⟩
  · obtain ⟨n, there, reads⟩ := Option.map_eq_some_iff.1 node
    refine ⟨⟨2, 0⟩, by rw [inputs]; rfl, .single ⟨by simp [inputs], n, ⟨2, 0⟩, there, ?_, rfl⟩⟩
    simp [reads]
  · -- the input is not in the evaluation order
    rintro ⟨input, listed, path⟩
    have sound := Graph.Sound.pass ⟨built.wellFormed, built.acyclic⟩ run
    obtain ⟨order, ordered'⟩ := sound.wf.evalOrder_ok sound.acyclic
    have mem :=
      sound.wf.referenced.mem_evalOrder_of_demanded ordered' ⟨_, by rw [outputs']; simp, path⟩
    rw [ordered'] at ordered
    cases ordered
    rw [inputs'] at listed
    cases listed
    simp at mem

/-- A convolution that is uneven and both the input and the output. -/
def inputConv : Edit Graph Unit := do
  let data ← Graph.addSource "data" (.typed .f32 (.ofLengths [1, 1, 3]))
  let filters ← Graph.addSource "filters" (.typed .f32 (.ofLengths [1, 1, 2]))
  let conv ← Graph.wire "conv"
      (.conv .convolution ⟨[], [], [0], [1], .explicit, []⟩) [data, filters]
  Graph.setOutputs [conv]
  Graph.setInputs [conv]

theorem builtFreely_inputConv {u : Unit} (run : inputConv .empty = .ok u g) : g.BuiltFreely := by
  simp only [inputConv, Edit.bind_eq_ok] at run
  obtain ⟨_, _, addData, _, _, addFilters, conv, _, wire, _, _, answer, ask⟩ := run
  refine .ask (.answer (.wire (.source (.source .empty addData) addFilters) wire) ?_ answer) ?_
    ask
  · intro o mem
    cases List.mem_singleton.1 mem
    exact Graph.isSome_of_wire wire
  · have there := Graph.isSome_of_wire wire
    cases answer
    intro o mem
    cases List.mem_singleton.1 mem
    exact there

/-- Matches that the outputs depend on may not be inputs: what takes over from this one is no
input, and the output does not depend on the input any more, though no match is told its output
shape. -/
theorem run_bypasses_input :
    ∃ g k s' o o', inputConv .empty = .ok ⟨⟩ g ∧ g.BuiltFreely ∧
      g.inputs = [o] ∧ g.outputs = [o] ∧
      g.DemandedBut (g.Matches · .conv) o.node ∧ Pass.conv.MatchAt g o.node ∧
      (∀ n ∈ g.nodes, n.op.takesOutputShape = false) ∧
      Pass.conv.run none ⟨g, []⟩ = .ok k s' ∧ s'.graph.outputs = [o'] ∧
      g.DrawsOn o 0 ∧ ¬ s'.graph.DrawsOn o' 0 := by
  set σ : Signature := ⟨"conv", .conv .convolution ⟨[], [], [0], [1], .explicit, []⟩,
    [.typed .f32 (.ofLengths [1, 1, 3]), .typed .f32 (.ofLengths [1, 1, 2])],
    .typed .f32 (.ofLengths [1, 1, 3])⟩
  obtain ⟨g, node, made, inputs, outputs, untold, there, name, op, known, facts⟩ : ∃ g node,
      inputConv .empty = .ok ⟨⟩ g ∧ g.inputs = [⟨2, 0⟩] ∧ g.outputs = [⟨2, 0⟩] ∧
      (∀ n ∈ g.nodes, n.op.takesOutputShape = false) ∧
      g.nodes[2]? = some node ∧ node.name = σ.name ∧ node.op = σ.op ∧
      node.inputs.map g.fact? = σ.operands.map some ∧ node.facts = [σ.fact] :=
    ⟨_, _, rfl, rfl, rfl, by decide, rfl, rfl, rfl, rfl, rfl⟩
  have told :
      Pass.conv.askAfter inputConv (fun g => (g.inputs, g.outputs, g.nodes.map Node.inputs)) =
      some ([⟨7, 0⟩], [⟨6, 0⟩], [[], [], [], [], [⟨0, 0⟩, ⟨1, 0⟩, ⟨2, 0⟩, ⟨3, 0⟩], [],
        [⟨4, 0⟩, ⟨5, 0⟩], []]) := by cbv
  obtain ⟨k, s', run, told⟩ := run_of_askAfter made told
  obtain ⟨inputs', outputs', reads⟩ : s'.graph.inputs = [⟨7, 0⟩] ∧ s'.graph.outputs = [⟨6, 0⟩] ∧
      s'.graph.nodes.map Node.inputs = [[], [], [], [], [⟨0, 0⟩, ⟨1, 0⟩, ⟨2, 0⟩, ⟨3, 0⟩], [],
        [⟨4, 0⟩, ⟨5, 0⟩], []] := by simpa using told
  refine ⟨g, k, s', _, _, made, builtFreely_inputConv made, inputs, outputs,
    ⟨⟨2, 0⟩, by simp [outputs], .refl⟩,
    ⟨node, there, σ, .of_map name op known facts, rfl, _, .conv rfl, rfl, rfl,
      by simp [σ, Op.isTransposed]⟩,
    untold, run, outputs', ⟨⟨2, 0⟩, by simp [inputs], .refl⟩, ?_⟩
  -- nothing reads the input
  have all : ∀ l ∈ s'.graph.nodes.map Node.inputs, ∀ o ∈ l, o.node < 7 := by
    rw [reads]
    decide
  rintro ⟨input, listed, path⟩
  have below {id : Nat} (path : ReflTransGen s'.graph.DependsOn 6 id) : id < 7 := by
    induction path with
    | refl => omega
    | tail _ depends _ =>
      obtain ⟨-, n, o, there, read, rfl⟩ := depends
      exact all _ (List.mem_map_of_mem (List.mem_of_getElem? there)) o read
  rw [inputs'] at listed
  cases listed
  exact absurd (below path) (by decide)

end Pass

end EvenPad
