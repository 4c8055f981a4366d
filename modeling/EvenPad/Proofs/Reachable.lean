import EvenPad.Proofs.Graph.Compact.Progress
import EvenPad.Proofs.Unpad.Pass
import Mathlib

/-!
Graphs that a client can come to: from the empty one by building, where a node may be refused, by
naming outputs that are there, by compacting and by runs of a pass. Every `Step` keeps a graph
well-formed and without cycles (`Sound.step`). Main statement: `Reachable.consistent`, the edges
of such a graph are known at both ends, once each, no node depends on itself, and each node has
the fact that its operator infers again from those of its inputs.
-/

namespace EvenPad

namespace Graph

variable {g g' : Graph} {n : Node} {o : Outlet} {name : String} {op : Op} {inputs : List Outlet}

/-! ## New nodes -/

theorem acyclic_bare : g.bare.Acyclic ↔ g.Acyclic :=
  exists_congr fun _ => rankedBy_bare

/-- Finitely many ranks have a bound. -/
theorem exists_rank_lt (rank : Nat → Nat) (ids : List Nat) :
    ∃ bound, ∀ id ∈ ids, rank id < bound := by
  induction ids with
  | nil => exact ⟨0, by simp⟩
  | cons id rest ih =>
    obtain ⟨bound, below⟩ := ih
    refine ⟨max bound (rank id + 1), List.forall_mem_cons.2 ⟨?_, ?_⟩⟩
    · exact Nat.lt_of_lt_of_le (Nat.lt_succ_self _) (Nat.le_max_right _ _)
    · exact fun i mem => Nat.lt_of_lt_of_le (below i mem) (Nat.le_max_left _ _)

/-- A node that reads what is there makes no cycle: it is ranked above what it reads, and nothing
reads it yet. -/
theorem Acyclic.push (acyclic : g.Acyclic) (typed : g.Typed) (infers : g.Infers n) :
    (g.push n).Acyclic := by
  obtain ⟨rank, ranked⟩ := acyclic
  obtain ⟨bound, below⟩ := exists_rank_lt rank (n.inputs.map Outlet.node)
  refine ⟨fun id => if id = g.size then bound else rank id, ?_⟩
  intro id m o there read
  rw [push_getElem?] at there
  split at there
  · next last =>
    cases Option.some.inj there
    have old : o.node ≠ g.size := Nat.ne_of_lt (infers.lt_size read)
    simp only [if_neg old, if_pos last]
    exact below o.node (List.mem_map_of_mem read)
  · next other =>
    have old : o.node ≠ g.size := Nat.ne_of_lt (typed.read_eq there read).2
    simp only [if_neg old, if_neg other]
    exact ranked there read

theorem Acyclic.wire (acyclic : g.Acyclic) (typed : g.Typed)
    (run : Graph.wire name op inputs g = .ok o g') : g'.Acyclic := by
  obtain ⟨-, facts, fact, known, inferred, bare, -⟩ := wire_eq_ok run
  rw [← acyclic_bare, bare]
  have known : List.Forall₂ (fun o f => g.bare.fact? o = some f) inputs facts := by
    simpa only [fact?_bare] using known
  exact (acyclic_bare.2 acyclic).push (typed_bare.2 typed) ⟨facts, fact, known, inferred, rfl⟩

/-! ## Steps -/

/-- What a client can do to a graph. A node may be refused, and a pass that fails is given up. -/
inductive Step : Graph → Graph → Prop
  | source {g : Graph} (name : String) (fact : Fact) : Step g ((addSource name fact).after g)
  | const {g : Graph} (name : String) (value : Tensor) : Step g ((addConst name value).after g)
  | wire {g : Graph} (name : String) (op : Op) (inputs : List Outlet) :
    Step g ((Graph.wire name op inputs).after g)
  | fused {g : Graph} (name : String) (data filters : Outlet) (outputShape : Option Outlet)
      (addend : Outlet) (window : Window) :
    Step g ((wireFused name data filters outputShape addend window).after g)
  | answer {g : Graph} (outlets : List Outlet) :
    (∀ o ∈ outlets, (g.output? o).isSome) → Step g ((setOutputs outlets).after g)
  | compact {g : Graph} (log : Log) : Step g (Graph.compact.after ⟨g, log⟩).graph
  | pass {g : Graph} {p : Pass} {budget : Option Nat}
    {log : Log} {applied : Nat} {s : LoggedGraph} :
    p.run budget ⟨g, log⟩ = .ok applied s → Step g s.graph

/-- The graphs that a client can come to. -/
def Reachable (g : Graph) : Prop := Relation.ReflTransGen Step .empty g

/-- What every step keeps. -/
structure Sound (g : Graph) : Prop where
  wf : g.WellFormed
  acyclic : g.Acyclic

namespace Sound

theorem empty : Sound .empty := ⟨wellFormed_empty, Built.empty.acyclic⟩

variable (sound : g.Sound)
include sound

theorem source (name : String) (fact : Fact) : ((addSource name fact).after g).Sound := by
  obtain ⟨g', run⟩ : ∃ g', addSource name fact g = .ok ⟨g.size, 0⟩ g' := addSource_ok
  rw [Edit.after_of_ok run]
  refine ⟨sound.wf.source run, ?_⟩
  obtain ⟨-, rfl⟩ := addSource_eq_ok run
  have infers : g.Infers (.fresh g.size name (.source fact) [] fact) := ⟨[], fact, .nil, rfl, rfl⟩
  exact sound.acyclic.push sound.wf.toTyped infers

theorem const (name : String) (value : Tensor) : ((addConst name value).after g).Sound := by
  obtain ⟨g', run⟩ : ∃ g', addConst name value g = .ok ⟨g.size, 0⟩ g' := addConst_ok name value
  rw [Edit.after_of_ok run]
  refine ⟨sound.wf.const run, ?_⟩
  obtain ⟨-, rfl⟩ := addConst_eq_ok run
  exact sound.acyclic.push sound.wf.toTyped ⟨[], .constant value, .nil, rfl, rfl⟩

theorem wire (name : String) (op : Op) (inputs : List Outlet) :
    ((Graph.wire name op inputs).after g).Sound := by
  cases run : Graph.wire name op inputs g with
  | ok o g' =>
    rw [Edit.after_of_ok run]
    exact ⟨sound.wf.wire run, sound.acyclic.wire sound.wf.toTyped run⟩
  | error failure g' =>
    rw [Edit.after_of_error run, wire_eq_error run]
    exact sound

theorem fused (name : String) (data filters : Outlet) (outputShape : Option Outlet)
    (addend : Outlet) (window : Window) :
    ((wireFused name data filters outputShape addend window).after g).Sound := by
  cases run : wireFused name data filters outputShape addend window g with
  | ok o g' =>
    rw [Edit.after_of_ok run]
    obtain ⟨fact, -, run⟩ := wireFused_eq_ok run
    exact ⟨sound.wf.wire run, sound.acyclic.wire sound.wf.toTyped run⟩
  | error failure g' =>
    rw [Edit.after_of_error run, wireFused_eq_error run]
    exact sound

theorem answer {outlets : List Outlet} (there : ∀ o ∈ outlets, (g.output? o).isSome) :
    ((setOutputs outlets).after g).Sound where
  wf := ⟨⟨sound.wf.id_eq, sound.wf.infers, sound.wf.sources, fun mem => there _ mem⟩,
    ⟨sound.wf.linked.1, sound.wf.linked.2⟩⟩
  acyclic := sound.acyclic

theorem compact (log : Log) : (Graph.compact.after ⟨g, log⟩).graph.Sound := by
  obtain ⟨g', log', compacted⟩ := sound.wf.compacted_ok sound.acyclic log
  have run : Graph.compact ⟨g, log⟩ = .ok ⟨⟩ ⟨g', log'⟩ := RuleSet.compact_eq_ok.2 compacted
  rw [Edit.after_of_ok run]
  obtain ⟨w, compacts⟩ := sound.wf.compacts compacted
  exact ⟨compacts.wellFormed sound.wf, compacts.acyclic sound.wf sound.acyclic⟩

/-- Each rewriting step of a run makes no cycle, and neither does the compaction at its end. -/
theorem pass {p : Pass} {budget : Option Nat} {log : Log} {applied : Nat} {s : LoggedGraph}
    (run : p.run budget ⟨g, log⟩ = .ok applied s) : s.graph.Sound := by
  obtain ⟨g', _, wf, acyclic, -, ended⟩ := Pass.run_induction (fun _ g _ => g.Acyclic) sound.wf
    (fun _ => sound.acyclic) (fun _ acyclic _ => acyclic)
    (fun wf acyclic rewrites => rewrites.acyclic wf acyclic) run
  split at ended
  · obtain ⟨w, compacts⟩ := ended
    exact ⟨compacts.wellFormed wf, compacts.acyclic wf acyclic⟩
  · rw [ended]
    exact ⟨wf, acyclic⟩

theorem step (step : Step g g') : g'.Sound := by
  cases step with
  | source name fact => exact sound.source name fact
  | const name value => exact sound.const name value
  | wire name op inputs => exact sound.wire name op inputs
  | fused name data filters outputShape addend window =>
    exact sound.fused name data filters outputShape addend window
  | answer outlets there => exact sound.answer there
  | compact log => exact sound.compact log
  | pass run => exact sound.pass run

end Sound

theorem Reachable.sound (reachable : g.Reachable) : g.Sound := by
  induction reachable with
  | refl => exact .empty
  | tail _ step sound => exact sound.step step

/-! ## Consistency -/

/-- What a client can rely on. -/
structure Consistent (g : Graph) : Prop where
  /-- Nodes carry their positions. -/
  ids : ∀ {k : Nat} {n : Node}, g.nodes[k]? = some n → n.id = k
  edges : g.checkEdges = .ok ⟨⟩
  /-- An inlet is listed once by the outlet that it reads, and by no other. -/
  listed : ∀ i o, (g.readers o).count i = if g.source? i = some o then 1 else 0
  acyclic : ∀ id, ¬ Relation.TransGen g.Reads id id
  /-- The operator of a node infers the fact that the node has, and no other. -/
  facts : ∀ {k : Nat} {n : Node}, g.nodes[k]? = some n →
    ∃ fact, (g.inputFacts k >>= n.op.outputFact) = .ok fact ∧ n.facts = [fact]

/-- Whatever a client does, the graph is consistent. -/
theorem Reachable.consistent (reachable : g.Reachable) : g.Consistent := by
  obtain ⟨wf, rank, ranked⟩ := reachable.sound
  refine ⟨wf.id_eq, wf.checkEdges_ok, fun i o => wf.linked.listed o i,
    fun id depends => Nat.lt_irrefl _ (ranked.lt_of_transGen depends), ?_⟩
  intro k n there
  obtain rfl := wf.id_eq there
  obtain ⟨facts, fact, known, inferred, single⟩ := wf.infers there
  exact ⟨fact, Checked.bind_eq_ok.2 ⟨facts, (inputFacts_eq_ok there).2 known, inferred⟩, single⟩

theorem reachable_oneConv {w : Window} {data filters : List Nat} {u : Unit}
    (run : Unpad.oneConv w data filters .empty = .ok u g) : g.Reachable := by
  simp only [Unpad.oneConv, Edit.bind_eq_ok] at run
  obtain ⟨_, g₁, addData, _, g₂, addFilters, out, g₃, wired, answered⟩ := run
  have data : Step .empty g₁ := Edit.after_of_ok addData ▸ .source ..
  have filters : Step g₁ g₂ := Edit.after_of_ok addFilters ▸ .source ..
  have conv : Step g₂ g₃ := Edit.after_of_ok wired ▸ .wire ..
  have answer : Step g₃ g := by
    rw [← Edit.after_of_ok answered]
    refine .answer [out] fun o mem => ?_
    rw [List.mem_singleton.1 mem]
    exact isSome_of_wire wired
  exact .tail (.tail (.tail (.single data) filters) conv) answer

/-- A convolution is built and rewritten. -/
theorem Reachable.consistent_oneConv :
    ∃ g s', Unpad.oneConv ⟨[2], [], [0], [1], .explicit, []⟩ [1, 1, 3] [1, 1, 2] .empty =
      .ok ⟨⟩ g ∧
      Pass.conv.run none ⟨g, []⟩ = .ok 1 s' ∧ s'.graph.Reachable ∧ s'.graph.Consistent := by
  obtain ⟨g, made⟩ : ∃ g,
      Unpad.oneConv ⟨[2], [], [0], [1], .explicit, []⟩ [1, 1, 3] [1, 1, 2] .empty = .ok ⟨⟩ g :=
    ⟨_, rfl⟩
  have counted : Pass.conv.patchCount
      (Unpad.oneConv ⟨[2], [], [0], [1], .explicit, []⟩ [1, 1, 3] [1, 1, 2]) = some 1 := by cbv
  obtain ⟨s', run⟩ := Pass.run_of_patchCount made counted
  have reachable : s'.graph.Reachable := .tail (reachable_oneConv made) (.pass run)
  exact ⟨g, s', made, run, reachable, Reachable.consistent reachable⟩

end Graph

end EvenPad
