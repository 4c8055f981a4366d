import EvenPad.Proofs.Graph.Acyclic
import EvenPad.Proofs.Patch.Rewrite
import Mathlib.Data.List.InsertIdx

/-!
What the outputs depend on, through rewriting steps. Nodes are `Needed` when the outputs depend on
them even if some nodes are not given the output shape that they read. Main statements: what is
live after a step was live before, or came in for what was live (`Rewritten.live_of_live`); what
has been replaced is dead (`Rewritten.dead`); and a step makes no cycle (`Rewritten.acyclic`).
-/

namespace EvenPad

/-- A node that is kept needs what has taken over. -/
theorem Node.Keeps.needs_eq {n n' : Node} {o x : Outlet} (keeps : n.Keeps n')
    (inputs : n'.inputs = n.inputs.map (Outlet.redirect o x)) :
    n'.needs = n.needs.map (Outlet.redirect o x) := by
  rw [Node.needs, Node.needs, keeps.op, inputs]
  split
  · rw [List.eraseIdx_map]
  · rfl

/-- What a node that is kept reads stands for what it read, or needed if it stops still. -/
theorem Node.Keeps.exists_read {n n' : Node} {taken taker o : Outlet} {stops stops' : Node → Prop}
    (keeps : n.Keeps n') (inputs : n'.inputs = n.inputs.map (Outlet.redirect taken taker))
    (kept : stops n → stops' n') (read : o ∈ n'.inputs) (needs : stops' n' → o ∈ n'.needs) :
    ∃ source ∈ n.inputs, (stops n → source ∈ n.needs) ∧
      Outlet.redirect taken taker source = o := by
  by_cases stop : stops n
  · have mem := needs (kept stop)
    rw [keeps.needs_eq inputs] at mem
    obtain ⟨source, need, rfl⟩ := List.mem_map.1 mem
    exact ⟨source, Node.mem_inputs_of_mem_needs need, fun _ => need, rfl⟩
  · rw [inputs] at read
    obtain ⟨source, reads, rfl⟩ := List.mem_map.1 read
    exact ⟨source, reads, fun stop' => absurd stop' stop, rfl⟩

namespace Graph

variable {g g' : Graph} {node n : Node} {nodes : List Node} {k id : Nat} {o : Outlet}
  {stops stops' : Node → Prop}

/-- The outputs depend on the node, when the nodes that stop read what they need only. -/
inductive Needed (g : Graph) (stops : Node → Prop) : Nat → Prop
  | answer {o : Outlet} : o ∈ g.outputs → Needed g stops o.node
  | read {id : Nat} {n : Node} {o : Outlet} :
    Needed g stops id → g.nodes[id]? = some n → o ∈ n.inputs → (stops n → o ∈ n.needs) →
      Needed g stops o.node

theorem Needed.live (needed : g.Needed stops id) : g.Live id := by
  induction needed with
  | answer mem => exact .answer mem
  | read _ there read _ ih => exact .read ih there read

namespace Rewritten

variable (rewritten : g.Rewritten node nodes k g') (wf : g.WellFormed)
include rewritten wf

/-- What is live after a step was live before, if it was there; else what has been replaced was
live. -/
theorem live_of_live (live : g'.Live id) :
    (id < g.size → g.Live id) ∧ (g.size ≤ id → g.Live node.id) := by
  -- where a redirected outlet leads
  have back {o : Outlet} (lt : o.node < g.size) (live : g.Live o.node) :
      ((Outlet.redirect ⟨node.id, 0⟩ ⟨g.size + k, 0⟩ o).node < g.size →
        g.Live (Outlet.redirect ⟨node.id, 0⟩ ⟨g.size + k, 0⟩ o).node) ∧
      (g.size ≤ (Outlet.redirect ⟨node.id, 0⟩ ⟨g.size + k, 0⟩ o).node → g.Live node.id) := by
    unfold Outlet.redirect
    split
    · next taken =>
      subst taken
      exact ⟨fun lt => absurd lt (Nat.not_lt.2 (Nat.le_add_right _ _)), fun _ => live⟩
    · exact ⟨fun _ => live, fun ge => absurd lt (Nat.not_lt.2 ge)⟩
  induction live with
  | answer mem =>
    rw [rewritten.outputs_eq] at mem
    rcases List.mem_map.1 mem with ⟨o, answer, rfl⟩
    exact back (wf.answer_eq answer).2 (.answer answer)
  | @read id n o _ there read ih =>
    rcases rewritten.kept_or_came there with ⟨m, before, keeps, inputs⟩ | ⟨j, rfl, new⟩
    · have live := ih.1 (List.getElem?_eq_some_iff.1 before).1
      rw [inputs] at read
      rcases List.mem_map.1 read with ⟨o, reads, rfl⟩
      exact back (wf.read_eq before reads).2 (.read live before reads)
    · have live := ih.2 (Nat.le_add_right _ _)
      rcases rewritten.reads new read with ⟨ge, -⟩ | need
      · exact ⟨fun lt => absurd lt (Nat.not_lt.2 ge), fun _ => live⟩
      · have reads := Node.mem_inputs_of_mem_needs need
        refine ⟨fun _ => .read live rewritten.there reads, fun ge => ?_⟩
        exact absurd (wf.read_eq rewritten.there reads).2 (Nat.not_lt.2 ge)

end Rewritten

/-! ## Readers -/

namespace Rewritten

variable {source : Nat} (rewritten : g.Rewritten node nodes k g') (wf : g.WellFormed)
include rewritten wf

/-- A node that stays where it was is read by the nodes that read it before. -/
theorem reads_iff (lt : id < g.size) (there : source < g.size) (other : source ≠ node.id) :
    g'.Reads id source ↔ g.Reads id source := by
  rcases rewritten.kept (List.getElem?_eq_getElem lt) with ⟨n', there', -, inputs⟩
  rw [(rewritten.wellFormed wf).reads_iff, wf.reads_iff, there', List.getElem?_eq_getElem lt]
  simp only [Option.some.injEq, exists_eq_left', inputs]
  refine Outlet.mem_map_redirect (fun same => other (congrArg Outlet.node same)) fun same => ?_
  have new : source = g.size + k := congrArg Outlet.node same
  omega

omit wf in
/-- What came in reads what the node read that has been replaced. -/
theorem reads_of_came (came : g.size ≤ id) (there : source < g.size)
    (reads : g'.Reads id source) :
    g.Reads node.id source := by
  rcases reads with ⟨n, o, here, read, rfl⟩
  obtain ⟨j, rfl⟩ := Nat.exists_eq_add_of_le came
  rcases rewritten.kept_or_came here with ⟨m, before, -⟩ | ⟨i, -, new⟩
  · exact absurd (List.getElem?_eq_some_iff.1 before).1 (Nat.not_lt.2 came)
  · rcases rewritten.reads new read with ⟨ge, -⟩ | need
    · exact absurd there (Nat.not_lt.2 ge)
    · exact ⟨node, o, rewritten.there, Node.mem_inputs_of_mem_needs need, rfl⟩

/-- A node that stays where it was is wanted if it was before. -/
theorem wanted_iff (lt : id < g.size) (other : id ≠ node.id) : g'.Wanted id ↔ g.Wanted id := by
  rw [(rewritten.wellFormed wf).wanted_iff, wf.wanted_iff, rewritten.outputs_eq]
  refine or_congr ?_ ⟨?_, ?_⟩
  · refine Outlet.mem_map_redirect (fun same => other (congrArg Outlet.node same)) fun same => ?_
    have new : id = g.size + k := congrArg Outlet.node same
    omega
  · rintro ⟨reader, reads⟩
    rcases Nat.lt_or_ge reader g.size with old | came
    · exact ⟨reader, (rewritten.reads_iff wf old lt other).1 reads⟩
    · exact ⟨node.id, rewritten.reads_of_came came lt reads⟩
  · rintro ⟨reader, reads⟩
    have old : reader < g.size := by
      rcases reads with ⟨n, _, there, -⟩
      exact (List.getElem?_eq_some_iff.1 there).1
    exact ⟨reader, (rewritten.reads_iff wf old lt other).2 reads⟩

/-- Nothing reads what has been replaced. -/
theorem not_wanted (loopless : g.Loopless) : ¬ g'.Wanted node.id := by
  have lt : node.id < g.size := (List.getElem?_eq_some_iff.1 rewritten.there).1
  have other : (⟨g.size + k, 0⟩ : Outlet) ≠ ⟨node.id, 0⟩ := by
    intro same
    have new : g.size + k = node.id := congrArg Outlet.node same
    omega
  rw [(rewritten.wellFormed wf).wanted_iff, rewritten.outputs_eq]
  rintro (answer | ⟨reader, reads⟩)
  · exact Outlet.not_mem_map_redirect other answer
  · rcases Nat.lt_or_ge reader g.size with old | came
    · rcases rewritten.kept (List.getElem?_eq_getElem old) with ⟨n', there', -, inputs⟩
      rw [(rewritten.wellFormed wf).reads_iff, there'] at reads
      simp only [Option.some.injEq, exists_eq_left', inputs] at reads
      exact Outlet.not_mem_map_redirect other reads
    · rcases rewritten.reads_of_came came lt reads with ⟨n, o, there, read, same⟩
      exact loopless there read same

theorem dead (loopless : g.Loopless) : ¬ g'.Live node.id :=
  fun live => rewritten.not_wanted wf loopless live.wanted

end Rewritten

/-! ## Cycles -/

/-- Ranks after some nodes came in behind the last of a graph, in the place of the node `id`: the
old ranks further apart, and between two of them the new ones. -/
def rankIn (size count id : Nat) (rank : Nat → Nat) (i : Nat) : Nat :=
  if i < size then rank i * (count + 1) + count else rank id * (count + 1) + (i - size)

section RankIn

variable {size count i j : Nat} {rank : Nat → Nat}

theorem rankIn_came : rankIn size count id rank (size + j) = rank id * (count + 1) + j := by
  rw [rankIn, if_neg (by omega), Nat.add_sub_cancel_left]

private theorem scaled_lt {a b : Nat} (lt : a < b) (more : Nat) :
    a * (count + 1) + count < b * (count + 1) + more := by
  have step : (a + 1) * (count + 1) ≤ b * (count + 1) := Nat.mul_le_mul_right _ lt
  rw [Nat.add_one_mul] at step
  omega

theorem rankIn_kept_lt (kept : i < size) (below : j < size → rank i < rank j)
    (belowCame : size ≤ j → rank i < rank id) :
    rankIn size count id rank i < rankIn size count id rank j := by
  unfold rankIn
  rw [if_pos kept]
  split
  · next lt => exact scaled_lt (below lt) _
  · next ge => exact scaled_lt (belowCame (Nat.not_lt.1 ge)) _

theorem rankIn_came_lt (kept : i < size) (lt : j < count) (below : rank id < rank i) :
    rankIn size count id rank (size + j) < rankIn size count id rank i := by
  rw [rankIn_came, rankIn, if_pos kept]
  have step : (rank id + 1) * (count + 1) ≤ rank i * (count + 1) := Nat.mul_le_mul_right _ below
  rw [Nat.add_one_mul] at step
  omega

end RankIn

namespace Rewritten

variable (rewritten : g.Rewritten node nodes k g') (wf : g.WellFormed)
include rewritten wf

/-- What came in is ranked where the node was whose output was taken over. -/
theorem acyclic (acyclic : g.Acyclic) : g'.Acyclic := by
  rcases acyclic with ⟨rank, ranked⟩
  refine ⟨rankIn g.size nodes.length node.id rank, ?_⟩
  intro id n o there read
  rcases rewritten.kept_or_came there with ⟨m, before, keeps, inputs⟩ | ⟨j, rfl, new⟩
  · have lt : id < g.size := (List.getElem?_eq_some_iff.1 before).1
    rw [inputs] at read
    rcases List.mem_map.1 read with ⟨source, reads, rfl⟩
    have rank_lt := ranked before reads
    unfold Outlet.redirect
    split
    · next taken =>
      rcases rewritten.taker with ⟨taker, here, -⟩
      rw [taken] at rank_lt
      exact rankIn_came_lt lt (List.getElem?_eq_some_iff.1 here).1 rank_lt
    · exact rankIn_kept_lt (wf.read_eq before reads).2 (fun _ => rank_lt) fun ge => by omega
  · rcases rewritten.reads new read with ⟨ge, lt⟩ | need
    · obtain ⟨i, node_eq⟩ := Nat.exists_eq_add_of_le ge
      rw [node_eq, rankIn_came, rankIn_came]
      omega
    · have reads := Node.mem_inputs_of_mem_needs need
      exact rankIn_kept_lt (wf.read_eq rewritten.there reads).2 (fun lt => by omega)
        fun _ => ranked rewritten.there reads

end Rewritten

end Graph

end EvenPad
