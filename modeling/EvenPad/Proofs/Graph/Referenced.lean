import EvenPad.Proofs.Graph.Acyclic
import Mathlib.Logic.Relation

/-!
Graphs of which little is asked: nodes carry their positions, and whatever is named is there.
Facts need not be what operators infer, lists of readers may hold anything, and an input may read
what it likes since it stands for itself. Main statement: `Referenced.evalOrder_ok`, such a graph
has an evaluation order if no node that the outputs depend on depends on itself.
-/

namespace EvenPad.Graph

variable {g : Graph} {id source : Nat}

structure Referenced (g : Graph) : Prop where
  ids : ∀ {k : Nat} {n : Node}, g.nodes[k]? = some n → n.id = k
  reads : ∀ {k : Nat} {n : Node} {o : Outlet}, g.nodes[k]? = some n → o ∈ n.inputs →
    (g.output? o).isSome
  answers : ∀ {o}, o ∈ g.outputs → (g.output? o).isSome
  sources : ∀ {o}, o ∈ g.inputs → o.slot = 0 ∧ (g.output? o).isSome

instance : Decidable g.Referenced :=
  decidable_of_iff ((∀ p ∈ g.nodes.zipIdx, p.1.id = p.2) ∧
      (∀ n ∈ g.nodes, ∀ o ∈ n.inputs, (g.output? o).isSome) ∧
      (∀ o ∈ g.outputs, (g.output? o).isSome) ∧ ∀ o ∈ g.inputs, o.slot = 0 ∧
      (g.output? o).isSome) <| by
    constructor
    · rintro ⟨ids, reads, answers, sources⟩
      exact ⟨fun there => ids (_, _) (List.mem_zipIdx_iff_getElem?.2 there),
        fun there => reads _ (List.mem_of_getElem? there) _, fun mem => answers _ mem,
        fun mem => sources _ mem⟩
    · intro referenced
      refine ⟨fun p mem => referenced.ids (List.mem_zipIdx_iff_getElem?.1 mem),
        fun n mem o read => ?_, fun _ mem => referenced.answers mem,
        fun _ mem => referenced.sources mem⟩
      obtain ⟨k, there⟩ := List.mem_iff_getElem?.1 mem
      exact referenced.reads there read

theorem WellFormed.referenced (wf : g.WellFormed) : g.Referenced where
  ids := wf.id_eq
  reads there read := by
    obtain ⟨slot, at_slot⟩ := List.mem_iff_getElem?.1 read
    exact wf.linked.there (source?_eq_some (i := ⟨_, slot⟩).2 ⟨_, there, at_slot⟩)
  answers := wf.answers
  sources mem := by
    obtain ⟨slot, n, fact, there, -⟩ := wf.sources mem
    obtain ⟨_, made, -, -, facts⟩ := wf.infers there
    exact ⟨slot,
      isSome_output?_iff_fact?.2 ⟨made, fact?_eq_some.2 ⟨n, there, by rw [facts, slot]; rfl⟩⟩⟩

/-! ## Dependencies -/

/-- A node depends on those that it reads, unless it is an input of the graph. -/
def DependsOn (g : Graph) (id source : Nat) : Prop := ⟨id, 0⟩ ∉ g.inputs ∧ g.Reads id source

/-- The outputs depend on the node. -/
def Demanded (g : Graph) (id : Nat) : Prop :=
  ∃ o ∈ g.outputs, Relation.ReflTransGen g.DependsOn o.node id

/-- No node that the outputs depend on depends on itself. -/
def LoopFree (g : Graph) : Prop := ∀ id, g.Demanded id → ¬ Relation.TransGen g.DependsOn id id

theorem Demanded.dependsOn (demanded : g.Demanded id) (depends : g.DependsOn id source) :
    g.Demanded source := by
  obtain ⟨o, answer, path⟩ := demanded
  exact ⟨o, answer, path.tail depends⟩

theorem RankedBy.lt_of_transGen {rank : Nat → Nat} (ranked : g.RankedBy rank)
    (depends : Relation.TransGen g.Reads id source) : rank source < rank id := by
  have reads {id source : Nat} : g.Reads id source → rank source < rank id := by
    rintro ⟨n, o, there, read, rfl⟩
    exact ranked there read
  induction depends with
  | single read => exact reads read
  | tail _ read ih => exact Nat.lt_trans (reads read) ih

theorem Acyclic.loopFree (acyclic : g.Acyclic) : g.LoopFree := by
  obtain ⟨rank, ranked⟩ := acyclic
  intro id _ depends
  exact Nat.lt_irrefl _
    (ranked.lt_of_transGen (Relation.TransGen.mono (fun _ _ one => one.2) _ _ depends))

namespace Referenced

variable (referenced : g.Referenced)
include referenced

theorem lt_of_dependsOn (depends : g.DependsOn id source) : source < g.size := by
  obtain ⟨-, n, o, there, read, rfl⟩ := depends
  exact lt_size_of_isSome (referenced.reads there read)

theorem lt_of_demanded (demanded : g.Demanded id) : id < g.size := by
  obtain ⟨o, answer, path⟩ := demanded
  induction path with
  | refl => exact lt_size_of_isSome (referenced.answers answer)
  | tail _ depends => exact referenced.lt_of_dependsOn depends

/-- The node of an input has an outlet. -/
theorem first_of_mem {o : Outlet} (mem : o ∈ g.inputs) : (g.output? ⟨o.node, 0⟩).isSome := by
  rw [← (referenced.sources mem).1]
  exact (referenced.sources mem).2

theorem mem_inputs_of_listed (listed : id ∈ g.inputs.map Outlet.node) : ⟨id, 0⟩ ∈ g.inputs := by
  obtain ⟨⟨_, slot⟩, mem, rfl⟩ := List.mem_map.1 listed
  obtain rfl : slot = 0 := (referenced.sources mem).1
  exact mem

/-- An evaluation order follows what nodes depend on. -/
theorem follows_iff :
    Follows g.nodes (g.inputs.map Outlet.node) id source ↔ g.DependsOn id source :=
  and_congr_left fun _ => not_congr ⟨referenced.mem_inputs_of_listed, List.mem_map_of_mem⟩

theorem leadsTo_iff :
    LeadsTo g.nodes (g.inputs.map Outlet.node) id source ↔
      Relation.TransGen g.DependsOn id source :=
  ⟨Relation.TransGen.mono (fun _ _ => referenced.follows_iff.1) _ _,
    Relation.TransGen.mono (fun _ _ => referenced.follows_iff.2) _ _⟩

/-- Ranks keep the nodes that a search comes across from depending on themselves. -/
theorem loopFree_of_searchable {rank : Nat → Nat} {P : Nat → Prop}
    (searchable : Searchable g.nodes (g.inputs.map Outlet.node) rank P)
    (answers : ∀ o ∈ g.outputs, P o.node) : g.LoopFree := by
  have inside {id : Nat} (demanded : g.Demanded id) : P id := by
    obtain ⟨o, answer, path⟩ := demanded
    induction path with
    | refl => exact answers o answer
    | tail _ depends ih => exact (searchable.follow ih (referenced.follows_iff.2 depends)).1
  intro id demanded loop
  exact searchable.not_leadsTo_self (inside demanded) (referenced.leadsTo_iff.2 loop)

/-- A search comes across nodes that the outputs depend on only. -/
theorem evalOrder_ok (loopFree : g.LoopFree) : ∃ order, g.evalOrder = .ok order := by
  refine orderFor_ok referenced.lt_of_demanded
    (fun demanded follows => demanded.dependsOn (referenced.follows_iff.1 follows)) ?_
    fun id demanded loop => loopFree id demanded (referenced.leadsTo_iff.1 loop)
  intro id mem
  obtain ⟨o, answer, rfl⟩ := List.mem_map.1 mem
  exact ⟨o, answer, .refl⟩

end Referenced

end EvenPad.Graph
