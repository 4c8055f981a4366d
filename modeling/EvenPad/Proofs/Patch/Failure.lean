import EvenPad.Proofs.Patch.Effect

/-!
Patches that cannot be applied. A source of a patch that is no tap is refused, but only when its
turn comes: what comes in before it stays. Main statement: `Patch.Assembled.apply_leaves`, which
says when a patch is refused and what it leaves of the target then.
-/

namespace EvenPad

namespace Patch

variable {g g' : Graph} {p : Patch} {n : Node} {before after : List Node}

/-- A source of a patch that is no tap: it would be a new input of the target. -/
def Rogue (p : Patch) (n : Node) : Prop :=
  n.op.isSource = true ∧ ⟨n.id, 0⟩ ∉ p.incoming.map Prod.fst

instance : DecidablePred p.Rogue := fun _ => inferInstanceAs (Decidable (_ ∧ _))

/-- Nodes that have come in change the target, as they make it larger. -/
theorem landed_eq_self_iff {nodes : List Node} : landed g nodes = g ↔ nodes = [] := by
  constructor
  · intro same
    have size : (landed g nodes).nodes.length = g.nodes.length := by rw [same]
    simpa [landed] using size
  · rintro rfl
    simp [landed]

theorem insertNode_eq_error {context : List String} {i : Insertion}
    (source : n.op.isSource = true) (unmapped : (i.wires.find? ⟨n.id, 0⟩).isSome = false) :
    insertNode context i n g = .error (.refused [] (.newGraphInput context n)) g := by
  simp only [insertNode, source, if_true, unmapped]
  rfl

namespace Coherent

variable (coherent : p.Coherent g)
include coherent

/-- Without such a source a patch can be applied. -/
theorem ready (honest : ∀ n ∈ p.graph.nodes, ¬ p.Rogue n) : p.Ready g where
  toCoherent := coherent
  closed := by
    intro k n there source
    rw [← coherent.wellFormed.id_eq there]
    exact not_not.1 fun untapped => honest n (List.mem_of_getElem? there) ⟨source, untapped⟩

/-- The first such source is refused when the nodes before it have come in. -/
theorem apply_eq_error (split : p.graph.nodes = before ++ n :: after) (rogue : p.Rogue n)
    (honest : ∀ m ∈ before, ¬ p.Rogue m) :
    p.apply g = .error (.refused [] (.newGraphInput p.context n))
      (landed g (before.filter fun m => !m.op.isSource)) := by
  obtain ⟨i, g₁, inserted⟩ : ∃ i g₁,
      before.foldlM (insertNode p.context) ⟨p.incoming.reverse, []⟩ g = .ok i g₁ := by
    refine insertAll_ok p.context fun m mem source => ?_
    rw [coherent.isSome_find?_incoming]
    exact not_not.1 fun untapped => honest m mem ⟨source, untapped⟩
  obtain ⟨rfl, wires, -, -⟩ := insertAll_eq_ok inserted
  -- no node that came in has the number of the source, so it is still not mapped
  have other : ∀ m ∈ before.filter fun m => !m.op.isSource, m.id ≠ n.id := by
    intro m mem
    have distinct : (p.graph.nodes.map Node.id).Nodup :=
      coherent.wellFormed.map_id ▸ List.nodup_range
    rw [split, List.map_append, List.map_cons, List.nodup_append] at distinct
    exact distinct.2.2 m.id (List.mem_map_of_mem (List.mem_filter.1 mem).1)
      n.id List.mem_cons_self
  have unmapped : (i.wires.find? ⟨n.id, 0⟩).isSome = false := by
    rw [wires, Wires.find?_addNodes_of_other other, Bool.eq_false_iff, ne_eq,
      coherent.isSome_find?_incoming]
    exact rogue.2
  rw [apply, split]
  refine Edit.bind_eq_error.2 (.inl ?_)
  rw [List.foldlM_append]
  refine Edit.bind_eq_error.2 (.inr ⟨i, _, inserted, ?_⟩)
  rw [List.foldlM_cons]
  exact Edit.bind_eq_error.2 (.inl (insertNode_eq_error rogue.1 unmapped))

end Coherent

/-- A patch that was built against a target can be applied to it unless one of its sources is no
tap. Then the first such source is refused, and the target is left with the nodes that come before
it in the patch and are no sources: it is what it was if there are none. -/
theorem Assembled.apply_leaves (assembled : Assembled g p) (symmetric : g.Symmetric) :
    ((∃ touched g', p.apply g = .ok touched g') ↔ ∀ n ∈ p.graph.nodes, ¬ p.Rogue n) ∧
    ∀ f g', p.apply g = .error f g' → ∃ before n after, p.graph.nodes = before ++ n :: after ∧
      p.Rogue n ∧ (∀ m ∈ before, ¬ p.Rogue m) ∧ f = .refused [] (.newGraphInput p.context n) ∧
      g' = landed g (before.filter fun m => !m.op.isSource) ∧
      (g' = g ↔ ∀ m ∈ before, m.op.isSource = true) := by
  have coherent := assembled.coherent
  cases found : p.graph.nodes.find? fun n => decide (p.Rogue n) with
  | none =>
    have honest : ∀ n ∈ p.graph.nodes, ¬ p.Rogue n := by simpa using found
    obtain ⟨touched, g', run⟩ := (coherent.ready honest).apply_ok symmetric
    refine ⟨iff_of_true ⟨touched, g', run⟩ honest, fun f g'' failed => ?_⟩
    rw [run] at failed
    cases failed
  | some n =>
    obtain ⟨rogue, before, after, split, honest⟩ := List.find?_eq_some_iff_append.1 found
    have rogue : p.Rogue n := of_decide_eq_true rogue
    have honest : ∀ m ∈ before, ¬ p.Rogue m := by simpa using honest
    have failed := coherent.apply_eq_error split rogue honest
    constructor
    · refine iff_of_false ?_ fun honest => honest n (by simp [split]) rogue
      rintro ⟨touched, g', run⟩
      rw [run] at failed
      cases failed
    · intro f g' failed'
      rw [failed] at failed'
      cases failed'
      refine ⟨before, n, after, split, rogue, honest, rfl, rfl, ?_⟩
      rw [landed_eq_self_iff, List.filter_eq_nil_iff]
      simp

/-- A graph that answers with what it is given. -/
def passing : Edit Graph Unit := do
  let data ← Graph.addSource "x" (.typed .f32 (.ofLengths [1]))
  Graph.setOutputs [data]

/-- A patch with a constant and a source of its own. -/
def straying : Patch :=
  (onGraph (Graph.addSource "rogue" (.typed .f32 (.ofLengths [1])))).after <|
    (onGraph (Graph.addConst "c" (.vector [6]))).after ⟨[], .empty, [], []⟩

theorem assembled_straying (g : Graph) : Assembled g straying :=
  .source _ _ <| .const _ _ <| .start []

theorem symmetric_passing {u : Unit} (run : passing .empty = .ok u g) : g.Symmetric := by
  simp only [passing, Edit.bind_eq_ok] at run
  obtain ⟨data, _, added, answer⟩ := run
  refine (Graph.Built.answer (.source .empty added) ?_ answer).wellFormed.linked.symmetric
  intro o mem
  cases List.mem_singleton.1 mem
  obtain ⟨rfl, rfl⟩ := Graph.addSource_eq_ok added
  rfl

/-- The constant stays in the graph, though the patch is refused. -/
theorem Assembled.apply_leaves_straying :
    ∃ g f g', passing .empty = .ok ⟨⟩ g ∧ Assembled g straying ∧ g.Symmetric ∧
      straying.apply g = .error f g' ∧ g.size = 1 ∧ g'.size = 2 ∧
      ∃ before n after, straying.graph.nodes = before ++ n :: after ∧ straying.Rogue n ∧
        f = .refused [] (.newGraphInput [] n) ∧
        g' = landed g (before.filter fun m => !m.op.isSource) ∧
        ¬ (g' = g ∨ ∀ m ∈ before, m.op.isSource = true) := by
  obtain ⟨g, f, g', made, failed, size, size'⟩ : ∃ g f g', passing .empty = .ok ⟨⟩ g ∧
      straying.apply g = .error f g' ∧ g.size = 1 ∧ g'.size = 2 := ⟨_, _, _, rfl, rfl, rfl, rfl⟩
  have symmetric := symmetric_passing made
  obtain ⟨before, n, after, split, rogue, -, cause, left, same⟩ :=
    ((assembled_straying g).apply_leaves symmetric).2 f g' failed
  refine ⟨g, f, g', made, assembled_straying g, symmetric, failed, size, size', before, n, after,
    split, rogue, cause, left, ?_⟩
  rw [← same, or_self]
  rintro rfl
  rw [size] at size'
  cases size'

end Patch

end EvenPad
