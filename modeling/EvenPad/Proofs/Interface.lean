import EvenPad.Proofs.Unpad.Pass
import Mathlib

/-!
The interface of a graph: its inputs, and what is told of its outputs. Rewriting steps and
compactions keep it (`Rewritten.keepsInterface`, `Compacts.keepsInterface`), so runs of a pass do.
Main statement: `Pass.run_keepsInterface`.
-/

namespace EvenPad

/-- Elements are related to those that stand for them. -/
theorem forall₂_map_right_of_mem {α β : Type} {R : α → β → Prop} {f : α → β} {l : List α}
    (related : ∀ a ∈ l, R a (f a)) : List.Forall₂ R l (l.map f) := by
  rw [List.forall₂_map_right_iff, List.forall₂_same]
  exact related

namespace Graph

variable {g g' g'' : Graph} {node : Node} {nodes : List Node} {k : Nat} {w : Wires}
  {o o' o'' : Outlet}

/-- Outlets of two graphs that are inputs under the same name: sources of the same fact. -/
def SameSource (g g' : Graph) (o o' : Outlet) : Prop :=
  o.slot = 0 ∧ o'.slot = 0 ∧ ∃ n n' fact, g.nodes[o.node]? = some n ∧
  g'.nodes[o'.node]? = some n' ∧
    n.op = .source fact ∧ n'.op = .source fact ∧ n.facts = [fact] ∧ n'.facts = [fact] ∧
    n'.name = n.name

/-- Outlets of two graphs that have the same fact, from nodes of the same name with the same
notes. -/
def SameAnswer (g g' : Graph) (o o' : Outlet) : Prop :=
  ∃ n n' fact, g.nodes[o.node]? = some n ∧ g'.nodes[o'.node]? = some n' ∧ g.fact? o = some fact ∧
    g'.fact? o' = some fact ∧ n'.name = n.name ∧ n'.provenance = n.provenance

/-- A graph has the inputs of another one, and its outputs are the same as far as facts, names and
notes tell. -/
structure KeepsInterface (g g' : Graph) : Prop where
  inputs : List.Forall₂ (SameSource g g') g.inputs g'.inputs
  outputs : List.Forall₂ (SameAnswer g g') g.outputs g'.outputs

theorem SameSource.trans (first : SameSource g g' o o') (second : SameSource g' g'' o' o'') :
    SameSource g g'' o o'' := by
  obtain ⟨slot, -, n, n', fact, there, there', op, op', facts, -, name⟩ := first
  obtain ⟨-, slot', m, n'', fact', here, there'', sameOp, op'', -, facts', name'⟩ := second
  cases there'.symm.trans here
  cases Op.source.inj (op'.symm.trans sameOp)
  exact ⟨slot, slot', n, n'', fact, there, there'', op, op'', facts, facts', name'.trans name⟩

theorem SameAnswer.trans (first : SameAnswer g g' o o') (second : SameAnswer g' g'' o' o'') :
    SameAnswer g g'' o o'' := by
  obtain ⟨n, n', fact, there, there', known, known', name, notes⟩ := first
  obtain ⟨m, n'', fact', here, there'', sameFact, known'', name', notes'⟩ := second
  cases there'.symm.trans here
  cases known'.symm.trans sameFact
  exact ⟨n, n'', fact, there, there'', known, known'', name'.trans name, notes'.trans notes⟩

theorem KeepsInterface.trans (first : g.KeepsInterface g') (second : g'.KeepsInterface g'') :
    g.KeepsInterface g'' where
  inputs := forall₂_trans (fun one two => one.trans two) first.inputs second.inputs
  outputs := forall₂_trans (fun one two => one.trans two) first.outputs second.outputs

/-- The source that an input of a well-formed graph designates. -/
theorem WellFormed.input (wf : g.WellFormed) (mem : o ∈ g.inputs) :
    o.slot = 0 ∧ ∃ n fact, g.nodes[o.node]? = some n ∧ n.op = .source fact ∧
    n.facts = [fact] := by
  obtain ⟨slot, n, fact, there, op⟩ := wf.sources mem
  obtain ⟨facts, made, -, inferred, single⟩ := wf.infers there
  have same : made = fact := by
    simp only [op, Op.outputFact] at inferred
    split at inferred
    · exact (Except.ok.inj inferred).symm
    · simp at inferred
  exact ⟨slot, n, fact, there, op, by rw [single, same]⟩

/-- The node that an output of a well-formed graph designates. -/
theorem WellFormed.output (wf : g.WellFormed) (mem : o ∈ g.outputs) :
    ∃ n fact, g.nodes[o.node]? = some n ∧ g.fact? o = some fact := by
  obtain ⟨fact, known⟩ := isSome_output?_iff_fact?.1 (wf.answers mem)
  obtain ⟨n, there, -⟩ := fact?_eq_some.1 known
  exact ⟨n, fact, there, known⟩

theorem WellFormed.keepsInterface (wf : g.WellFormed) : g.KeepsInterface g where
  inputs := by
    rw [List.forall₂_same]
    intro o mem
    obtain ⟨slot, n, fact, there, op, facts⟩ := wf.input mem
    exact ⟨slot, slot, n, n, fact, there, there, op, op, facts, facts, rfl⟩
  outputs := by
    rw [List.forall₂_same]
    intro o mem
    obtain ⟨n, fact, there, known⟩ := wf.output mem
    exact ⟨n, n, fact, there, there, known, known, rfl, rfl⟩

/-- A rewriting step keeps the interface: what takes over an output has its fact, under the same
name and with the same notes. -/
theorem Rewritten.keepsInterface (rewritten : g.Rewritten node nodes k g') (wf : g.WellFormed) :
    g.KeepsInterface g' where
  inputs := by
    rw [rewritten.inputs_eq, List.forall₂_same]
    intro o mem
    obtain ⟨slot, n, fact, there, op, facts⟩ := wf.input mem
    obtain ⟨n', there', keeps, -⟩ := rewritten.kept there
    exact ⟨slot, slot, n, n', fact, there, there', op, keeps.op.trans op, facts,
      keeps.facts.trans facts, keeps.name⟩
  outputs := by
    rw [rewritten.outputs_eq]
    apply forall₂_map_right_of_mem
    intro o mem
    obtain ⟨n, fact, there, known⟩ := wf.output mem
    have known' := rewritten.fact?_redirect known
    by_cases taken : o = ⟨node.id, 0⟩
    · obtain ⟨m, new, name, notes, -⟩ := rewritten.taker
      obtain ⟨n', there', rfl⟩ := rewritten.came new
      rw [Outlet.redirect, if_pos taken] at known' ⊢
      subst taken
      obtain rfl := Option.some.inj (there.symm.trans rewritten.there)
      exact ⟨n, n', fact, there, there', known, known', name, notes⟩
    · obtain ⟨n', there', keeps, -⟩ := rewritten.kept there
      rw [Outlet.redirect, if_neg taken] at known' ⊢
      exact ⟨n, n', fact, there, there', known, known', keeps.name, keeps.provenance⟩

/-- A compaction keeps the interface: an output is a copy, with the notes of the node it is a copy
of. -/
theorem Compacts.keepsInterface (compacts : g.Compacts w g') (wf : g.WellFormed) :
    g.KeepsInterface g' where
  inputs := by
    have inputs := compacts.inputs
    rw [List.forall₂_iff_get] at inputs ⊢
    refine ⟨inputs.1, fun i here here' => ?_⟩
    obtain ⟨slot, n, fact, there, op, facts⟩ := wf.input (List.get_mem _ ⟨i, here⟩)
    obtain ⟨slot', m, n', copied, there', copies, -⟩ := compacts.found (inputs.2 i here here')
    cases there.symm.trans copied
    exact ⟨slot, slot'.trans slot, n, n', fact, there, there', op, copies.op.trans op, facts,
      copies.facts.trans facts, copies.name⟩
  outputs := by
    have outputs := compacts.outputs
    rw [List.forall₂_iff_get] at outputs ⊢
    refine ⟨outputs.1, fun i here here' => ?_⟩
    have mem := List.get_mem g.outputs ⟨i, here⟩
    obtain ⟨n, fact, there, known⟩ := wf.output mem
    have found := outputs.2 i here here'
    obtain ⟨-, m, n', copied, there', copies, notes⟩ := compacts.found found
    cases there.symm.trans copied
    exact ⟨n, n', fact, there, there', known, compacts.fact? found known, copies.name,
      notes (.answer mem)⟩

end Graph

/-- A run of a pass keeps the interface of a graph that was built. -/
theorem Pass.run_keepsInterface {p : Pass} {budget : Option Nat} {applied : Nat}
    {s s' : LoggedGraph} (built : s.graph.Built) (run : p.run budget s = .ok applied s') :
    s.graph.KeepsInterface s'.graph := by
  have wf := built.wellFormed
  obtain ⟨g, _, wf', kept, -, ended⟩ :=
    Pass.run_induction (fun _ g _ => s.graph.KeepsInterface g) wf
    (fun _ => wf.keepsInterface) (fun _ kept _ => kept)
    (fun wf kept rewrites => kept.trans (rewrites.keepsInterface wf)) run
  split at ended
  · obtain ⟨w, compacts⟩ := ended
    exact kept.trans (compacts.keepsInterface wf')
  · rw [ended]
    exact kept

/-- One convolution is rewritten. -/
theorem Pass.run_keepsInterface_oneConv :
    ∃ g s', Unpad.oneConv ⟨[2], [], [0], [1], .explicit, []⟩ [1, 1, 3] [1, 1, 2] .empty =
      .ok ⟨⟩ g ∧ g.Built ∧ Pass.conv.run none ⟨g, []⟩ = .ok 1 s' ∧ g.KeepsInterface s'.graph := by
  obtain ⟨g, made⟩ : ∃ g,
      Unpad.oneConv ⟨[2], [], [0], [1], .explicit, []⟩ [1, 1, 3] [1, 1, 2] .empty = .ok ⟨⟩ g :=
    ⟨_, rfl⟩
  have counted : Pass.conv.patchCount
      (Unpad.oneConv ⟨[2], [], [0], [1], .explicit, []⟩ [1, 1, 3] [1, 1, 2]) = some 1 := by cbv
  obtain ⟨s', run⟩ := Pass.run_of_patchCount made counted
  have built := Unpad.built_oneConv made
  exact ⟨g, s', made, built, run, Pass.run_keepsInterface (s := ⟨g, []⟩) built run⟩

end EvenPad
