import EvenPad.Proofs.Graph.Compact.Progress
import EvenPad.Proofs.RuleSet

/-!
What the outputs of a graph compute from its inputs, as the expressions that they unfold to, and
that compaction keeps it. A node that is reached along several paths is unfolded on each, so the
sharing of nodes and their numbers do not show in an expression. Main statement:
`Referenced.compact_keeps_expressions`, a graph of which little is asked can be compacted, and
each of its outputs unfolds to the same expression as before.
-/

namespace EvenPad

section Related

variable {α β : Type} {R : α → β → Prop} {l : List α} {l' : List β}

theorem exists_forall₂ (related : ∀ a ∈ l, ∃ b, R a b) : ∃ l', List.Forall₂ R l l' := by
  induction l with
  | nil => exact ⟨[], .nil⟩
  | cons a rest ih =>
    obtain ⟨⟨b, first⟩, related⟩ := List.forall_mem_cons.1 related
    obtain ⟨l', rest⟩ := ih related
    exact ⟨b :: l', .cons first rest⟩

/-- What is related to nothing but each other comes first at the same position. -/
theorem idxOf?_eq_of_forall₂ [BEq α] [LawfulBEq α] [BEq β] [LawfulBEq β] {a : α} {b : β}
    (related : List.Forall₂ R l l') (only : ∀ {x y}, R x y → (x = a ↔ y = b)) :
    l.idxOf? a = l'.idxOf? b := by
  induction related with
  | nil => rfl
  | @cons x y _ _ first _ ih =>
    rw [List.idxOf?_cons, List.idxOf?_cons, ih]
    have same : (x == a) = (y == b) := by
      rw [Bool.eq_iff_iff, beq_iff_eq, beq_iff_eq]
      exact only first
    rw [same]

end Related

/-- What an outlet computes from the inputs of a graph, with all that is said of it on the way. -/
inductive Expression where
  /-- An outlet of an input, which is known by its position among the inputs. -/
  | input (position slot : Nat)
  /-- An outlet of a node that reads what its operands compute. -/
  | apply (name : String) (op : Op) (facts : List Fact) (notes : Provenance) (slot : Nat)
    (operands : List Expression)

namespace Graph

variable {g g' : Graph} {o o' : Outlet} {e e' : Expression} {n : Node} {order : List Nat}
  {kept unused : List Node} {r : Renumbering} {j : Nat}

/-- The outlet unfolds to the expression. -/
inductive Unfolds (g : Graph) : Outlet → Expression → Prop
  | input {o : Outlet} {position : Nat} :
    (g.output? o).isSome → g.inputs.idxOf? ⟨o.node, 0⟩ = some position →
    Unfolds g o (.input position o.slot)
  | apply {o : Outlet} {n : Node} {operands : List Expression} :
    (g.output? o).isSome → ⟨o.node, 0⟩ ∉ g.inputs → g.nodes[o.node]? = some n →
    operands.length = n.inputs.length →
    (∀ (i : Nat) (source : Outlet) (e : Expression), n.inputs[i]? = some source →
      operands[i]? = some e → Unfolds g source e) →
    Unfolds g o (.apply n.name n.op n.facts n.provenance o.slot operands)

/-- An outlet unfolds to one expression at most. -/
theorem Unfolds.unique (unfolds : g.Unfolds o e) (unfolds' : g.Unfolds o e') : e = e' := by
  induction unfolds generalizing e' with
  | input _ at_position =>
    cases unfolds' with
    | input _ at_position' =>
      cases at_position.symm.trans at_position'
      rfl
    | apply _ inner =>
      rw [List.idxOf?_eq_none_iff.2 inner] at at_position
      cases at_position
  | @apply o n operands _ inner there length _ ih =>
    cases unfolds' with
    | input _ at_position =>
      rw [List.idxOf?_eq_none_iff.2 inner] at at_position
      cases at_position
    | @apply _ n' operands' _ _ there' length' reads' =>
      cases there.symm.trans there'
      have same : operands = operands' := by
        refine List.ext_getElem (length.trans length'.symm) fun i lt lt' => ?_
        have read := List.getElem?_eq_getElem (length ▸ lt)
        exact ih i _ _ read (List.getElem?_eq_getElem lt)
          (reads' i _ _ read (List.getElem?_eq_getElem lt'))
      rw [same]

/-! ## One node -/

namespace Carrying

variable (carrying : g.Carrying order kept unused r g')
include carrying

theorem output?_eq : g'.output? = r.graph.output? := by
  funext o
  rw [output?, output?, carrying.nodes]

/-- An input stays at its position among the inputs. -/
theorem idxOf?_inputs (at_j : (kept.map g.cut ++ unused.map stub)[j]? = some n) :
    g.inputs.idxOf? ⟨n.id, 0⟩ = g'.inputs.idxOf? ⟨j, 0⟩ := by
  refine idxOf?_eq_of_forall₂ carrying.inputs fun {x y} found => ?_
  obtain ⟨i, m, at_i, node, -, rfl⟩ := carrying.carries.find?_eq_some found
  obtain ⟨_, slot⟩ := x
  simp only [Outlet.mk.injEq] at node ⊢
  refine and_congr_left fun _ => ?_
  rw [node]
  constructor
  · exact fun same => carrying.carries.position_eq at_i at_j same
  · rintro rfl
    cases at_i.symm.trans at_j
    rfl

/-- An input stays one, and nothing else becomes one. -/
theorem mem_inputs_iff (at_j : (kept.map g.cut ++ unused.map stub)[j]? = some n) :
    ⟨n.id, 0⟩ ∈ g.inputs ↔ ⟨j, 0⟩ ∈ g'.inputs := by
  rw [← not_iff_not, ← List.idxOf?_eq_none_iff, ← List.idxOf?_eq_none_iff,
    carrying.idxOf?_inputs at_j]

/-- A node that is carried over unfolds to what it did if all that it reads does. -/
theorem unfolds_of_reads (referenced : g.Referenced) (mem : o.node ∈ order)
    (there : (g.output? o).isSome)
    (reads : ⟨o.node, 0⟩ ∉ g.inputs → ∀ n, g.nodes[o.node]? = some n → ∀ source ∈ n.inputs,
      ∃ e source', r.wires.find? source = some source' ∧ g.Unfolds source e ∧
        g'.Unfolds source' e) :
    ∃ e o', r.wires.find? o = some o' ∧ g.Unfolds o e ∧ g'.Unfolds o' e := by
  obtain ⟨j, placed⟩ := List.mem_iff_getElem?.1 mem
  obtain ⟨n, node, at_j⟩ := carrying.carried_of_placed placed
  have id_eq := referenced.ids node
  have slot : o.slot < (g.cut n).outputs.length := by
    obtain ⟨output, known⟩ := Option.isSome_iff_exists.1 there
    obtain ⟨m, node', produced⟩ := output?_eq_some.1 known
    cases node.symm.trans node'
    rw [outputs_cut]
    exact (List.getElem?_eq_some_iff.1 produced).1
  have found : r.wires.find? o = some ⟨j, o.slot⟩ := by
    have found := carrying.carries.find? at_j slot
    rwa [id_cut, id_eq] at found
  have there' : (g'.output? ⟨j, o.slot⟩).isSome := by
    rw [carrying.output?_eq]
    exact isSome_output?_iff_fact?.2 (carrying.carries.there found)
  have position := carrying.idxOf?_inputs at_j
  rw [id_cut, id_eq] at position
  cases input : g.inputs.idxOf? ⟨o.node, 0⟩ with
  | some k => exact ⟨_, _, found, .input there input, .input there' (position.symm.trans input)⟩
  | none =>
    have inner := List.idxOf?_eq_none_iff.1 input
    have inner' := List.idxOf?_eq_none_iff.1 (position.symm.trans input)
    obtain ⟨m, here, copies, notes⟩ := carrying.here at_j
    rw [cut_of_not_mem (by rwa [id_eq])] at copies notes
    obtain ⟨operands, unfold⟩ := exists_forall₂ (reads inner n node)
    refine ⟨_, _, found, .apply there inner node unfold.length_eq.symm ?_, ?_⟩
    · intro i source e read operand
      obtain ⟨e', operand', _, -, unfolds, -⟩ := forall₂_getElem? unfold read
      cases operand.symm.trans operand'
      exact unfolds
    · rw [← copies.name, ← copies.op, ← copies.facts, ← notes]
      refine .apply there' inner' here (unfold.length_eq.symm.trans copies.inputs.length_eq) ?_
      intro i source' e read' operand
      obtain ⟨source, read, found⟩ := forall₂_getElem? copies.inputs.flip read'
      obtain ⟨e', operand', source'', found', -, unfolds'⟩ := forall₂_getElem? unfold read
      cases operand.symm.trans operand'
      cases found.symm.trans found'
      exact unfolds'

/-! ## The whole graph -/

/-- In a sorted order what a node reads is unfolded before the node. -/
theorem unfolds {front : List Nat} (referenced : g.Referenced)
    (sorted : Sorted g.nodes (g.inputs.map Outlet.node) front) (within : front ⊆ order)
    (mem : o.node ∈ front) (there : (g.output? o).isSome) :
    ∃ e o', r.wires.find? o = some o' ∧ g.Unfolds o e ∧ g'.Unfolds o' e := by
  induction sorted generalizing o with
  | nil => simp at mem
  | @snoc front id _ _ ready ih =>
    obtain ⟨earlier, last⟩ := List.append_subset.1 within
    rcases List.mem_append.1 mem with mem | mem
    · exact ih earlier mem there
    · obtain rfl := List.mem_singleton.1 mem
      refine carrying.unfolds_of_reads referenced (last mem) there fun inner n node source read =>
        ?_
      have unlisted : o.node ∉ g.inputs.map Outlet.node := fun listed =>
        inner (referenced.mem_inputs_of_listed listed)
      obtain ⟨m, node', before⟩ := ready.resolve_left unlisted
      cases node.symm.trans node'
      exact ih earlier (before source read) (referenced.reads node read)

end Carrying

/-- The outlet unfolds to the expression and to no other. -/
def Computes (g : Graph) (o : Outlet) (e : Expression) : Prop := ∀ e', g.Unfolds o e' ↔ e' = e

theorem Unfolds.computes (unfolds : g.Unfolds o e) : g.Computes o e :=
  fun _ => ⟨fun unfolds' => unfolds'.unique unfolds, fun same => same ▸ unfolds⟩

/-- A graph can be compacted if no node that its outputs depend on depends on itself, and its
outputs compute what they did. -/
theorem Referenced.compact_keeps_expressions (referenced : g.Referenced) (loopFree : g.LoopFree)
    (log : Log) : ∃ g' log', compact ⟨g, log⟩ = .ok ⟨⟩ ⟨g', log'⟩ ∧
      List.Forall₂ (fun o o' => ∃ e, g.Computes o e ∧ g'.Computes o' e) g.outputs g'.outputs := by
  obtain ⟨g', log', compacted⟩ := referenced.compacted_ok loopFree log
  obtain ⟨order, kept, unused, r, carrying⟩ := compacted_eq_ok referenced compacted
  obtain ⟨sorted, -, answers⟩ := evalOrder_eq_ok carrying.ordered
  refine ⟨g', log', RuleSet.compact_eq_ok.2 compacted, ?_⟩
  have found := (List.forall₂_and_left _ _).2 ⟨fun _ mem => mem, carrying.outputs⟩
  refine found.imp fun o o' ⟨answer, found⟩ => ?_
  obtain ⟨e, _, found', unfolds, unfolds'⟩ :=
    carrying.unfolds referenced sorted (fun _ mem => mem)
    (answers o answer) (referenced.answers answer)
  cases found.symm.trans found'
  exact ⟨e, unfolds.computes, unfolds'.computes⟩

/-- A node is read three times and answers, an input reads what depends on it, the other input is
not read, a node that no output depends on reads itself, and the lists of readers are wrong. -/
def tangled : Graph :=
  let fact : Fact := .typed .f32 (.ofLengths [3])
  { nodes :=
      [⟨0, "data", .source fact, [⟨3, 0⟩], [⟨fact, [⟨7, 1⟩]⟩], .empty⟩,
        ⟨1, "unused", .source fact, [], [⟨fact, [⟨0, 0⟩]⟩], .empty⟩,
        ⟨2, "parts", .pad, [⟨0, 0⟩], [⟨fact, []⟩, ⟨fact, []⟩], .empty⟩,
        ⟨3, "whole", .pad, [⟨2, 1⟩, ⟨2, 0⟩, ⟨2, 1⟩], [⟨fact, []⟩], .empty⟩,
        ⟨4, "loop", .pad, [⟨4, 0⟩], [⟨fact, []⟩], .empty⟩]
    inputs := [⟨0, 0⟩, ⟨1, 0⟩]
    outputs := [⟨3, 0⟩, ⟨2, 1⟩, ⟨3, 0⟩] }

theorem referenced_tangled : tangled.Referenced := by decide

theorem loopFree_tangled : tangled.LoopFree := by
  have searchable : Searchable tangled.nodes (tangled.inputs.map Outlet.node) id
      (· ∈ [0, 2, 3]) := {
    lt := fun inside => (by decide : ∀ id ∈ [0, 2, 3], id < tangled.nodes.length) _ inside
    closed := fun inside inner there read =>
      (by decide : ∀ id ∈ [0, 2, 3], id ∉ tangled.inputs.map Outlet.node →
        ∀ n ∈ tangled.nodes[id]?, ∀ o ∈ n.inputs,
          o.node ∈ [0, 2, 3]) _ inside inner _ there _ read
    ranked := fun inside inner there read =>
      (by decide : ∀ id ∈ [0, 2, 3], id ∉ tangled.inputs.map Outlet.node →
        ∀ n ∈ tangled.nodes[id]?, ∀ o ∈ n.inputs, o.node < id) _ inside inner _ there _ read }
  exact referenced_tangled.loopFree_of_searchable searchable (by decide)

theorem Referenced.compact_keeps_expressions_tangled :
    tangled.Referenced ∧ tangled.LoopFree ∧ ∃ g' log', compact ⟨tangled, []⟩ = .ok ⟨⟩ ⟨g', log'⟩ ∧
      List.Forall₂ (fun o o' => ∃ e, tangled.Computes o e ∧ g'.Computes o' e)
        [⟨3, 0⟩, ⟨2, 1⟩, ⟨3, 0⟩] g'.outputs :=
  ⟨referenced_tangled, loopFree_tangled,
    referenced_tangled.compact_keeps_expressions loopFree_tangled []⟩

end Graph

end EvenPad
