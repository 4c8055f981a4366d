import EvenPad.Proofs.Graph.Compact.Normal
import EvenPad.Proofs.Graph.Inputs

/-!
Whether facts can be inferred again after compaction. A node keeps its operator and its facts, and
reads what stands for its inputs, which has the same facts; but an input of the graph reads
nothing any more, and hardly any operator is content with that. Main statement:
`BuiltFreely.compact_infers_iff`, every node of the evaluation order still infers its fact exactly
if the inputs that outputs depend on have an operator that is `Nullary`.
-/

namespace EvenPad

variable {op : Op} {fact : Fact} {facts : List Fact}

namespace Op

/-- The operator has an output without reading anything. -/
def Nullary : Op → Prop
  | .const _ | .source _ => True
  | _ => False

/-- Other operators count what they read. -/
theorem nullary_of_outputFact_nil (inferred : op.outputFact [] = .ok fact) : op.Nullary := by
  cases op with
  | conv kind w =>
    simp [outputFact, Conv.resolveForward] at inferred
  | deconv kind w takes =>
    simp [outputFact, Conv.resolveDeconv, Conv.deconvInputs, Conv.transposedInputs] at inferred
  | fusedDeconv w takes built =>
    simp [outputFact, fusedFact, Conv.resolveFused, Conv.fusedInputs, Conv.transposedInputs]
      at inferred
  | pad => cases inferred
  | stridedSlice beginMask endMask => cases inferred
  | const value => trivial
  | source fact => trivial

/-- What such an operator infers it infers from nothing. -/
theorem Nullary.outputFact_nil (nullary : op.Nullary)
    (inferred : op.outputFact facts = .ok fact) :
    op.outputFact [] = .ok fact := by
  cases op with
  | const value => exact inferred
  | source fact =>
    cases facts with
    | nil => exact inferred
    | cons => cases inferred
  | _ => cases nullary

end Op

namespace Graph

variable {g g' : Graph} {n m : Node} {o o' : Outlet} {order order' : List Nat}
  {kept unused : List Node} {r : Renumbering} {k : Nat} {l : List Outlet}

/-- A node that reads nothing infers what its operator tells from nothing. -/
theorem infers_of_inputs_eq_nil (reads : n.inputs = []) :
    g.Infers n ↔ ∃ fact, n.op.outputFact [] = .ok fact ∧ n.facts = [fact] := by
  rw [Infers, reads]
  constructor
  · intro infers
    obtain ⟨facts, fact, known, inferred, single⟩ := infers
    cases known
    exact ⟨fact, inferred, single⟩
  · intro told
    obtain ⟨fact, inferred, single⟩ := told
    exact ⟨[], fact, .nil, inferred, single⟩

/-! ## One node -/

namespace Carrying

variable (carrying : g.Carrying order kept unused r g') (referenced : g.Referenced)
include carrying referenced

/-- What stands for an outlet has its fact. -/
theorem fact?_eq (found : r.wires.find? o = some o') : g'.fact? o' = g.fact? o := by
  obtain ⟨j, c, at_j, node, slot, rfl⟩ := carrying.carries.find?_eq_some found
  obtain ⟨m, here, copies, -⟩ := carrying.here at_j
  obtain ⟨n, there, id_eq, facts⟩ : ∃ n : Node, g.nodes[n.id]? = some n ∧ c.id = n.id ∧
      c.facts[o.slot]? = n.facts[o.slot]? := by
    rcases carrying.carried_cases referenced at_j with ⟨n, -, there, rfl⟩ | ⟨n, -, there, -, rfl⟩
    · exact ⟨n, there, id_cut, by rw [facts_cut]⟩
    · refine ⟨n, there, rfl, ?_⟩
      have first : o.slot < 1 := by
        rw [stub, List.length_take] at slot
        exact Nat.lt_of_lt_of_le slot (Nat.min_le_left _ _)
      rw [facts_stub, List.getElem?_take_of_lt first]
  rw [fact?, fact?, output?, output?, here, node, id_eq, there]
  have same : m.facts[o.slot]? = n.facts[o.slot]? := by rw [copies.facts, facts]
  rwa [Node.facts, Node.facts, List.getElem?_map, List.getElem?_map] at same

theorem known_iff {outlets outlets' : List Outlet} {facts : List Fact}
    (found : List.Forall₂ (fun o o' => r.wires.find? o = some o') outlets outlets') :
    List.Forall₂ (fun o f => g'.fact? o = some f) outlets' facts ↔
      List.Forall₂ (fun o f => g.fact? o = some f) outlets facts := by
  induction found generalizing facts with
  | nil => simp
  | cons head _ ih =>
    cases facts with
    | nil => simp
    | cons fact facts =>
      rw [List.forall₂_cons, List.forall₂_cons, carrying.fact?_eq referenced head, ih]

theorem infers_iff_of_copies (copies : n.Copies r.wires m) : g'.Infers m ↔ g.Infers n := by
  simp only [Infers, copies.op, copies.facts, carrying.known_iff referenced copies.inputs]

/-- A node that is carried over from the evaluation order infers its fact again unless it is an
input and has to read something. -/
theorem infers_iff (placed : order[k]? = some n.id) (there : g.nodes[n.id]? = some n)
    (here : g'.nodes[k]? = some m) (infers : g.Infers n) :
    g'.Infers m ↔ (⟨n.id, 0⟩ ∈ g.inputs → n.op.Nullary) := by
  obtain ⟨n', there', at_k⟩ := carrying.carried_of_placed placed
  cases there.symm.trans there'
  obtain ⟨m', here', copies, -⟩ := carrying.here at_k
  cases here.symm.trans here'
  by_cases input : ⟨n.id, 0⟩ ∈ g.inputs
  · obtain ⟨facts, fact, -, inferred, single⟩ := infers
    have reads : m.inputs = [] := by
      have inputs := copies.inputs
      rw [inputs_cut_of_mem input] at inputs
      exact List.forall₂_nil_left_iff.1 inputs
    rw [infers_of_inputs_eq_nil reads, copies.op, copies.facts, op_cut, facts_cut]
    constructor
    · intro told _
      obtain ⟨fact, told, -⟩ := told
      exact Op.nullary_of_outputFact_nil told
    · intro nullary
      exact ⟨fact, (nullary input).outputFact_nil inferred, single⟩
  · rw [cut_of_not_mem input] at copies
    rw [carrying.infers_iff_of_copies referenced copies]
    exact ⟨fun _ isInput => absurd isInput input, fun _ => infers⟩

/-- A node of the evaluation order of the compaction is carried over from that of the graph, as an
input or not. -/
theorem exists_placed (ordered : g'.evalOrder = .ok order') (mem : k ∈ order') :
    ∃ n m : Node, order[k]? = some n.id ∧ g.nodes[n.id]? = some n ∧
      g'.nodes[k]? = some m ∧ m.op = n.op ∧ (⟨n.id, 0⟩ ∈ g.inputs ↔ ⟨k, 0⟩ ∈ g'.inputs) := by
  obtain ⟨-, live, -⟩ := evalOrder_eq_ok ordered
  have lt := carrying.lt_of_live referenced (live k mem)
  obtain ⟨n, there, at_k⟩ := carrying.carried_of_placed (List.getElem?_eq_getElem lt)
  have id_eq := referenced.ids there
  obtain ⟨m, here, copies, -⟩ := carrying.here at_k
  have listed := carrying.mem_inputs_iff at_k
  rw [id_cut] at listed
  exact ⟨n, m, by rw [List.getElem?_eq_getElem lt, id_eq], by rwa [id_eq], here,
    by rw [copies.op, op_cut], listed⟩

end Carrying

/-! ## The whole graph -/

/-- A graph that was built with inputs anywhere infers its facts, and can be compacted. Then a
node of the evaluation order infers its fact again exactly if it is no input or its operator is
nullary, and all of them do exactly if no output depended on an input that is not nullary. -/
theorem BuiltFreely.compact_infers_iff (built : g.BuiltFreely) (log : Log) :
    (∀ n ∈ g.nodes, g.Infers n) ∧
    ∃ g' log' order, compact ⟨g, log⟩ = .ok ⟨⟩ ⟨g', log'⟩ ∧ g'.evalOrder = .ok order ∧
      (∀ k ∈ order, ∃ n, g'.nodes[k]? = some n ∧
        (g'.Infers n ↔ (⟨k, 0⟩ ∈ g'.inputs → n.op.Nullary))) ∧
      ((∀ k ∈ order, ∀ n, g'.nodes[k]? = some n → g'.Infers n) ↔
        ∀ o ∈ g.inputs, g.Demanded o.node → ∀ n, g.nodes[o.node]? = some n → n.op.Nullary) := by
  obtain ⟨h, l, base, there, rfl⟩ := built.exists_built
  have wf := base.wellFormed
  have referenced := wf.referenced_withInputs there
  have acyclic : (h.withInputs l).Acyclic := base.acyclic
  have infers {k : Nat} {n : Node} (at_k : (h.withInputs l).nodes[k]? = some n) :
      (h.withInputs l).Infers n :=
    wf.infers at_k
  generalize h.withInputs l = g at referenced acyclic infers ⊢
  obtain ⟨g', log', compacted⟩ := referenced.compacted_ok acyclic.loopFree log
  obtain ⟨order, kept, unused, r, carrying⟩ := compacted_eq_ok referenced compacted
  have referenced' := carrying.referenced_compaction referenced
  obtain ⟨order', ordered'⟩ :=
    referenced'.evalOrder_ok (carrying.normal referenced).acyclic.loopFree
  refine ⟨fun n mem => ?_, g', log', order', RuleSet.compact_eq_ok.2 compacted,
    ordered', ?_, ?_, ?_⟩
  · obtain ⟨k, at_k⟩ := List.mem_iff_getElem?.1 mem
    exact infers at_k
  · intro k mem
    obtain ⟨n, m, placed, there, here, op, input⟩ :=
      carrying.exists_placed referenced ordered' mem
    refine ⟨m, here, ?_⟩
    rw [carrying.infers_iff referenced placed there here (infers there), input, op]
  · intro again o input demanded n there
    obtain ⟨k, placed⟩ :=
      List.mem_iff_getElem?.1 ((referenced.mem_evalOrder carrying.ordered).2 demanded)
    have mem : k ∈ order' :=
      (referenced'.mem_evalOrder ordered').2 (carrying.demanded referenced placed)
    obtain ⟨n', m, placed', there', here, -, -⟩ := carrying.exists_placed referenced ordered' mem
    have same : o.node = n'.id := Option.some.inj (placed.symm.trans placed')
    rw [same] at there
    cases there.symm.trans there'
    refine (carrying.infers_iff referenced placed' there' here (infers there')).1
      (again k mem m here) ?_
    rw [← same]
    exact referenced.mem_inputs_of_listed (List.mem_map_of_mem input)
  · intro nullary k mem m here
    obtain ⟨n, m', placed, there, here', -, -⟩ := carrying.exists_placed referenced ordered' mem
    cases here.symm.trans here'
    refine (carrying.infers_iff referenced placed there here (infers there)).2 fun input => ?_
    exact nullary _ input
      ((referenced.mem_evalOrder carrying.ordered).1 (List.mem_of_getElem? placed)) n there

/-- A transposed convolution that answers and is taken for the only input. -/
def cutDeconv : Edit Graph Unit := do
  let data ← addSource "x" (.typed .f32 (.ofLengths [1, 1, 4]))
  let filters ← addSource "f" (.typed .f32 (.ofLengths [1, 1, 3]))
  let out ← wire "d" (.deconv .convolutionBackpropData ⟨[], [], [], [], .explicit, []⟩ false)
      [data, filters]
  setOutputs [out]
  setInputs [out]

theorem builtFreely_cutDeconv (run : cutDeconv .empty = .ok ⟨⟩ g) : g.BuiltFreely := by
  simp only [cutDeconv, Edit.bind_eq_ok] at run
  obtain ⟨_, _, addData, _, _, addFilters, out, _, wire, _, _, answer, ask⟩ := run
  have there := isSome_of_wire wire
  refine .ask (.answer (.wire (.source (.source .empty addData) addFilters) wire) ?_ answer) ?_
    ask
  · intro o mem
    cases List.mem_singleton.1 mem
    exact there
  · cases answer
    intro o mem
    cases List.mem_singleton.1 mem
    exact there

/-- It does not infer its fact any more. -/
theorem BuiltFreely.compact_infers_iff_cutDeconv :
    ∃ g, cutDeconv .empty = .ok ⟨⟩ g ∧ g.BuiltFreely ∧ (∀ n ∈ g.nodes, g.Infers n) ∧
      ∃ g' log' order k n, compact ⟨g, []⟩ = .ok ⟨⟩ ⟨g', log'⟩ ∧
        g'.evalOrder = .ok order ∧ k ∈ order ∧ g'.nodes[k]? = some n ∧ ¬ g'.Infers n := by
  obtain ⟨g, made, inputs, outputs, node⟩ : ∃ g, cutDeconv .empty = .ok ⟨⟩ g ∧
      g.inputs = [⟨2, 0⟩] ∧ g.outputs = [⟨2, 0⟩] ∧
      g.nodes[2]?.map Node.op =
        some (.deconv .convolutionBackpropData ⟨[], [], [], [], .explicit, []⟩ false) :=
    ⟨_, rfl, rfl, rfl, rfl⟩
  have built := builtFreely_cutDeconv made
  obtain ⟨infers, g', log', order, run, ordered, -, again⟩ := built.compact_infers_iff []
  obtain ⟨n, there, op⟩ := Option.map_eq_some_iff.1 node
  have fails : ¬ ∀ k ∈ order, ∀ n, g'.nodes[k]? = some n → g'.Infers n := by
    intro all
    have nullary :=
      again.1 all ⟨2, 0⟩ (by simp [inputs]) ⟨⟨2, 0⟩, by simp [outputs], .refl⟩ n there
    rw [op] at nullary
    exact nullary
  push Not at fails
  obtain ⟨k, mem, m, here, not⟩ := fails
  exact ⟨g, made, built, infers, g', log', order, k, m, run, ordered, mem, here, not⟩

end Graph

end EvenPad
