import EvenPad.Proofs.Graph.Order.Loops

/-!
Graphs without cycles. Main statements: built graphs have none (`Built.acyclic`), and a
well-formed graph without cycles has an evaluation order (`WellFormed.evalOrder_ok`).
-/

namespace EvenPad.Graph

variable {g g' : Graph} {n : Node} {o : Outlet} {id : Nat} {rank : Nat → Nat}

/-- Each node has a higher rank than those that it reads. -/
def RankedBy (g : Graph) (rank : Nat → Nat) : Prop :=
  ∀ ⦃id : Nat⦄ ⦃n : Node⦄ ⦃o : Outlet⦄, g.nodes[id]? = some n → o ∈ n.inputs →
    rank o.node < rank id

def Acyclic (g : Graph) : Prop := ∃ rank, g.RankedBy rank

/-- No node reads itself. -/
def Loopless (g : Graph) : Prop :=
  ∀ ⦃id : Nat⦄ ⦃n : Node⦄ ⦃o : Outlet⦄, g.nodes[id]? = some n → o ∈ n.inputs → o.node ≠ id

theorem Acyclic.loopless (acyclic : g.Acyclic) : g.Loopless := by
  rcases acyclic with ⟨rank, ranked⟩
  intro id n o there read same
  have lt := ranked there read
  rw [same] at lt
  exact Nat.lt_irrefl _ lt

/-! ## Built graphs -/

theorem rankedBy_bare : g.bare.RankedBy rank ↔ g.RankedBy rank := by
  constructor
  · intro ranked id n o there
    exact ranked (n := n.bare) (by rw [bare_getElem?, there, Option.map_some])
  · intro ranked id n o there
    rw [bare_getElem?, Option.map_eq_some_iff] at there
    rcases there with ⟨m, there, rfl⟩
    exact ranked (n := m) there

/-- A node that reads what is there comes after it. -/
theorem RankedBy.push (ranked : g.RankedBy fun id => id) (infers : g.Infers n) :
    (g.push n).RankedBy fun id => id := by
  intro id m o there read
  rw [push_getElem?] at there
  split at there
  · next last =>
    cases Option.some.inj there
    rw [last]
    exact infers.lt_size read
  · exact ranked there read

theorem RankedBy.wire {name : String} {op : Op} {inputs : List Outlet}
    (ranked : g.RankedBy fun id => id) (run : Graph.wire name op inputs g = .ok o g') :
    g'.RankedBy fun id => id := by
  rcases wire_eq_ok run with ⟨-, facts, fact, known, inferred, bare, -⟩
  rw [← rankedBy_bare, bare]
  have known : List.Forall₂ (fun o f => g.bare.fact? o = some f) inputs facts := by
    simpa only [fact?_bare] using known
  exact (rankedBy_bare.2 ranked).push ⟨facts, fact, known, inferred, rfl⟩

/-- What is built reads what is there already. -/
theorem Built.ranked (built : g.Built) : g.RankedBy fun id => id := by
  induction built with
  | empty =>
    intro id n o there
    simp [Graph.empty] at there
  | @source _ _ name fact _ _ run ranked =>
    rcases addSource_eq_ok run with ⟨-, rfl⟩
    intro id n o there read
    exact ranked.push (n := .fresh _ name (.source fact) [] fact) ⟨[], fact, .nil, rfl, rfl⟩
      there read
  | @const _ _ name value _ _ run ranked =>
    rcases addConst_eq_ok run with ⟨-, rfl⟩
    exact ranked.push ⟨[], .constant value, .nil, rfl, rfl⟩
  | wire _ run ranked => exact ranked.wire run
  | fused _ run ranked =>
    rcases wireFused_eq_ok run with ⟨_, -, run⟩
    exact ranked.wire run
  | answer _ _ run ranked =>
    simp only [setOutputs, Edit.modify_apply, EStateM.Result.ok.injEq] at run
    rcases run with ⟨-, rfl⟩
    exact ranked
  | note _ run ranked =>
    simp only [updateNode, Edit.get_bind_apply, Edit.lift_bind_eq_ok, Edit.modify_apply,
      EStateM.Result.ok.injEq] at run
    rcases run with ⟨_, -, -, rfl⟩
    intro id n o there read
    rw [modifyNode_getElem?] at there
    split at there
    · rcases Option.map_eq_some_iff.1 there with ⟨m, before, rfl⟩
      exact ranked before read
    · exact ranked there read

theorem Built.acyclic (built : g.Built) : g.Acyclic := ⟨_, built.ranked⟩

/-! ## Evaluation orders -/

section Place

variable {nodes : List Node} {listed : List Nat} {source : Nat} {P : Nat → Prop}

/-- What a search comes across: nodes of the table, each ranked above what it reads unless it is
listed. -/
structure Searchable (nodes : List Node) (listed : List Nat) (rank : Nat → Nat)
    (P : Nat → Prop) : Prop where
  lt : ∀ {id}, P id → id < nodes.length
  closed : ∀ {id n o}, P id → id ∉ listed → nodes[id]? = some n → o ∈ n.inputs → P o.node
  ranked : ∀ {id n o}, P id → id ∉ listed → nodes[id]? = some n → o ∈ n.inputs →
    rank o.node < rank id

namespace Searchable

variable (searchable : Searchable nodes listed rank P)
include searchable

theorem follow (inside : P id) (follows : Follows nodes listed id source) :
    P source ∧ rank source < rank id := by
  obtain ⟨inner, n, o, there, read, rfl⟩ := follows
  exact ⟨searchable.closed inside inner there read, searchable.ranked inside inner there read⟩

/-- Ranks go down along the way, so none of these nodes leads to itself. -/
theorem not_leadsTo_self (inside : P id) : ¬ LeadsTo nodes listed id id := by
  have lower {source : Nat} (leads : LeadsTo nodes listed id source) : P source ∧
      rank source < rank id := by
    induction leads with
    | single follows => exact searchable.follow inside follows
    | tail _ follows ih =>
      obtain ⟨between, less⟩ := ih
      obtain ⟨inside', less'⟩ := searchable.follow between follows
      exact ⟨inside', Nat.lt_trans less' less⟩
  exact fun loop => Nat.lt_irrefl _ (lower loop).2

end Searchable

end Place

/-- A graph has an evaluation order when its outputs are among nodes that can be searched. -/
theorem evalOrder_ok {P : Nat → Prop}
    (searchable : Searchable g.nodes (g.inputs.map Outlet.node) rank P)
    (answers : ∀ o ∈ g.outputs, P o.node) : ∃ order, g.evalOrder = .ok order := by
  refine orderFor_ok searchable.lt (fun inside follows => (searchable.follow inside follows).1) ?_
    fun _ inside => searchable.not_leadsTo_self inside
  intro id mem
  obtain ⟨o, answer, rfl⟩ := List.mem_map.1 mem
  exact answers o answer

/-- A well-formed graph without cycles has an evaluation order. -/
theorem WellFormed.evalOrder_ok (wf : g.WellFormed) (acyclic : g.Acyclic) :
    ∃ order, g.evalOrder = .ok order := by
  rcases acyclic with ⟨rank, ranked⟩
  have searchable : Searchable g.nodes (g.inputs.map Outlet.node) rank (· < g.size) :=
    ⟨id, fun _ _ there read => (wf.infers there).lt_size read,
      fun _ _ there read => ranked there read⟩
  exact Graph.evalOrder_ok searchable fun o mem => (wf.answer_eq mem).2

end EvenPad.Graph
