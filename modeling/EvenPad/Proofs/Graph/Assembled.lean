import EvenPad.Proofs.Graph.Progress
import Mathlib.Logic.Relation

/-!
Graphs that are put together in any way: by adding nodes, by connecting any inlet to any outlet,
and by naming any outlets as inputs and outputs of the graph, whether they are there or not. A
step that fails is part of it, with what it has changed by then. Main statement:
`Assembled.tabulated`, every node of such a graph carries its position and has one outlet.
-/

namespace EvenPad.Graph

variable {g : Graph} {name : String} {op : Op} {fact : Fact} {id : Nat} {f : Node → Node}

/-- Every node carries its position and has one outlet. -/
structure Tabulated (g : Graph) : Prop where
  ids : ∀ {k : Nat} {n : Node}, g.nodes[k]? = some n → n.id = k
  single : ∀ {k : Nat} {n : Node}, g.nodes[k]? = some n → n.outputs.length = 1

namespace Tabulated

theorem empty : Tabulated .empty where
  ids there := by simp [Graph.empty] at there
  single there := by simp [Graph.empty] at there

variable (tabulated : g.Tabulated)
include tabulated

theorem modifyNode (same : ∀ n, (f n).id = n.id ∧ (f n).outputs.length = n.outputs.length) :
    (g.modifyNode id f).Tabulated := by
  have node {k : Nat} {m : Node} (there : (g.modifyNode id f).nodes[k]? = some m) :
      ∃ n, g.nodes[k]? = some n ∧ m.id = n.id ∧ m.outputs.length = n.outputs.length := by
    rw [modifyNode_getElem?] at there
    split at there
    · obtain ⟨n, here, rfl⟩ := Option.map_eq_some_iff.1 there
      exact ⟨n, here, same n⟩
    · exact ⟨m, there, rfl, rfl⟩
  constructor
  · intro k m there
    obtain ⟨n, here, id, -⟩ := node there
    exact id.trans (tabulated.ids here)
  · intro k m there
    obtain ⟨n, here, -, outlets⟩ := node there
    exact outlets.trans (tabulated.single here)

theorem modifySuccessors (o : Outlet) (f : List Inlet → List Inlet) :
    (g.modifySuccessors o f).Tabulated :=
  tabulated.modifyNode fun _ => ⟨rfl, by simp⟩

theorem append : (g.append name op [fact]).Tabulated := by
  have push : g.append name op [fact] = g.push (.fresh g.size name op [] fact) := rfl
  rw [push]
  constructor <;> intro k n there <;> rw [push_getElem?] at there <;> split at there
  · next last =>
    cases there
    exact last.symm
  · exact tabulated.ids there
  · cases there
    rfl
  · exact tabulated.single there

end Tabulated

/-! ## Steps -/

theorem tabulated_addNode (name : String) (op : Op) (fact : Fact) :
    Edit.Keeps Tabulated (addNode name op [fact]) := fun _ tabulated => tabulated.append

theorem tabulated_detach (previous : Outlet) (inlet : Inlet) :
    Edit.Keeps Tabulated (detach previous inlet) := by
  intro g tabulated
  cases there : g.output? previous with
  | none =>
    have failed : detach previous inlet g = .error (.faulty (.missingOutlet previous)) g := by
      simp only [detach, Edit.get_bind_apply, outputAt, there]
      rfl
    rwa [Edit.after_of_error failed]
  | some output =>
    have run : detach previous inlet g =
        .ok ⟨⟩ (g.modifySuccessors previous (·.filter (· ≠ inlet))) :=
      detach_eq_ok.2 ⟨by rw [there, Option.isSome_some], rfl⟩
    rw [Edit.after_of_ok run]
    exact tabulated.modifySuccessors _ _

theorem tabulated_enter (outlet : Outlet) (inlet : Inlet) (consumer : Node) :
    Edit.Keeps Tabulated (enter outlet inlet consumer) := by
  refine Edit.Keeps.bind (Edit.keeps_modify fun g tabulated =>
    tabulated.modifySuccessors _ _) fun _ => ?_
  split
  · exact Edit.keeps_modify fun g tabulated => tabulated.modifyNode fun _ => ⟨rfl, rfl⟩
  · split
    · exact Edit.keeps_modify fun g tabulated => tabulated.modifyNode fun _ => ⟨rfl, rfl⟩
    · exact Edit.keeps_lift

theorem tabulated_connect (outlet : Outlet) (inlet : Inlet) :
    Edit.Keeps Tabulated (connect outlet inlet) := by
  rw [connect_eq]
  refine Edit.keeps_get_bind fun g => Edit.keeps_lift.bind fun producer =>
    Edit.keeps_lift.bind fun consumer =>
    Edit.keeps_lift.bind fun _ => Edit.Keeps.bind ?_ fun _ => tabulated_enter _ _ _
  cases consumer.inputs[inlet.slot]? with
  | none => exact Edit.keeps_pure
  | some previous => exact tabulated_detach previous inlet

theorem tabulated_wire (name : String) (op : Op) (inputs : List Outlet) :
    Edit.Keeps Tabulated (wire name op inputs) := by
  refine Edit.Keeps.within (Edit.keeps_get_bind fun g => Edit.keeps_lift.bind fun facts =>
    Edit.keeps_lift.bind fun produced => (tabulated_addNode name op produced).bind fun id => ?_)
  exact (Edit.keeps_forM fun _ => tabulated_connect _ _).bind fun _ => Edit.keeps_pure

/-- What can be done to a graph with any outlets. A step may fail. -/
inductive Move : Graph → Graph → Prop
  | source {g : Graph} (name : String) (fact : Fact) : Move g ((addSource name fact).after g)
  | const {g : Graph} (name : String) (value : Tensor) : Move g ((addConst name value).after g)
  | wire {g : Graph} (name : String) (op : Op) (inputs : List Outlet) :
    Move g ((Graph.wire name op inputs).after g)
  | connect {g : Graph} (outlet : Outlet) (inlet : Inlet) : Move g
    ((Graph.connect outlet inlet).after g)
  | ask {g : Graph} (outlets : List Outlet) : Move g ((setInputs outlets).after g)
  | answer {g : Graph} (outlets : List Outlet) : Move g ((setOutputs outlets).after g)

/-- The graphs that are put together from the empty one. -/
def Assembled (g : Graph) : Prop := Relation.ReflTransGen Move .empty g

theorem Move.tabulated {g' : Graph} (move : Move g g')
    (tabulated : g.Tabulated) : g'.Tabulated := by
  cases move with
  | source name fact => exact ⟨tabulated.append.ids, tabulated.append.single⟩
  | const name value => exact tabulated.append
  | wire name op inputs => exact tabulated_wire name op inputs tabulated
  | connect outlet inlet => exact tabulated_connect outlet inlet tabulated
  | ask outlets => exact ⟨tabulated.ids, tabulated.single⟩
  | answer outlets => exact ⟨tabulated.ids, tabulated.single⟩

theorem Assembled.tabulated (assembled : g.Assembled) : g.Tabulated := by
  induction assembled with
  | refl => exact .empty
  | tail _ move ih => exact move.tabulated ih

end EvenPad.Graph
