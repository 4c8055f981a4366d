import EvenPad.Graph.Query

/-!
The order in which the nodes that some targets depend on can be evaluated: inputs first. The
search keeps a stack of nodes that are still to be placed, and opens a node at most once before
its inputs are placed; a node that is met again while it is open lies on a cycle.
-/

namespace EvenPad.Graph

/-- The positions of a table that have not been opened. -/
def unopened (size : Nat) (opened : List Nat) : Nat :=
  (List.range size).countP fun id => !opened.contains id

private theorem countP_lt_of_drop {p q : Nat → Bool} {a : Nat} {l : List Nat}
    (imp : ∀ x, q x = true → p x = true) (mem : a ∈ l) (pa : p a = true) (qa : q a = false) :
    l.countP q < l.countP p := by
  induction l with
  | nil => cases mem
  | cons x rest ih =>
    have le : rest.countP q ≤ rest.countP p := List.countP_mono_left fun y _ => imp y
    rw [List.countP_cons, List.countP_cons]
    rcases List.mem_cons.1 mem with rfl | mem
    · rw [if_pos pa, if_neg (by simp [qa])]
      omega
    · have lt := ih mem
      split
      · next held => rw [if_pos (imp x held)]; omega
      · split <;> omega

/-- Opening a node leaves one fewer unopened. -/
theorem unopened_cons_lt {size id : Nat} {opened : List Nat} (lt : id < size)
    (fresh : opened.contains id = false) :
    unopened size (id :: opened) < unopened size opened := by
  unfold unopened
  apply countP_lt_of_drop (a := id)
  · intro x hx
    simp_all
  · exact List.mem_range.2 lt
  · simpa using fresh
  · simp

/-- Places the nodes on a stack, and before each the nodes of its inputs, in slot order. A listed
node is placed without looking at its inputs. -/
def place (nodes : List Node) (listed : List Nat) (stack opened order : List Nat) :
    Checked (List Nat) :=
  match stack with
  | [] => .ok order
  | id :: rest =>
    if order.contains id then place nodes listed rest opened order
    else if listed.contains id then place nodes listed rest opened (order ++ [id])
    else
      match _ : nodes[id]? with
      | none => Checked.fault (.missingNode id)
      | some node =>
        if node.inputs.all (fun source => order.contains source.node) then
          place nodes listed rest opened (order ++ [id])
        else
          match _ : opened.contains id with
          | true => Checked.refuse (.loop node)
          | false =>
            let missing := (node.inputs.map Outlet.node).filter fun source =>
              !order.contains source
            place nodes listed (missing ++ id :: rest) (id :: opened) order
termination_by (unopened nodes.length opened, stack.length)
decreasing_by
  · exact Prod.Lex.right _ (by simp)
  · exact Prod.Lex.right _ (by simp)
  · exact Prod.Lex.right _ (by simp)
  · exact Prod.Lex.left _ _
      (unopened_cons_lt (List.getElem?_eq_some_iff.1 ‹_ = some node›).1 ‹_ = false›)

/-- The nodes that some targets depend on, inputs first, the last target's first. Inputs of listed
nodes do not count. -/
def orderFor (nodes : List Node) (listed targets : List Nat) : Checked (List Nat) := do
  targets.forM fun target =>
    Checked.require (target < nodes.length) (.targetOutsideGraph target)
  place nodes listed targets.reverse [] []

/-- The nodes that the outputs of a graph depend on, inputs first. -/
def evalOrder (g : Graph) : Checked (List Nat) :=
  orderFor g.nodes (g.inputs.map Outlet.node) (g.outputs.map Outlet.node)

end EvenPad.Graph
