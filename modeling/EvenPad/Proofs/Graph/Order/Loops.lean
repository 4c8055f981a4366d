import EvenPad.Proofs.Graph.Order
import Mathlib.Logic.Relation

/-!
When the nodes that some targets depend on can be put in order. From a node the search follows
what it reads, but it does not look at what a listed node reads. A node that has been opened is
`Suspended` on the stack until it is placed, under nodes only that it leads to, so a node that
comes up again while it is open leads to itself (`place_eq_error`). Main statement:
`orderFor_exact`, there is an order exactly if no node that is reached leads to itself, it lists
the nodes that are reached, and otherwise the refusal names one on a loop.
-/

namespace EvenPad.Graph

variable {nodes : List Node} {listed targets stack rest opened order order' : List Nat}
  {id source : Nat} {n : Node} {P : Nat → Prop} {failure : Failure}

/-- A node that is not listed reads an outlet of another. -/
def Follows (nodes : List Node) (listed : List Nat) (id source : Nat) : Prop :=
  id ∉ listed ∧ ∃ n o, nodes[id]? = some n ∧ o ∈ n.inputs ∧ o.node = source

/-- The node leads to another by what is read. -/
def LeadsTo (nodes : List Node) (listed : List Nat) : Nat → Nat → Prop :=
  Relation.TransGen (Follows nodes listed)

/-- The node is a target, or a target leads to it. -/
def Reached (nodes : List Node) (listed targets : List Nat) (id : Nat) : Prop :=
  ∃ target ∈ targets, Relation.ReflTransGen (Follows nodes listed) target id

theorem Reached.follow (reached : Reached nodes listed targets id)
    (follows : Follows nodes listed id source) :
    Reached nodes listed targets source := by
  obtain ⟨target, aim, path⟩ := reached
  exact ⟨target, aim, path.tail follows⟩

/-- In a table whose nodes read nodes of the table, the targets lead to no others. -/
theorem Reached.lt_length (reads : ∀ n ∈ nodes, ∀ o ∈ n.inputs, o.node < nodes.length)
    (aims : ∀ target ∈ targets, target < nodes.length)
    (reached : Reached nodes listed targets id) :
    id < nodes.length := by
  obtain ⟨target, aim, path⟩ := reached
  induction path with
  | refl => exact aims target aim
  | tail _ follows _ =>
    obtain ⟨-, n, o, there, read, rfl⟩ := follows
    exact reads n (List.mem_of_getElem? there) o read

/-! ## Open nodes on the stack -/

/-- Every node that has been opened and is not placed is on the stack. Above it are only nodes
that it leads to, and among them those that it reads and that are not placed. -/
def Suspended (nodes : List Node) (listed stack opened order : List Nat) : Prop :=
  ∀ id ∈ opened, id ∉ order → ∃ above below, stack = above ++ id :: below ∧
    (∀ i ∈ above, LeadsTo nodes listed id i) ∧
    ∀ n, nodes[id]? = some n → ∀ o ∈ n.inputs, o.node ∈ order ∨ o.node ∈ above

theorem suspended_nil : Suspended nodes listed stack [] order := by
  intro id mem
  cases mem

namespace Suspended

/-- A node goes off the stack once it is placed. -/
theorem pop (suspended : Suspended nodes listed (id :: rest) opened order) (kept : order ⊆ order')
    (placed : id ∈ order') : Suspended nodes listed rest opened order' := by
  intro i mem fresh
  obtain ⟨above, below, split, leads, waits⟩ := suspended i mem fun before => fresh (kept before)
  cases above with
  | nil =>
    obtain rfl : id = i := (List.cons.inj split).1
    exact absurd placed fresh
  | cons top above =>
    obtain ⟨rfl, rfl⟩ := List.cons.inj split
    refine ⟨above, below, rfl, fun j above => leads j (List.mem_cons_of_mem _ above), ?_⟩
    intro n there o read
    rcases waits n there o read with before | mem
    · exact .inl (kept before)
    · rcases List.mem_cons.1 mem with top | mem
      · exact .inl (top ▸ placed)
      · exact .inr mem

/-- What a node waits for goes on the stack above it when it is opened. -/
theorem push (suspended : Suspended nodes listed (id :: rest) opened order) (first : id ∉ opened)
    (inner : id ∉ listed) (there : nodes[id]? = some n) :
    Suspended nodes listed
      ((n.inputs.map Outlet.node).filter (fun source => !order.contains source) ++ id :: rest)
      (id :: opened) order := by
  have leadsAbove :
      ∀ i ∈ (n.inputs.map Outlet.node).filter (fun source => !order.contains source),
      Follows nodes listed id i := by
    intro i mem
    obtain ⟨o, read, rfl⟩ := List.mem_map.1 (List.mem_filter.1 mem).1
    exact ⟨inner, n, o, there, read, rfl⟩
  intro i mem fresh
  rcases List.mem_cons.1 mem with rfl | mem
  · refine ⟨_, rest, rfl, fun j above => .single (leadsAbove j above), ?_⟩
    intro m there' o read
    cases there.symm.trans there'
    by_cases before : o.node ∈ order
    · exact .inl before
    · exact .inr (List.mem_filter.2 ⟨List.mem_map_of_mem read, by simpa using before⟩)
  · obtain ⟨above, below, split, leads, waits⟩ := suspended i mem fresh
    cases above with
    | nil =>
      obtain rfl : id = i := (List.cons.inj split).1
      exact absurd mem first
    | cons top above =>
      obtain ⟨rfl, rfl⟩ := List.cons.inj split
      refine ⟨_ ++ id :: above, below,
        (List.append_assoc _ (id :: above) (i :: below)).symm, ?_, ?_⟩
      · intro j mem
        rcases List.mem_append.1 mem with pushed | mem
        · exact (leads id List.mem_cons_self).tail (leadsAbove j pushed)
        · exact leads j mem
      · intro m there' o read
        exact (waits m there' o read).imp_right (List.mem_append_right _)

/-- An open node that comes up again and still waits leads to itself: were nothing above it, all
that it reads would be placed. -/
theorem leadsTo_self (suspended : Suspended nodes listed (id :: rest) opened order)
    (again : id ∈ opened) (fresh : id ∉ order) (there : nodes[id]? = some n)
    (waits : ¬ ∀ source ∈ n.inputs, source.node ∈ order) : LeadsTo nodes listed id id := by
  obtain ⟨above, below, split, leads, placed⟩ := suspended id again fresh
  cases above with
  | nil =>
    refine absurd (fun o read => ?_) waits
    exact (placed n there o read).resolve_right List.not_mem_nil
  | cons top above =>
    obtain ⟨rfl, -⟩ := List.cons.inj split
    exact leads id List.mem_cons_self

end Suspended

/-- A search that comes across nodes of the table only fails at a node that leads to itself. -/
theorem place_eq_error (lt : ∀ {id}, P id → id < nodes.length)
    (closed : ∀ {id source}, P id → Follows nodes listed id source → P source)
    (stacked : ∀ id ∈ stack, P id) (suspended : Suspended nodes listed stack opened order)
    (run : place nodes listed stack opened order = .error failure) :
    ∃ id n, failure = .refused [] (.loop n) ∧ nodes[id]? = some n ∧ P id ∧
      LeadsTo nodes listed id id := by
  refine search_induction nodes listed (motive := fun stack opened order => (∀ id ∈ stack, P id) →
    Suspended nodes listed stack opened order →
    place nodes listed stack opened order = .error failure →
    ∃ id n, failure = .refused [] (.loop n) ∧ nodes[id]? = some n ∧ P id ∧
      LeadsTo nodes listed id id)
    ?_ ?_ ?_ ?_ ?_ stack opened order stacked suspended run
  · intro opened order _ _ run
    rw [place] at run
    cases run
  · intro id rest opened order here ih stacked suspended run
    rw [place_of_mem here] at run
    exact ih (List.forall_mem_cons.1 stacked).2 (suspended.pop (List.Subset.refl _) here) run
  · intro id rest opened order fresh ready ih stacked suspended run
    rw [place_of_ready fresh ready] at run
    exact ih (List.forall_mem_cons.1 stacked).2
      (suspended.pop (List.subset_append_left _ _)
        (List.mem_append_right _ (List.mem_singleton_self id))) run
  · intro id rest opened order _ _ missing stacked
    have inside := lt (List.forall_mem_cons.1 stacked).1
    exact absurd inside (Nat.not_lt.2 (List.getElem?_eq_none_iff.1 missing))
  · intro id rest opened order n fresh inner there waits ih stacked suspended run
    have inside := (List.forall_mem_cons.1 stacked).1
    rw [place_of_waiting rest fresh inner there waits] at run
    split at run
    · next again =>
      cases run
      exact ⟨id, n, rfl, there, inside, suspended.leadsTo_self again fresh there waits⟩
    · next first =>
      refine ih first (fun i mem => ?_) (suspended.push first inner there) run
      rcases List.mem_append.1 mem with mem | mem
      · obtain ⟨o, read, rfl⟩ := List.mem_map.1 (List.mem_filter.1 mem).1
        exact closed inside ⟨inner, n, o, there, read, rfl⟩
      · exact stacked i mem

/-! ## Sorted orders -/

/-- A sorted order is closed under what is followed. -/
theorem Sorted.mem_of_follows (sorted : Sorted nodes listed order) (mem : id ∈ order)
    (follows : Follows nodes listed id source) : source ∈ order := by
  obtain ⟨inner, n, o, there, read, rfl⟩ := follows
  obtain ⟨m, there', before⟩ := (sorted.closed mem).resolve_left inner
  cases there.symm.trans there'
  exact before o read

theorem Sorted.mem_of_path (sorted : Sorted nodes listed order) (mem : id ∈ order)
    (path : Relation.ReflTransGen (Follows nodes listed) id source) : source ∈ order := by
  induction path with
  | refl => exact mem
  | tail _ follows ih => exact sorted.mem_of_follows ih follows

/-- No node of a sorted order leads to itself: what the last one reads is sorted before it, and
leads to nothing that is not. -/
theorem Sorted.not_leadsTo_self (sorted : Sorted nodes listed order) (mem : id ∈ order) :
    ¬ LeadsTo nodes listed id id := by
  induction sorted with
  | nil => cases mem
  | @snoc front last before fresh ready ih =>
    rcases List.mem_append.1 mem with mem | mem
    · exact ih mem
    · obtain rfl := List.mem_singleton.1 mem
      intro loop
      obtain ⟨source, ⟨inner, n, o, there, read, rfl⟩, path⟩ := Relation.TransGen.head'_iff.1 loop
      obtain ⟨m, there', earlier⟩ := ready.resolve_left inner
      cases there.symm.trans there'
      exact fresh (before.mem_of_path (earlier o read) path)

/-! ## Orders for some targets -/

theorem orderFor_eq_ok (run : orderFor nodes listed targets = .ok order) :
    Sorted nodes listed order ∧ ∀ id, id ∈ order ↔ Reached nodes listed targets id := by
  simp only [orderFor, Checked.bind_eq_ok] at run
  obtain ⟨_, -, run⟩ := run
  obtain ⟨sorted, -, aimed⟩ := place_eq_ok run .nil
  refine ⟨sorted, fun id => ⟨?_, ?_⟩⟩
  · refine place_closed run (P := Reached nodes listed targets) ?_ (by simp) ?_ id
    · intro id n o reached inner there read
      exact reached.follow ⟨inner, n, o, there, read, rfl⟩
    · intro target aim
      exact ⟨target, List.mem_reverse.1 aim, .refl⟩
  · rintro ⟨target, aim, path⟩
    exact sorted.mem_of_path (aimed (List.mem_reverse.2 aim)) path

section Comes

variable (lt : ∀ {id}, P id → id < nodes.length)
  (closed : ∀ {id source}, P id → Follows nodes listed id source → P source)
  (aims : ∀ target ∈ targets, P target)
include lt closed aims

theorem orderFor_eq_error (run : orderFor nodes listed targets = .error failure) :
    ∃ id n, failure = .refused [] (.loop n) ∧ nodes[id]? = some n ∧ P id ∧
      LeadsTo nodes listed id id := by
  have checked : targets.forM (fun target =>
      Checked.require (target < nodes.length) (.targetOutsideGraph target)) = .ok ⟨⟩ :=
    Checked.forM_eq_ok_iff.2 fun target aim => by simpa using lt (aims target aim)
  rw [orderFor, checked] at run
  exact place_eq_error lt closed
    (fun target aim => aims target (List.mem_reverse.1 aim)) suspended_nil run

/-- There is an order if nothing that a search for the targets comes across leads to itself. -/
theorem orderFor_ok (loopFree : ∀ id, P id → ¬ LeadsTo nodes listed id id) :
    ∃ order, orderFor nodes listed targets = .ok order := by
  cases run : orderFor nodes listed targets with
  | ok order => exact ⟨order, rfl⟩
  | error failure =>
    obtain ⟨id, n, -, -, inside, loop⟩ := orderFor_eq_error lt closed aims run
    exact absurd loop (loopFree id inside)

end Comes

/-- The search, which always ends, puts what the targets lead to in order exactly if none of it
leads to itself: each node once, and unless it is listed after all that it reads. Otherwise it is
refused for a node on a loop. -/
theorem orderFor_exact (reads : ∀ n ∈ nodes, ∀ o ∈ n.inputs, o.node < nodes.length)
    (aims : ∀ target ∈ targets, target < nodes.length) :
    ((∃ order, orderFor nodes listed targets = .ok order) ↔
      ∀ id, Reached nodes listed targets id → ¬ LeadsTo nodes listed id id) ∧
    (∀ order, orderFor nodes listed targets = .ok order →
      order.Nodup ∧ (∀ id, id ∈ order ↔ Reached nodes listed targets id) ∧
      ∀ (k id : Nat) (n : Node), order[k]? = some id → id ∉ listed → nodes[id]? = some n →
        ∀ o ∈ n.inputs, o.node ∈ order.take k) ∧
    ∀ failure, orderFor nodes listed targets = .error failure →
      ∃ id n, failure = .refused [] (.loop n) ∧ nodes[id]? = some n ∧
        Reached nodes listed targets id ∧ LeadsTo nodes listed id id := by
  have lt {id : Nat} (reached : Reached nodes listed targets id) : id < nodes.length :=
    reached.lt_length reads aims
  have reaches : ∀ target ∈ targets, Reached nodes listed targets target := fun target aim =>
    ⟨target, aim, .refl⟩
  refine ⟨⟨?_, orderFor_ok lt Reached.follow reaches⟩, ?_, fun failure run =>
    orderFor_eq_error lt Reached.follow reaches run⟩
  · intro ⟨order, run⟩ id reached
    obtain ⟨sorted, mem_iff⟩ := orderFor_eq_ok run
    exact sorted.not_leadsTo_self ((mem_iff id).2 reached)
  · intro order run
    obtain ⟨sorted, mem_iff⟩ := orderFor_eq_ok run
    refine ⟨sorted.nodup, mem_iff, ?_⟩
    intro k id n at_k inner there
    obtain ⟨m, there', before⟩ := (sorted.before at_k).resolve_left inner
    cases there.symm.trans there'
    exact before

/-- Two ways lead from the last node but one to the first, which reads that node but is to be
listed. The second reads the first twice, and the last reads itself. -/
def knot : List Node :=
  let reading (id : Nat) (inputs : List Outlet) : Node := ⟨id, "", .pad, inputs, [], .empty⟩
  [reading 0 [⟨3, 0⟩], reading 1 [⟨0, 0⟩, ⟨0, 0⟩], reading 2 [⟨0, 0⟩], reading 3 [⟨1, 0⟩, ⟨2, 0⟩],
    reading 4 [⟨4, 0⟩]]

theorem orderFor_exact_knot :
    (∀ n ∈ knot, ∀ o ∈ n.inputs, o.node < knot.length) ∧
    (∃ order, orderFor knot [0] [3, 1, 3] = .ok order ∧ order.Nodup ∧
      ∀ id, id ∈ order ↔ Reached knot [0] [3, 1, 3] id) ∧
    ∃ n, orderFor knot [0] [3, 4] = .error (.refused [] (.loop n)) := by
  have reads : ∀ n ∈ knot, ∀ o ∈ n.inputs, o.node < knot.length := by decide
  refine ⟨reads, ?_, ?_⟩
  · obtain ⟨-, exact, -⟩ := @orderFor_exact knot [0] [3, 1, 3] reads (by decide)
    have run : orderFor knot [0] [3, 1, 3] = .ok [0, 1, 2, 3] := by cbv
    obtain ⟨nodup, reached, -⟩ := exact _ run
    exact ⟨_, run, nodup, reached⟩
  · obtain ⟨found, -, refused⟩ := @orderFor_exact knot [0] [3, 4] reads (by decide)
    have loop : LeadsTo knot [0] 4 4 :=
      .single ⟨by decide, _, ⟨4, 0⟩, rfl, List.mem_singleton_self _, rfl⟩
    cases run : orderFor knot [0] [3, 4] with
    | ok order => exact absurd loop (found.1 ⟨order, run⟩ 4 ⟨4, by decide, .refl⟩)
    | error failure =>
      obtain ⟨-, n, rfl, -⟩ := refused failure run
      exact ⟨n, rfl⟩

end EvenPad.Graph
