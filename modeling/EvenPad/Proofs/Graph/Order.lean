import EvenPad.Graph.Order
import EvenPad.Proofs.Graph.Built

/-!
Evaluation orders. Main statements: an evaluation order is `Sorted`, each node once and after what
it reads (`evalOrder_eq_ok`), and it lists the nodes that the outputs depend on
(`WellFormed.mem_evalOrder`).
-/

namespace EvenPad.Graph

variable {g : Graph} {nodes : List Node} {listed stack opened order order' : List Nat} {id : Nat}

/-- Each node comes once, and after the nodes that it reads unless it is listed. -/
inductive Sorted (nodes : List Node) (listed : List Nat) : List Nat → Prop
  | nil : Sorted nodes listed []
  | snoc {order : List Nat} {id : Nat} :
    Sorted nodes listed order → id ∉ order →
    (id ∈ listed ∨ ∃ n, nodes[id]? = some n ∧ ∀ source ∈ n.inputs, source.node ∈ order) →
    Sorted nodes listed (order ++ [id])

theorem Sorted.nodup (sorted : Sorted nodes listed order) : order.Nodup := by
  induction sorted with
  | nil => exact .nil
  | snoc _ fresh _ ih =>
    rw [List.nodup_append]
    refine ⟨ih, by simp, ?_⟩
    intro a mem b single same
    rw [List.mem_singleton] at single
    exact fresh (single ▸ same ▸ mem)

/-- What a sorted node reads is sorted before it. -/
theorem Sorted.before {k : Nat} (sorted : Sorted nodes listed order)
    (at_k : order[k]? = some id) :
    id ∈ listed ∨ ∃ n, nodes[id]? = some n ∧ ∀ source ∈ n.inputs, source.node ∈ order.take k := by
  induction sorted with
  | nil => simp at at_k
  | @snoc front last _ _ reads ih =>
    rcases Nat.lt_or_ge k front.length with lt | ge
    · rw [List.getElem?_append_left lt] at at_k
      rw [List.take_append_of_le_length (Nat.le_of_lt lt)]
      exact ih at_k
    · obtain rfl : k = front.length := by
        have le := (List.getElem?_eq_some_iff.1 at_k).1
        rw [List.length_append, List.length_singleton] at le
        omega
      rw [List.getElem?_concat_length] at at_k
      cases Option.some.inj at_k
      rwa [List.take_left']
      rfl

theorem Sorted.closed (sorted : Sorted nodes listed order) (mem : id ∈ order) :
    id ∈ listed ∨ ∃ n, nodes[id]? = some n ∧ ∀ source ∈ n.inputs, source.node ∈ order := by
  obtain ⟨k, at_k⟩ := List.mem_iff_getElem?.1 mem
  rcases sorted.before at_k with here | ⟨n, there, before⟩
  · exact .inl here
  · exact .inr ⟨n, there, fun source read => List.mem_of_mem_take (before source read)⟩

/-! ## The search -/

section Place

variable {rest : List Nat} {n : Node}

theorem place_of_mem (here : id ∈ order) :
    place nodes listed (id :: rest) opened order = place nodes listed rest opened order := by
  rw [place, if_pos (by simpa using here)]

theorem place_of_ready (fresh : id ∉ order)
    (ready : id ∈ listed ∨ ∃ n, nodes[id]? = some n ∧ ∀ source ∈ n.inputs, source.node ∈ order) :
    place nodes listed (id :: rest) opened order =
      place nodes listed rest opened (order ++ [id]) := by
  rw [place, if_neg (by simpa using fresh)]
  by_cases isListed : id ∈ listed
  · rw [if_pos (by simpa using isListed)]
  · rcases ready.resolve_left isListed with ⟨n, there, before⟩
    rw [if_neg (by simpa using isListed)]
    split
    · next missing => simp [there] at missing
    · next m found =>
      cases there.symm.trans found
      rw [if_pos (by simpa using before)]

theorem place_of_missing (fresh : id ∉ order) (inner : id ∉ listed)
    (missing : nodes[id]? = none) :
    place nodes listed (id :: rest) opened order = Checked.fault (.missingNode id) := by
  rw [place, if_neg (by simpa using fresh), if_neg (by simpa using inner)]
  split
  · rfl
  · next there => simp [missing] at there

theorem place_of_waiting (rest : List Nat) (fresh : id ∉ order) (inner : id ∉ listed)
    (there : nodes[id]? = some n) (waits : ¬ ∀ source ∈ n.inputs, source.node ∈ order) :
    place nodes listed (id :: rest) opened order =
      if id ∈ opened then Checked.refuse (.loop n) else
        place nodes listed
          ((n.inputs.map Outlet.node).filter (fun source => !order.contains source) ++ id :: rest)
          (id :: opened) order := by
  rw [place, if_neg (by simpa using fresh), if_neg (by simpa using inner)]
  split
  · next missing => simp [there] at missing
  · next m found =>
    cases there.symm.trans found
    rw [if_neg (by simpa using waits)]
    split
    · next again => rw [if_pos (by simpa using again)]
    · next first => rw [if_neg (by simpa using first)]

/-- Induction on a search: what is placed is passed over, what is ready is placed, a node that is
not there ends the search, and what waits for its inputs is put under them unless it was
before. -/
theorem search_induction (nodes : List Node) (listed : List Nat)
    {motive : List Nat → List Nat → List Nat → Prop}
    (done : ∀ opened order, motive [] opened order)
    (passed : ∀ {id rest opened order}, id ∈ order → motive rest opened order →
      motive (id :: rest) opened order)
    (placed : ∀ {id rest opened order}, id ∉ order →
      (id ∈ listed ∨ ∃ n, nodes[id]? = some n ∧ ∀ source ∈ n.inputs, source.node ∈ order) →
      motive rest opened (order ++ [id]) → motive (id :: rest) opened order)
    (missing : ∀ {id rest opened order}, id ∉ order → id ∉ listed → nodes[id]? = none →
      motive (id :: rest) opened order)
    (waiting : ∀ {id rest opened order n}, id ∉ order → id ∉ listed → nodes[id]? = some n →
      (¬ ∀ source ∈ n.inputs, source.node ∈ order) →
      (id ∉ opened →
        motive
          ((n.inputs.map Outlet.node).filter (fun source => !order.contains source) ++ id :: rest)
          (id :: opened) order) →
      motive (id :: rest) opened order)
    (stack opened order : List Nat) : motive stack opened order := by
  induction stack, opened, order using place.induct nodes listed with
  | case1 opened order => exact done opened order
  | case2 opened order id rest here ih => exact passed (by simpa using here) ih
  | case3 opened order id rest fresh isListed ih =>
    exact placed (by simpa using fresh) (.inl (by simpa using isListed)) ih
  | case4 opened order id rest fresh inner none =>
    exact missing (by simpa using fresh) (by simpa using inner) none
  | case5 opened order id rest fresh inner node there ready ih =>
    exact placed (by simpa using fresh) (.inr ⟨node, there, by simpa using ready⟩) ih
  | case6 opened order id rest fresh inner node there waits again =>
    exact waiting (by simpa using fresh) (by simpa using inner) there
      (by simpa using waits) fun first =>
      absurd (by simpa using again) first
  | case7 opened order id rest fresh inner node there waits first missing ih =>
    have same : missing =
        (node.inputs.map Outlet.node).filter fun source => !order.contains source := by
      simp [missing]
    rw [same] at ih
    exact waiting (by simpa using fresh) (by simpa using inner) there
      (by simpa using waits) fun _ => ih

/-- Induction on a search that succeeds. -/
theorem place_induction {motive : List Nat → List Nat → List Nat → Prop}
    (done : ∀ order, motive [] order order)
    (passed : ∀ {id rest order order'}, id ∈ order → motive rest order order' →
      motive (id :: rest) order order')
    (placed : ∀ {id rest order order'}, id ∉ order →
      (id ∈ listed ∨ ∃ n, nodes[id]? = some n ∧ ∀ source ∈ n.inputs, source.node ∈ order) →
      motive rest (order ++ [id]) order' → motive (id :: rest) order order')
    (opens : ∀ {id rest order order' n}, id ∉ order → id ∉ listed → nodes[id]? = some n →
      (¬ ∀ source ∈ n.inputs, source.node ∈ order) →
      motive ((n.inputs.map Outlet.node).filter
        (fun source => !order.contains source) ++ id :: rest)
        order order' →
      motive (id :: rest) order order')
    (run : place nodes listed stack opened order = .ok order') : motive stack order order' := by
  refine search_induction nodes listed
    (motive := fun stack opened order => place nodes listed stack opened order = .ok order' →
      motive stack order order') ?_ ?_ ?_ ?_ ?_ stack opened order run
  · intro opened order run
    rw [place] at run
    obtain rfl := Except.ok.inj run
    exact done order
  · intro id rest opened order here ih run
    rw [place_of_mem here] at run
    exact passed here (ih run)
  · intro id rest opened order fresh ready ih run
    rw [place_of_ready fresh ready] at run
    exact placed fresh ready (ih run)
  · intro id rest opened order fresh inner none run
    rw [place_of_missing fresh inner none] at run
    cases run
  · intro id rest opened order n fresh inner there waits ih run
    rw [place_of_waiting rest fresh inner there waits] at run
    split at run
    · cases run
    · next first => exact opens fresh inner there waits (ih first run)

end Place

/-- The search places what is on its stack, and keeps a sorted order sorted. -/
theorem place_eq_ok (run : place nodes listed stack opened order = .ok order')
    (sorted : Sorted nodes listed order) :
    Sorted nodes listed order' ∧ order ⊆ order' ∧ stack ⊆ order' := by
  refine place_induction (motive := fun stack order order' => Sorted nodes listed order →
    Sorted nodes listed order' ∧ order ⊆ order' ∧ stack ⊆ order') ?_ ?_ ?_ ?_ run sorted
  · intro order sorted
    exact ⟨sorted, List.Subset.refl _, List.nil_subset _⟩
  · intro id rest order order' here ih sorted
    rcases ih sorted with ⟨sorted', kept, rest⟩
    exact ⟨sorted', kept, List.cons_subset.2 ⟨kept here, rest⟩⟩
  · intro id rest order order' fresh ready ih sorted
    rcases ih (.snoc sorted fresh ready) with ⟨sorted', kept, rest⟩
    rcases List.append_subset.1 kept with ⟨kept, here⟩
    exact ⟨sorted', kept, List.cons_subset.2 ⟨here List.mem_cons_self, rest⟩⟩
  · intro id rest order order' n _ _ _ _ ih sorted
    rcases ih sorted with ⟨sorted', kept, stack⟩
    exact ⟨sorted', kept, (List.append_subset.1 stack).2⟩

/-- What holds of the stack and is handed on to what is read, except by listed nodes, holds of
everything that is placed. -/
theorem place_closed {P : Nat → Prop} (run : place nodes listed stack opened order = .ok order')
    (closed : ∀ {id n source}, P id → id ∉ listed → nodes[id]? = some n → source ∈ n.inputs →
      P source.node)
    (before : ∀ id ∈ order, P id) (stacked : ∀ id ∈ stack, P id) : ∀ id ∈ order', P id := by
  refine place_induction (motive := fun stack order order' => (∀ id ∈ order, P id) →
    (∀ id ∈ stack, P id) → ∀ id ∈ order', P id) ?_ ?_ ?_ ?_ run before stacked
  · intro order before _
    exact before
  · intro id rest order order' _ ih before stacked
    exact ih before (List.forall_mem_cons.1 stacked).2
  · intro id rest order order' _ _ ih before stacked
    rcases List.forall_mem_cons.1 stacked with ⟨here, stacked⟩
    refine ih ?_ stacked
    intro i mem
    rcases List.mem_append.1 mem with mem | mem
    · exact before i mem
    · rwa [List.mem_singleton.1 mem]
  · intro id rest order order' n _ inner there _ ih before stacked
    refine ih before ?_
    intro i mem
    rcases List.mem_append.1 mem with mem | mem
    · rcases List.mem_map.1 (List.mem_filter.1 mem).1 with ⟨source, read, rfl⟩
      exact closed (stacked id List.mem_cons_self) inner there read
    · exact stacked i mem

/-! ## Live nodes -/

/-- The outputs depend on the node. -/
inductive Live (g : Graph) : Nat → Prop
  | answer {o : Outlet} : o ∈ g.outputs → Live g o.node
  | read {id : Nat} {n : Node} {o : Outlet} :
    Live g id → g.nodes[id]? = some n → o ∈ n.inputs → Live g o.node

/-- A node reads an outlet of another. -/
def Reads (g : Graph) (id source : Nat) : Prop :=
  ∃ n o, g.nodes[id]? = some n ∧ o ∈ n.inputs ∧ o.node = source

/-- The graph answers with an outlet of the node, or another node reads one. -/
def Wanted (g : Graph) (id : Nat) : Prop := (∃ o ∈ g.outputs, o.node = id) ∨
    ∃ reader, g.Reads reader id

theorem Live.wanted (live : g.Live id) : g.Wanted id := by
  cases live with
  | answer mem => exact .inl ⟨_, mem, rfl⟩
  | read _ here read => exact .inr ⟨_, _, _, here, read, rfl⟩

theorem Typed.reads_iff {source : Nat} (typed : g.Typed) :
    g.Reads id source ↔ ∃ n, g.nodes[id]? = some n ∧ ⟨source, 0⟩ ∈ n.inputs := by
  constructor
  · rintro ⟨n, ⟨_, slot⟩, there, read, rfl⟩
    obtain rfl : slot = 0 := (typed.read_eq there read).1
    exact ⟨n, there, read⟩
  · rintro ⟨n, there, read⟩
    exact ⟨n, _, there, read, rfl⟩

theorem Typed.wanted_iff (typed : g.Typed) :
    g.Wanted id ↔ ⟨id, 0⟩ ∈ g.outputs ∨ ∃ reader, g.Reads reader id := by
  refine or_congr_left ⟨?_, fun mem => ⟨_, mem, rfl⟩⟩
  rintro ⟨⟨_, slot⟩, mem, rfl⟩
  obtain rfl : slot = 0 := (typed.answer_eq mem).1
  exact mem

theorem evalOrder_eq_ok (run : g.evalOrder = .ok order) :
    Sorted g.nodes (g.inputs.map Outlet.node) order ∧ (∀ id ∈ order, g.Live id) ∧
      ∀ o ∈ g.outputs, o.node ∈ order := by
  simp only [evalOrder, orderFor, Checked.bind_eq_ok] at run
  rcases run with ⟨_, -, run⟩
  rcases place_eq_ok run .nil with ⟨sorted, -, targets⟩
  refine ⟨sorted, place_closed run (fun live _ there read => .read live there read) (by simp) ?_,
    ?_⟩
  · intro id mem
    rcases List.mem_map.1 (List.mem_reverse.1 mem) with ⟨o, answer, rfl⟩
    exact .answer answer
  · intro o mem
    exact targets (List.mem_reverse.2 (List.mem_map_of_mem mem))

/-- The inputs of a well-formed graph read nothing. -/
theorem WellFormed.inputs_of_listed {n : Node} (wf : g.WellFormed)
    (isListed : id ∈ g.inputs.map Outlet.node)
    (there : g.nodes[id]? = some n) : n.inputs = [] := by
  rcases List.mem_map.1 isListed with ⟨o, mem, rfl⟩
  rcases wf.sources mem with ⟨-, m, fact, here, op⟩
  cases there.symm.trans here
  rcases wf.infers there with ⟨facts, _, known, inferred, -⟩
  simp only [op, Op.outputFact] at inferred
  split at inferred
  · next nothing =>
    rw [List.isEmpty_iff.1 nothing] at known
    exact List.forall₂_nil_right_iff.1 known
  · simp at inferred

/-- The evaluation order of a well-formed graph lists the nodes that the outputs depend on. -/
theorem WellFormed.mem_evalOrder (wf : g.WellFormed) (run : g.evalOrder = .ok order) :
    id ∈ order ↔ g.Live id := by
  rcases evalOrder_eq_ok run with ⟨sorted, live, targets⟩
  constructor
  · exact live id
  · intro isLive
    induction isLive with
    | answer mem => exact targets _ mem
    | read _ there read ih =>
      rcases sorted.closed ih with isListed | ⟨m, here, before⟩
      · rw [wf.inputs_of_listed isListed there] at read
        simp at read
      · cases there.symm.trans here
        exact before _ read

/-- The outputs depend on nodes of the table only. -/
theorem WellFormed.lt_size_of_live (wf : g.WellFormed) (live : g.Live id) : id < g.size := by
  cases live with
  | answer mem => exact (wf.answer_eq mem).2
  | read _ here read => exact (wf.read_eq here read).2

theorem WellFormed.lt_size_of_listed (wf : g.WellFormed)
    (listed : id ∈ g.inputs.map Outlet.node) :
    id < g.size := by
  obtain ⟨o, mem, rfl⟩ := List.mem_map.1 listed
  obtain ⟨-, n, fact, there, -⟩ := wf.sources mem
  exact (List.getElem?_eq_some_iff.1 there).1

end EvenPad.Graph
