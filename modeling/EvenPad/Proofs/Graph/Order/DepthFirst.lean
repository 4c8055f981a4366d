import EvenPad.Proofs.Graph.Order.Loops

/-!
Depth-first order. `DepthFirst` tells without a stack what it is to visit some nodes: a node that
is placed already is passed over, and any other is placed after the nodes that it reads, which are
visited in slot order. What the search keeps on its stack are nodes that are still to be visited
(`depthFirst_of_place`): it leaves out those that are placed, and a node that waits under what it
reads is not placed by visiting that, because it would lead to itself. Main statement:
`orderFor_depthFirst`, an order that is found is the one in which the targets are visited, from
the last to the first.
-/

namespace EvenPad.Graph

/-- Visits of some nodes, one after another: the nodes that are placed before and after them. -/
inductive DepthFirst (nodes : List Node) (listed : List Nat) : List Nat →
    List Nat → List Nat → Prop
  | done {order : List Nat} : DepthFirst nodes listed [] order order
  | passed {id : Nat} {rest order order' : List Nat} :
    id ∈ order → DepthFirst nodes listed rest order order' →
    DepthFirst nodes listed (id :: rest) order order'
  | listed {id : Nat} {rest order order' : List Nat} :
    id ∉ order → id ∈ listed → DepthFirst nodes listed rest (order ++ [id]) order' →
      DepthFirst nodes listed (id :: rest) order order'
  | inner {id : Nat} {n : Node} {rest order before order' : List Nat} :
    id ∉ order → id ∉ listed → nodes[id]? = some n →
      DepthFirst nodes listed (n.inputs.map Outlet.node) order before →
      DepthFirst nodes listed rest (before ++ [id]) order' →
      DepthFirst nodes listed (id :: rest) order order'

variable {nodes : List Node}
  {listed ids rest order before order' order'' targets stack opened : List Nat}
  {id : Nat} {n : Node}

namespace DepthFirst

/-- Visits come to one order only. -/
theorem unique (visits : DepthFirst nodes listed ids order order')
    (visits' : DepthFirst nodes listed ids order order'') : order' = order'' := by
  induction visits generalizing order'' with
  | done =>
    cases visits'
    rfl
  | passed here _ ih =>
    cases visits' with
    | passed _ others => exact ih others
    | listed fresh => exact absurd here fresh
    | inner fresh => exact absurd here fresh
  | listed fresh isListed _ ih =>
    cases visits' with
    | passed here => exact absurd here fresh
    | listed _ _ others => exact ih others
    | inner _ inner => exact absurd isListed inner
  | inner fresh inner there _ _ ihReads ih =>
    cases visits' with
    | passed here => exact absurd here fresh
    | listed _ isListed => exact absurd isListed inner
    | inner _ _ there' reads others =>
      cases there.symm.trans there'
      rw [← ihReads reads] at others
      exact ih others

theorem append_iff : DepthFirst nodes listed (ids ++ rest) order order'' ↔
    ∃ order', DepthFirst nodes listed ids order order' ∧
      DepthFirst nodes listed rest order' order'' := by
  constructor
  · intro visits
    induction ids generalizing order with
    | nil => exact ⟨order, .done, visits⟩
    | cons id ids ih =>
      cases visits with
      | passed here others =>
        obtain ⟨order', first, last⟩ := ih others
        exact ⟨order', .passed here first, last⟩
      | listed fresh isListed others =>
        obtain ⟨order', first, last⟩ := ih others
        exact ⟨order', .listed fresh isListed first, last⟩
      | inner fresh inner there reads others =>
        obtain ⟨order', first, last⟩ := ih others
        exact ⟨order', .inner fresh inner there reads first, last⟩
  · intro ⟨order', first, last⟩
    induction first with
    | done => exact last
    | passed here _ ih => exact .passed here (ih last)
    | listed fresh isListed _ ih => exact .listed fresh isListed (ih last)
    | inner fresh inner there reads _ _ ih => exact .inner fresh inner there reads (ih last)

/-- What is visited is placed, and what was placed stays. -/
theorem places (visits : DepthFirst nodes listed ids order order') :
    order ⊆ order' ∧ ids ⊆ order' := by
  induction visits with
  | done => exact ⟨List.Subset.refl _, List.nil_subset _⟩
  | passed here _ ih => exact ⟨ih.1, List.cons_subset.2 ⟨ih.1 here, ih.2⟩⟩
  | listed _ _ _ ih =>
    have kept := List.append_subset.1 ih.1
    exact ⟨kept.1, List.cons_subset.2 ⟨kept.2 List.mem_cons_self, ih.2⟩⟩
  | inner _ _ _ _ _ ihReads ih =>
    have kept := List.append_subset.1 ih.1
    exact ⟨List.Subset.trans ihReads.1 kept.1,
      List.cons_subset.2 ⟨kept.2 List.mem_cons_self, ih.2⟩⟩

/-- Nodes that are placed already are passed over. -/
theorem of_subset (here : ids ⊆ order) : DepthFirst nodes listed ids order order := by
  induction ids with
  | nil => exact .done
  | cons id rest ih =>
    have among := List.cons_subset.1 here
    exact .passed among.1 (ih among.2)

/-- So they can be left out. -/
theorem of_filter (kept : order ⊆ before)
    (visits : DepthFirst nodes listed (ids.filter fun id => !order.contains id) before order') :
    DepthFirst nodes listed ids before order' := by
  induction ids generalizing before with
  | nil => exact visits
  | cons id rest ih =>
    by_cases here : id ∈ order
    · rw [List.filter_cons_of_neg (by simpa using here)] at visits
      exact .passed (kept here) (ih kept visits)
    · rw [List.filter_cons_of_pos (by simpa using here), ← List.singleton_append, append_iff]
        at visits
      obtain ⟨middle, first, others⟩ := visits
      rw [← List.singleton_append, append_iff]
      exact ⟨middle, first, ih (List.Subset.trans kept first.places.1) others⟩

/-- The nodes that are placed are those that what is visited leads to. -/
theorem mem_cases {i : Nat} (visits : DepthFirst nodes listed ids order order')
    (mem : i ∈ order') :
    i ∈ order ∨ Reached nodes listed ids i := by
  have onward {first : Nat} {others : List Nat} (reached : Reached nodes listed others i) :
      Reached nodes listed (first :: others) i := by
    obtain ⟨target, aim, path⟩ := reached
    exact ⟨target, List.mem_cons_of_mem first aim, path⟩
  induction visits with
  | done => exact .inl mem
  | passed _ _ ih => exact (ih mem).imp_right onward
  | @listed id _ _ _ _ _ _ ih =>
    rcases ih mem with placed | reached
    · rcases List.mem_append.1 placed with earlier | last
      · exact .inl earlier
      · exact .inr ⟨id, List.mem_cons_self, List.mem_singleton.1 last ▸ .refl⟩
    · exact .inr (onward reached)
  | @inner id n _ _ _ _ _ inner there _ _ ihReads ih =>
    rcases ih mem with placed | reached
    · rcases List.mem_append.1 placed with earlier | last
      · rcases ihReads earlier with before | ⟨source, read, path⟩
        · exact .inl before
        · obtain ⟨o, mem, rfl⟩ := List.mem_map.1 read
          exact .inr ⟨id, List.mem_cons_self, .head ⟨inner, n, o, there, mem, rfl⟩ path⟩
      · exact .inr ⟨id, List.mem_cons_self, List.mem_singleton.1 last ▸ .refl⟩
    · exact .inr (onward reached)

end DepthFirst

/-- A search that succeeds visits the nodes on its stack. -/
theorem depthFirst_of_place (run : place nodes listed stack opened order = .ok order')
    (sorted : Sorted nodes listed order) : DepthFirst nodes listed stack order order' := by
  refine place_induction (motive := fun stack order order' => Sorted nodes listed order' →
    DepthFirst nodes listed stack order order') ?_ ?_ ?_ ?_ run (place_eq_ok run sorted).1
  · intro order _
    exact .done
  · intro id rest order order' here ih sorted
    exact .passed here (ih sorted)
  · intro id rest order order' fresh ready ih sorted
    by_cases isListed : id ∈ listed
    · exact .listed fresh isListed (ih sorted)
    · obtain ⟨n, there, before⟩ := ready.resolve_left isListed
      have reads : n.inputs.map Outlet.node ⊆ order := by
        intro source read
        obtain ⟨o, mem, rfl⟩ := List.mem_map.1 read
        exact before o mem
      exact .inner fresh isListed there (.of_subset reads) (ih sorted)
  · intro id rest order order' n fresh inner there _ ih sorted
    obtain ⟨before, reads, others⟩ := DepthFirst.append_iff.1 (ih sorted)
    have reads := DepthFirst.of_filter (List.Subset.refl order) reads
    have loopFree := sorted.not_leadsTo_self (others.places.2 List.mem_cons_self)
    -- what the node reads has been visited, and the node has not been placed by that
    have waiting : id ∉ before := by
      intro placed
      obtain ⟨source, read, path⟩ := (reads.mem_cases placed).resolve_left fresh
      obtain ⟨o, mem, rfl⟩ := List.mem_map.1 read
      exact loopFree (Relation.TransGen.head' ⟨inner, n, o, there, mem, rfl⟩ path)
    cases others with
    | passed here => exact absurd here waiting
    | listed _ isListed => exact absurd isListed inner
    | inner _ _ there' again others =>
      cases there.symm.trans there'
      rw [again.unique (.of_subset reads.places.2)] at others
      exact .inner fresh inner there reads others

/-- An order that is found is the one that the targets are visited in, depth first, the last
target first. -/
theorem orderFor_depthFirst (run : orderFor nodes listed targets = .ok order) :
    DepthFirst nodes listed targets.reverse [] order' ↔ order' = order := by
  simp only [orderFor, Checked.bind_eq_ok] at run
  obtain ⟨_, -, run⟩ := run
  have visits := depthFirst_of_place run .nil
  constructor
  · intro visits'
    exact visits'.unique visits
  · rintro rfl
    exact visits

/-- The first target is placed last: it reads the listed node that the second has let in. -/
theorem orderFor_depthFirst_knot : orderFor knot [0] [2, 1] = .ok [0, 1, 2] ∧
    ∀ order', DepthFirst knot [0] [1, 2] [] order' ↔ order' = [0, 1, 2] := by
  have run : orderFor knot [0] [2, 1] = .ok [0, 1, 2] := by cbv
  exact ⟨run, fun _ => orderFor_depthFirst run⟩

/-- Two nodes that read nothing. -/
def unrelated : List Node :=
  let source (id : Nat) : Node := ⟨id, "", .source (.typed .f32 (.ofLengths [1])), [], [], .empty⟩
  [source 0, source 1]

/-- Visits from the first target to the last come to another order than the one that is found. -/
theorem orderFor_ne_firstTargetFirst :
    orderFor unrelated [] [0, 1] = .ok [1, 0] ∧ DepthFirst unrelated [] [0, 1] [] [0, 1] ∧
      ¬ DepthFirst unrelated [] [0, 1] [] [1, 0] := by
  have visits : DepthFirst unrelated [] [0, 1] [] [0, 1] :=
    .inner (by decide) (by decide) rfl .done (.inner (by decide) (by decide) rfl .done .done)
  refine ⟨by cbv, visits, fun visits' => ?_⟩
  exact absurd (visits.unique visits') (by decide)

end EvenPad.Graph
