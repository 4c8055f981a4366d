import EvenPad.Proofs.Patch.Apply

/-!
Which nodes a patch touches. Main statement: `Patch.mem_touched_iff`, a patch touches the nodes
that it brings in and those that read what it takes over, each once (`nodup_touched`).
-/

namespace EvenPad.Patch

variable {g g' : Graph} {taken taker wire : Outlet} {w : Wires} {context : List String}
  {touched touched' : List Nat} {p : Patch} {id : Nat}

/-- The nodes of the readers that are rewired are touched. -/
theorem mem_of_redirectAll {readers : List Inlet}
    (run : readers.foldlM (redirect taker) touched g = .ok touched' g') :
    id ∈ touched' ↔ id ∈ touched ∨ ∃ i ∈ readers, i.node = id := by
  induction readers generalizing g touched with
  | nil =>
    rcases Edit.pure_eq_ok.1 run with ⟨rfl, -⟩
    simp
  | cons reader rest ih =>
    rw [List.foldlM_cons] at run
    rcases Edit.bind_eq_ok.1 run with ⟨touched₁, g₁, head, tail⟩
    simp only [redirect, Edit.bind_eq_ok, Edit.pure_eq_ok] at head
    rcases head with ⟨_, _, -, rfl, -⟩
    have joined : id ∈ (if touched.contains reader.node then touched
        else touched ++ [reader.node]) ↔ id ∈ touched ∨ reader.node = id := by
      split
      · next already =>
        have already : reader.node ∈ touched := by simpa using already
        exact ⟨.inl, fun mem => mem.elim (fun mem => mem) fun same => same ▸ already⟩
      · simp [eq_comm]
    rw [ih tail, joined, List.exists_mem_cons_iff, or_assoc]

/-- So are those of the readers of an outlet that is taken over. -/
theorem mem_of_takeOver (run : takeOver context w touched (taken, wire) g = .ok touched' g') :
    id ∈ touched' ↔ id ∈ touched ∨ ∃ i ∈ g.readers taken, i.node = id := by
  simp only [takeOver, Edit.lift_bind_eq_ok, Edit.get_bind_apply, Graph.successorsOf_eq_ok] at run
  rcases run with ⟨mapped, -, readers, ⟨-, rfl⟩, run⟩
  rcases Edit.bind_eq_ok.1 run with ⟨touched₁, g₁, redirected, run⟩
  rw [Edit.modify_bind_apply, Edit.pure_eq_ok] at run
  rcases run with ⟨rfl, -⟩
  exact mem_of_redirectAll redirected

/-- Nodes that came in read nothing at first. -/
theorem source?_landed {nodes : List Node} {i : Inlet} :
    (landed g nodes).source? i = g.source? i := by
  unfold Graph.source? landed
  rcases Nat.lt_or_ge i.node g.size with lt | ge
  · rw [List.getElem?_append_left lt]
  · rw [List.getElem?_append_right ge, List.getElem?_eq_none (l := g.nodes) ge, List.getElem?_map]
    cases (nodes.zipIdx g.size)[i.node - g.nodes.length]? <;> rfl

/-- Of several outlets that are taken over one after the other, none by an outlet that is taken
over later, the readers are those that they had at first. -/
theorem mem_of_takeOverAll {shunts : List (Outlet × Outlet)} (symmetric : g.Symmetric)
    (apart : shunts.Pairwise fun s s' => w.place s.2 ≠ s'.1)
    (run : shunts.foldlM (takeOver context w) touched g = .ok touched' g') :
    id ∈ touched' ↔
      id ∈ touched ∨ ∃ i o, g.source? i = some o ∧ i.node = id ∧ ∃ s ∈ shunts, s.1 = o := by
  induction shunts generalizing g touched with
  | nil =>
    rcases Edit.pure_eq_ok.1 run with ⟨rfl, -⟩
    simp
  | cons shunt rest ih =>
    rcases List.pairwise_cons.1 apart with ⟨later, apart⟩
    rw [List.foldlM_cons] at run
    rcases Edit.bind_eq_ok.1 run with ⟨touched₁, g₁, head, tail⟩
    rcases takeOver_eq_ok symmetric head with ⟨-, -, keeps, bare⟩
    have source (i : Inlet) :
        g₁.source? i = (g.source? i).map (Outlet.redirect shunt.1 (w.place shunt.2)) := by
      rw [← Graph.source?_bare, bare, Graph.source?_bare, Graph.source?_redirect]
    rw [ih (keeps.symmetric symmetric) apart tail, mem_of_takeOver head]
    simp only [symmetric.mem_readers, source, Option.map_eq_some_iff, or_assoc]
    refine or_congr_right ⟨?_, ?_⟩
    · rintro (⟨i, read, same⟩ | ⟨i, _, ⟨o, read, rfl⟩, same, s, mem, taken⟩)
      · exact ⟨i, _, read, same, shunt, List.mem_cons_self, rfl⟩
      · unfold Outlet.redirect at taken
        split at taken
        · exact absurd taken.symm (later s mem)
        · exact ⟨i, o, read, same, s, List.mem_cons_of_mem _ mem, taken⟩
    · rintro ⟨i, o, read, same, s, mem, rfl⟩
      rcases List.mem_cons.1 mem with rfl | mem
      · exact .inl ⟨i, read, same⟩
      · by_cases first : s.1 = shunt.1
        · exact .inl ⟨i, first ▸ read, same⟩
        · exact .inr ⟨i, s.1, ⟨s.1, read, by rw [Outlet.redirect, if_neg first]⟩, same,
            s, mem, rfl⟩

/-- The nodes that came in stand behind the last. -/
theorem size_of_apply (symmetric : g.Symmetric) (run : p.apply g = .ok touched g') :
    g'.size = g.size + p.fresh.length := by
  rw [← Graph.bare_size, (apply_eq_ok symmetric run).2.2.2, Graph.bare_size, applied, Graph.land]
  change (_ ++ _ : List Node).length = _
  rw [List.length_append, List.length_map, List.length_zipIdx]
  congr 1
  exact size_shunted

/-- A patch touches what it brings in and what reads the outlets that it takes over. -/
theorem mem_touched_iff (symmetric : g.Symmetric)
    (apart : p.shunts.Pairwise fun s s' => (p.wires g.size).place s.2 ≠ s'.1)
    (run : p.apply g = .ok touched g') :
    id ∈ touched ↔ (g.size ≤ id ∧ id < g'.size) ∨
      ∃ n, g.nodes[id]? = some n ∧ ∃ s ∈ p.shunts, s.1 ∈ n.inputs := by
  rw [size_of_apply symmetric run]
  simp only [apply, Edit.bind_eq_ok, Edit.pure_eq_ok] at run
  rcases run with ⟨i, g₁, inserted, _, g₂, shunted, _, _, -, rfl, -⟩
  rcases insertAll_eq_ok inserted with ⟨rfl, wires, added, keeps⟩
  have came : id ∈ i.added.map (·.1) ↔ g.size ≤ id ∧ id < g.size + p.fresh.length := by
    have ids : i.added.map (·.1) = List.range' g.size p.fresh.length := by
      rw [added, List.nil_append, List.map_map]
      exact List.zipIdx_map_snd _ _
    rw [ids, List.mem_range'_1]
  have wires : i.wires = p.wires g.size := wires
  rw [wires] at shunted
  rw [mem_of_takeOverAll (keeps.symmetric symmetric) apart shunted, came]
  change _ ∨ (∃ j o, (landed g p.fresh).source? j = some o ∧ j.node = id ∧
    ∃ s ∈ p.shunts, s.1 = o) ↔ _
  simp only [source?_landed, Graph.source?_eq_some]
  refine or_congr_right ⟨?_, ?_⟩
  · rintro ⟨j, o, ⟨n, there, read⟩, rfl, s, mem, rfl⟩
    exact ⟨n, there, s, mem, List.mem_of_getElem? read⟩
  · rintro ⟨n, there, s, mem, read⟩
    rcases List.mem_iff_getElem?.1 read with ⟨slot, at_slot⟩
    exact ⟨⟨id, slot⟩, s.1, ⟨n, there, at_slot⟩, rfl, s, mem, rfl⟩

/-- A patch that takes over one outlet touches what it brings in and what reads the outlet. -/
theorem mem_touched (linked : g.Linked) (shunts : p.shunts = [(taken, wire)])
    (run : p.apply g = .ok touched g') :
    id ∈ touched ↔
      (g.size ≤ id ∧ id < g'.size) ∨ ∃ n, g.nodes[id]? = some n ∧ taken ∈ n.inputs := by
  rw [mem_touched_iff linked.symmetric (by simp [shunts]) run]
  simp [shunts]

/-! ## Each node once -/

theorem nodup_redirectAll {readers : List Inlet} (nodup : touched.Nodup)
    (run : readers.foldlM (redirect taker) touched g = .ok touched' g') : touched'.Nodup := by
  induction readers generalizing g touched with
  | nil =>
    rcases Edit.pure_eq_ok.1 run with ⟨rfl, -⟩
    exact nodup
  | cons reader rest ih =>
    rw [List.foldlM_cons] at run
    rcases Edit.bind_eq_ok.1 run with ⟨touched₁, g₁, head, tail⟩
    simp only [redirect, Edit.bind_eq_ok, Edit.pure_eq_ok] at head
    rcases head with ⟨_, _, -, rfl, -⟩
    refine ih ?_ tail
    split
    · exact nodup
    · next other =>
      refine List.nodup_append.2 ⟨nodup, by simp, fun seen mem id single same => other ?_⟩
      rw [List.mem_singleton.1 single] at same
      simpa [← same] using mem

theorem nodup_takeOverAll {shunts : List (Outlet × Outlet)} (nodup : touched.Nodup)
    (run : shunts.foldlM (takeOver context w) touched g = .ok touched' g') : touched'.Nodup := by
  induction shunts generalizing g touched with
  | nil =>
    rcases Edit.pure_eq_ok.1 run with ⟨rfl, -⟩
    exact nodup
  | cons shunt rest ih =>
    rw [List.foldlM_cons] at run
    rcases Edit.bind_eq_ok.1 run with ⟨touched₁, g₁, head, tail⟩
    refine ih ?_ tail
    simp only [takeOver, Edit.lift_bind_eq_ok, Edit.get_bind_apply] at head
    rcases head with ⟨mapped, -, readers, -, head⟩
    rcases Edit.bind_eq_ok.1 head with ⟨touched₂, g₂, redirected, rest⟩
    rw [Edit.modify_bind_apply, Edit.pure_eq_ok] at rest
    rcases rest with ⟨rfl, -⟩
    exact nodup_redirectAll nodup redirected

theorem nodup_touched (run : p.apply g = .ok touched g') : touched.Nodup := by
  simp only [apply, Edit.bind_eq_ok, Edit.pure_eq_ok] at run
  rcases run with ⟨i, g₁, inserted, _, g₂, shunted, _, _, -, rfl, -⟩
  refine nodup_takeOverAll ?_ shunted
  have ids : i.added.map (·.1) = List.range' g.size p.fresh.length := by
    rw [(insertAll_eq_ok inserted).2.2.1, List.nil_append, List.map_map]
    exact List.zipIdx_map_snd _ _
  rw [ids]
  exact List.nodup_range'

end EvenPad.Patch
