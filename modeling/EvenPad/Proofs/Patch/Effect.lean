import EvenPad.Proofs.Patch.Ready
import EvenPad.Proofs.Patch.Touched

/-!
What a patch changes in its target, and that it changes nothing else. Outlets that are taken over
one after the other are replaced all at once (`Graph.shunted_eq_rerouted`), since none of what
takes over is taken over itself. Main statement: `Patch.BuiltFor.apply_effect`, a patch that was
built against a target can be applied to it, and has the `Patch.Effect` that can be read off the
patch.
-/

namespace EvenPad

namespace Graph

variable {g : Graph} {f f' : Outlet → Outlet} {k : Nat} {n : Node} {o : Outlet}

/-- The graph that reads and answers with other outlets. -/
def rerouted (f : Outlet → Outlet) (g : Graph) : Graph where
  nodes := g.nodes.map fun n => { n with inputs := n.inputs.map f }
  inputs := g.inputs
  outputs := g.outputs.map f

theorem rerouted_rerouted : (g.rerouted f).rerouted f' = g.rerouted (f' ∘ f) := by
  simp [rerouted]

/-- Wires take over some outlets all at once if none takes over an outlet that is taken over
later. -/
theorem shunted_eq_rerouted {w : Wires} {shunts : List (Outlet × Outlet)}
    (apart : shunts.Pairwise fun s s' => w.place s.2 ≠ s'.1) :
    g.shunted w shunts = g.rerouted fun o => (shunts.lookup o).elim o w.place := by
  induction shunts generalizing g with
  | nil => simp [shunted, rerouted]
  | cons shunt rest ih =>
    obtain ⟨later, apart⟩ := List.pairwise_cons.1 apart
    have taker : rest.lookup (w.place shunt.2) = none :=
      List.lookup_eq_none_iff.2 fun s mem => by simpa using later s mem
    have first : g.shunted w (shunt :: rest) =
        (g.rerouted (Outlet.redirect shunt.1 (w.place shunt.2))).shunted w rest := rfl
    rw [first, ih apart, rerouted_rerouted]
    congr 1
    funext o
    rw [Function.comp_apply, Outlet.redirect, List.lookup_cons]
    by_cases taken : o = shunt.1
    · rw [if_pos taken, taker, beq_iff_eq.2 taken]
      rfl
    · rw [if_neg taken, beq_false_of_ne taken]

theorem Symmetric.there_of_mem (symmetric : g.Symmetric) (there : g.nodes[k]? = some n)
    (read : o ∈ n.inputs) : (g.output? o).isSome := by
  obtain ⟨slot, read⟩ := List.mem_iff_getElem?.1 read
  exact symmetric.there (i := ⟨k, slot⟩) (source?_eq_some.2 ⟨n, there, read⟩)

end Graph

namespace Patch

/-- What is read in a target of a size where an outlet was: what takes it over, if anything
does. -/
def rewired (p : Patch) (size : Nat) (o : Outlet) : Outlet :=
  match p.shunts.lookup o with
  | some wire => p.outletIn size wire
  | none => o

/-- What applying a patch does to a target, and which nodes it touches. -/
structure Effect (p : Patch) (g : Graph) (touched : List Nat) (g' : Graph) : Prop where
  /-- Old nodes are what they were, and read what took over where they read what was taken
  over. -/
  kept : ∀ {id : Nat} {n : Node}, g.nodes[id]? = some n →
    ∃ n', g'.nodes[id]? = some n' ∧ n.Keeps n' ∧ n'.inputs = n.inputs.map (p.rewired g.size)
  /-- The nodes of the patch come in after the last, in their order. What they read is not
  rewired. -/
  came : ∀ {j : Nat} {n : Node}, p.fresh[j]? = some n →
    ∃ n', g'.nodes[g.size + j]? = some n' ∧ n'.id = g.size + j ∧ n'.name = n.name ∧ n'.op = n.op ∧
      n'.facts = n.facts ∧ n'.provenance = n.provenance ∧
      n'.inputs = n.inputs.map (p.outletIn g.size)
  size : g'.size = g.size + p.fresh.length
  inputs : g'.inputs = g.inputs
  outputs : g'.outputs = g.outputs.map (p.rewired g.size)
  edges : g'.Symmetric
  /-- Those are touched that came in or read something else than before, each once. -/
  touches : ∀ id, id ∈ touched ↔ (g.size ≤ id ∧ id < g'.size) ∨
    ∃ n n', g.nodes[id]? = some n ∧ g'.nodes[id]? = some n' ∧ n'.inputs ≠ n.inputs
  nodup : touched.Nodup

namespace Ready

variable {g g' : Graph} {p : Patch} {n : Node} {o : Outlet} {j k : Nat} {touched : List Nat}
  (ready : p.Ready g)
include ready

/-! ## Nothing goes wrong -/

theorem apply_ok (symmetric : g.Symmetric) : ∃ touched g', p.apply g = .ok touched g' := by
  refine Patch.apply_ok symmetric ?_ ready.taken ?_ ?_
  · intro n mem source
    obtain ⟨k, there⟩ := List.mem_iff_getElem?.1 mem
    rw [ready.isSome_find?_incoming, ready.wellFormed.id_eq there]
    exact ready.closed k n there source
  · intro s mem
    exact ⟨_, ready.find?_wires (ready.takers s mem), ready.there (ready.takers s mem)⟩
  · intro n mem o read
    obtain ⟨k, there⟩ := List.mem_iff_getElem?.1 (List.mem_filter.1 mem).1
    have there := ready.wellFormed.linked.symmetric.there_of_mem there read
    exact ⟨_, ready.find?_wires there, ready.there there⟩

/-! ## The graph afterwards -/

/-- What the nodes of a patch read is mapped. -/
theorem place_of_fresh (mem : n ∈ p.fresh) (read : o ∈ n.inputs) :
    (p.wires k).place o = p.outletIn k o := by
  obtain ⟨j, there⟩ := List.mem_iff_getElem?.1 (List.mem_filter.1 mem).1
  exact Wires.place_of_find?
    (ready.find?_wires (ready.wellFormed.linked.symmetric.there_of_mem there read))

theorem place_of_shunt {s : Outlet × Outlet} (mem : s ∈ p.shunts) :
    (p.wires k).place s.2 = p.outletIn k s.2 :=
  Wires.place_of_find? (ready.find?_wires (ready.takers s mem))

variable (inner : ∀ s ∈ p.shunts, s.2 ∉ p.incoming.map Prod.fst)
include inner

/-- What takes over comes in, so it is none of the outlets that are taken over. -/
theorem outletIn_ne_of_shunts {s s' : Outlet × Outlet} (mem : s ∈ p.shunts)
    (mem' : s' ∈ p.shunts) :
    p.outletIn g.size s.2 ≠ s'.1 := by
  intro same
  have new : g.size ≤ (p.outletIn g.size s.2).node :=
    ready.le_outletIn (ready.takers s mem) (inner s mem)
  have old : s'.1.node < g.size := Graph.lt_size_of_isSome (ready.taken s' mem')
  rw [same] at new
  exact Nat.not_lt.2 new old

theorem apart_of_shunts : p.shunts.Pairwise fun s s' => (p.wires g.size).place s.2 ≠ s'.1 := by
  refine List.pairwise_of_forall_mem_list fun s mem s' mem' => ?_
  rw [ready.place_of_shunt mem]
  exact ready.outletIn_ne_of_shunts inner mem mem'

/-- The target after the patch is applied, apart from the lists of readers. -/
theorem applied_eq : p.applied g =
    ⟨(g.rerouted (p.rewired g.size)).nodes ++ (p.fresh.zipIdx g.size).map fun (n, id) =>
      { n.landing id with inputs := n.inputs.map (p.outletIn g.size) },
      g.inputs, g.outputs.map (p.rewired g.size)⟩ := by
  have rewired : (fun o => (p.shunts.lookup o).elim o (p.wires g.size).place) =
      p.rewired g.size := by
    funext o
    rw [Patch.rewired]
    cases found : p.shunts.lookup o with
    | none => rfl
    | some wire =>
      exact ready.place_of_shunt ((lookup_eq_some_iff_mem ready.apart).1 found)
  have placed : ∀ entry ∈ p.fresh.zipIdx g.size, entry.1.placed (p.wires g.size) entry.2 =
      { entry.1.landing entry.2 with inputs := entry.1.inputs.map (p.outletIn g.size) } := by
    intro entry mem
    have reads : entry.1.inputs.map (p.wires g.size).place =
        entry.1.inputs.map (p.outletIn g.size) :=
      List.map_congr_left fun o read => ready.place_of_fresh (List.fst_mem_of_mem_zipIdx mem) read
    rw [Node.placed, reads]
    rfl
  rw [applied, Graph.land, size_shunted, List.map_congr_left placed,
    Graph.shunted_eq_rerouted (ready.apart_of_shunts inner), rewired]
  rfl

variable (bare : g'.bare = (p.applied g).bare)
include bare

theorem kept (old : g.nodes[k]? = some n) :
    ∃ n', g'.nodes[k]? = some n' ∧ n.Keeps n' ∧ n'.inputs = n.inputs.map (p.rewired g.size) := by
  have there : g'.bare.nodes[k]? =
      some { n.bare with inputs := n.inputs.map (p.rewired g.size) } := by
    rw [bare, ready.applied_eq inner, Graph.bare_getElem?, List.getElem?_append_left,
      Graph.rerouted, List.getElem?_map, old]
    · rfl
    · simpa [Graph.rerouted] using (List.getElem?_eq_some_iff.1 old).1
  rw [Graph.bare_getElem?, Option.map_eq_some_iff] at there
  obtain ⟨n', there, same⟩ := there
  exact ⟨n', there, Node.keeps_of_bare_eq same⟩

theorem came (new : p.fresh[j]? = some n) :
    ∃ n', g'.nodes[g.size + j]? = some n' ∧ n'.id = g.size + j ∧ n'.name = n.name ∧ n'.op = n.op ∧
      n'.facts = n.facts ∧ n'.provenance = n.provenance ∧
      n'.inputs = n.inputs.map (p.outletIn g.size) := by
  have length : (g.rerouted (p.rewired g.size)).nodes.length = g.size := by
    simp [Graph.rerouted, Graph.size]
  have there : g'.bare.nodes[g.size + j]? =
      some { n.landing (g.size + j) with inputs := n.inputs.map (p.outletIn g.size) } := by
    rw [bare, ready.applied_eq inner, Graph.bare_getElem?,
      List.getElem?_append_right (by rw [length]; exact Nat.le_add_right _ _), length,
      Nat.add_sub_cancel_left, List.getElem?_map, List.getElem?_zipIdx, new]
    simp [Node.landing, Node.bare, Node.facts, Function.comp_def]
  rw [Graph.bare_getElem?, Option.map_eq_some_iff] at there
  obtain ⟨n', there, same⟩ := there
  have same : n'.bare =
      { (n.landing (g.size + j)).bare with inputs := n.inputs.map (p.outletIn g.size) } :=
    same.trans (by simp [Node.landing, Node.bare, Node.facts, Function.comp_def])
  obtain ⟨keeps, reads⟩ := Node.keeps_of_bare_eq same
  refine ⟨n', there, keeps.id, keeps.name, keeps.op, ?_, keeps.provenance, reads⟩
  rw [keeps.facts]
  simp [Node.landing, Node.facts, Function.comp_def]

omit bare in
/-- A node reads something else than before when it read what is taken over. -/
theorem rewired_ne_iff {inputs : List Outlet} :
    inputs.map (p.rewired g.size) ≠ inputs ↔ ∃ s ∈ p.shunts, s.1 ∈ inputs := by
  constructor
  · intro changed
    by_contra none_taken
    refine changed ?_
    have same : ∀ o ∈ inputs, p.rewired g.size o = o := by
      intro o read
      have untaken : p.shunts.lookup o = none := by
        rw [Option.eq_none_iff_forall_ne_some]
        intro wire found
        exact none_taken ⟨(o, wire), (lookup_eq_some_iff_mem ready.apart).1 found, read⟩
      rw [rewired, untaken]
    rw [List.map_congr_left same, List.map_id']
  · rintro ⟨s, mem, read⟩ same
    have kept : p.rewired g.size s.1 = s.1 := by
      have same : inputs.map (p.rewired g.size) = inputs.map id := by rw [same, List.map_id]
      exact List.map_inj_left.1 same s.1 read
    have found : p.shunts.lookup s.1 = some s.2 := (lookup_eq_some_iff_mem ready.apart).2 mem
    rw [rewired, found] at kept
    exact ready.outletIn_ne_of_shunts inner mem mem kept

end Ready

/-- A patch that was built against a target can be applied to it and changes what it says, if no
tap takes over an outlet. -/
theorem BuiltFor.apply_effect {g : Graph} {p : Patch} (built : BuiltFor g p)
    (symmetric : g.Symmetric) (inner : ∀ s ∈ p.shunts, s.2 ∉ p.incoming.map Prod.fst) :
    ∃ touched g', p.apply g = .ok touched g' ∧ p.Effect g touched g' := by
  have ready := built.ready
  obtain ⟨touched, g', run⟩ := ready.apply_ok symmetric
  obtain ⟨-, -, keeps, bare⟩ := apply_eq_ok symmetric run
  have inputs : g'.bare.inputs = g.inputs := by
    rw [bare, ready.applied_eq inner]
    rfl
  have outputs : g'.bare.outputs = g.outputs.map (p.rewired g.size) := by
    rw [bare, ready.applied_eq inner]
    rfl
  refine ⟨touched, g', run, ?_⟩
  exact {
    kept := ready.kept inner bare
    came := ready.came inner bare
    size := size_of_apply symmetric run
    inputs := inputs
    outputs := outputs
    edges := keeps.symmetric symmetric
    touches := by
      intro id
      rw [mem_touched_iff symmetric (ready.apart_of_shunts inner) run]
      refine or_congr_right ⟨?_, ?_⟩
      · rintro ⟨n, old, taken⟩
        obtain ⟨n', there, -, reads⟩ := ready.kept inner bare old
        exact ⟨n, n', old, there, reads ▸ (ready.rewired_ne_iff inner).2 taken⟩
      · rintro ⟨n, n', old, there, changed⟩
        obtain ⟨n'', there', -, reads⟩ := ready.kept inner bare old
        cases there.symm.trans there'
        rw [reads] at changed
        exact ⟨n, old, (ready.rewired_ne_iff inner).1 changed⟩
    nodup := nodup_touched run }

/-- Data that are padded twice by one element at either end. -/
def paddedTwice : Edit Graph Unit := do
  let data ← Graph.addSource "data" (.typed .f32 (.ofLengths [3]))
  let one ← Graph.addConst "one" (.vector [1])
  let inner ← Graph.wire "inner" .pad [data, one, one]
  let outer ← Graph.wire "outer" .pad [inner, one, one]
  Graph.setOutputs [outer]

theorem built_paddedTwice {g : Graph} {u : Unit}
    (run : paddedTwice .empty = .ok u g) : g.Built := by
  simp only [paddedTwice, Edit.bind_eq_ok] at run
  obtain ⟨_, _, data, _, _, one, _, _, inner, _, _, outer, answer⟩ := run
  exact .answerLast (.wire (.const (.source .empty data) one) inner) outer answer

/-- A patch that takes over both paddings. The padding that takes over the outer one still reads
the inner one. -/
def repadding (g : Graph) : Patch :=
  let inner := (onGraph (Graph.wire "inner" .pad [⟨0, 0⟩, ⟨1, 0⟩, ⟨1, 0⟩])).after <|
    (tap g ⟨1, 0⟩).after <| (tap g ⟨0, 0⟩).after (.labelled "padding again")
  let outer := (onGraph (Graph.wire "outer" .pad [⟨3, 0⟩, ⟨1, 0⟩, ⟨1, 0⟩])).after <|
    (tap g ⟨2, 0⟩).after <| (shunt g ⟨2, 0⟩ ⟨2, 0⟩).after inner
  (shunt g ⟨3, 0⟩ ⟨4, 0⟩).after outer

theorem builtFor_repadding (g : Graph) : BuiltFor g (repadding g) :=
  .shunt _ _ <| .wire _ _ _ rfl <| .tap _ <| .shunt _ _ <| .wire _ _ _ rfl <| .tap _ <| .tap _ <|
    .start ["padding again"]

theorem BuiltFor.apply_effect_repadding :
    ∃ g touched g', paddedTwice .empty = .ok ⟨⟩ g ∧
      (repadding g).shunts = [(⟨2, 0⟩, ⟨2, 0⟩), (⟨3, 0⟩, ⟨4, 0⟩)] ∧
      (repadding g).apply g = .ok touched g' ∧ (repadding g).Effect g touched g' ∧
      touched = [4, 5, 3] ∧ g'.outputs = [⟨5, 0⟩] ∧
      g'.nodes[5]?.map Node.inputs = some [⟨2, 0⟩, ⟨1, 0⟩, ⟨1, 0⟩] := by
  have made : paddedTwice .empty = .ok ⟨⟩ (paddedTwice.after .empty) := rfl
  have shunts : (repadding (paddedTwice.after .empty)).shunts =
      [(⟨2, 0⟩, ⟨2, 0⟩), (⟨3, 0⟩, ⟨4, 0⟩)] := rfl
  have taps : (repadding (paddedTwice.after .empty)).incoming.map Prod.fst =
      [⟨0, 0⟩, ⟨1, 0⟩, ⟨3, 0⟩] := rfl
  obtain ⟨touched, g', run, effect⟩ :=
    (builtFor_repadding (paddedTwice.after .empty)).apply_effect
    (built_paddedTwice made).wellFormed.linked.symmetric (by rw [shunts, taps]; decide)
  refine ⟨_, touched, g', made, shunts, run, effect, ?_⟩
  cases run
  exact ⟨rfl, rfl, rfl⟩

end Patch

end EvenPad
