import EvenPad.Proofs.Graph.Twins
import EvenPad.Proofs.Unpad.Expand

/-!
Two expansions of one graph in which no output depends on a match have replaced the same of the
nodes that the outputs depend on, by the same parts. Main statements: they are twins
(`Graph.Expands.twins`), so they have one compaction (`Graph.ReducesTo.unique`).
-/

namespace EvenPad.Graph

variable {g a b h h' : Graph} {passes : List Pass} {done done' : Nat → Option (List Part)}
  {spot spot' : Nat → Spot} {face face' : Face} {id i j : Nat} {n m : Node}
  {parts parts' : List Part} {s : Spot}

/-- Nodes of two graphs stand at one spot, and the outputs depend on both, or both are inputs. -/
def Paired (a b : Graph) (spot spot' : Nat → Spot) (i j : Nat) : Prop :=
  spot i = spot' j ∧
    ((a.Live i ∧ b.Live j) ∨ (i ∈ a.inputs.map Outlet.node ∧ j ∈ b.inputs.map Outlet.node))

theorem Paired.lt (pair : Paired a b spot spot' i j)
    (wf : a.WellFormed) (wf' : b.WellFormed) : i < a.size ∧ j < b.size := by
  rcases pair.2 with ⟨live, live'⟩ | ⟨listed, listed'⟩
  · exact ⟨wf.lt_size_of_live live, wf'.lt_size_of_live live'⟩
  · exact ⟨wf.lt_size_of_listed listed, wf'.lt_size_of_listed listed'⟩

namespace Expands

variable (expands : g.Expands passes done spot a) (expands' : g.Expands passes done' spot' b)
include expands expands'

/-- Two expansions that replace a node replace it by the same parts. -/
theorem parts_eq (replacing : done id = some parts) (replacing' : done' id = some parts') :
    parts = parts' := by
  obtain ⟨n, σ, there, signed, -, replaces⟩ := expands.replaced replacing
  obtain ⟨n', σ', there', signed', -, replaces'⟩ := expands'.replaced replacing'
  cases there.symm.trans there'
  cases signed.unique signed'
  exact replaces.unique replaces'

theorem face_eq (shown : g.face? done s = some face) (shown' : g.face? done' s = some face') :
    face = face' := by
  cases s with
  | kept id =>
    obtain ⟨n, there, rfl⟩ := face?_kept.1 shown
    obtain ⟨n', there', rfl⟩ := face?_kept.1 shown'
    cases there.symm.trans there'
    rfl
  | part id j =>
    obtain ⟨n, parts, part, there, replacing, at_j, rfl⟩ := face?_part.1 shown
    obtain ⟨n', parts', part', there', replacing', at_j', rfl⟩ := face?_part.1 shown'
    cases there.symm.trans there'
    rw [← expands.parts_eq expands' replacing replacing'] at at_j'
    cases at_j.symm.trans at_j'
    rfl

/-- A node that one expansion replaces is none that the outputs of the other depend on, if the
other has no match. -/
theorem not_kept (settled' : ∀ p ∈ passes, p.Settled b) (replacing : done id = some parts)
    (live' : b.Live j) : spot' j ≠ .kept id := by
  intro stands'
  obtain ⟨n, σ, there, signed, ⟨p, mem, isMatch⟩, -⟩ := expands.replaced replacing
  have here := List.getElem?_eq_getElem (expands'.wf.lt_size_of_live live')
  exact settled' p mem live' ⟨_, here, σ, expands'.signed here stands' there signed, isMatch⟩

variable (settled : ∀ p ∈ passes, p.Settled a) (settled' : ∀ p ∈ passes, p.Settled b)
include settled settled'

/-- So both lead the readers of a spot to the same. -/
theorem spots_eq (live : a.Live i) (live' : b.Live j) (stands : spot i = s.settle done)
    (stands' : spot' j = s.settle done') : spot i = spot' j := by
  rw [stands, stands']
  cases s with
  | part => rfl
  | kept id =>
    cases at_id : done id with
    | none =>
      cases at_id' : done' id with
      | none => rw [Spot.settle, Spot.settle, at_id, at_id']
      | some parts =>
        rw [Spot.settle, at_id] at stands
        exact absurd stands (expands'.not_kept expands settled at_id' live)
    | some parts =>
      cases at_id' : done' id with
      | none =>
        rw [Spot.settle, at_id'] at stands'
        exact absurd stands' (expands.not_kept expands' settled' at_id live')
      | some parts' =>
        rw [Spot.settle, Spot.settle, at_id, at_id', expands.parts_eq expands' at_id at_id']

theorem paired (live : a.Live i) (live' : b.Live j) (stands : spot i = s.settle done)
    (stands' : spot' j = s.settle done') : Paired a b spot spot' i j :=
  ⟨expands.spots_eq expands' settled settled' live live' stands stands', .inl ⟨live, live'⟩⟩

/-- Paired nodes read paired nodes. -/
theorem reads_paired (pair : Paired a b spot spot' i j) (there : a.nodes[i]? = some n)
    (there' : b.nodes[j]? = some m) (shown : face.ShownBy done spot a i n)
    (shown' : face.ShownBy done' spot' b j m) :
    List.Forall₂ (Outlet.Alike (Paired a b spot spot')) n.inputs m.inputs := by
  rcases pair.2 with ⟨live, live'⟩ | ⟨listed, listed'⟩
  · refine forall₂_join shown.reads shown'.reads fun read read' stands stands' => ?_
    refine ⟨expands.paired expands' settled settled' (.read live there read)
      (.read live' there' read')
      stands stands', ?_⟩
    rw [(expands.wf.read_eq there read).1, (expands'.wf.read_eq there' read').1]
  · rw [expands.wf.inputs_of_listed listed there, expands'.wf.inputs_of_listed listed' there']
    exact .nil

/-- Two expansions without matches are twins. -/
theorem twins : Twins (Paired a b spot spot') a b where
  unique := by
    constructor
    · intro i i' j pair pair'
      exact expands.injective (pair.lt expands.wf expands'.wf).1
        (pair'.lt expands.wf expands'.wf).1
        (pair.1.trans pair'.1.symm)
    · intro i j j' pair pair'
      exact expands'.injective (pair.lt expands.wf expands'.wf).2
        (pair'.lt expands.wf expands'.wf).2
        (pair.1.symm.trans pair'.1)
  alike := by
    intro i j pair
    obtain ⟨lt, lt'⟩ := pair.lt expands.wf expands'.wf
    have there := List.getElem?_eq_getElem lt
    have there' := List.getElem?_eq_getElem lt'
    obtain ⟨face, shown, shows⟩ := expands.shows there
    obtain ⟨face', shown', shows'⟩ := expands'.shows there'
    rw [pair.1] at shown
    obtain rfl := expands.face_eq expands' shown shown'
    have facts := shows.facts.trans shows'.facts.symm
    exact ⟨_, _, {
      there, there'
      name := shows.name.trans shows'.name.symm
      op := shows.op.trans shows'.op.symm
      fact := by rw [facts]
      live := fun live live' =>
        ⟨facts, (shows.provenance fun _ => live).trans (shows'.provenance fun _ => live').symm⟩
      reads := fun _ =>
        expands.reads_paired expands' settled settled' pair there there' shows shows' }⟩
  inputs := by
    refine forall₂_join expands.inputs expands'.inputs fun mem mem' stands stands' => ?_
    refine ⟨⟨stands.trans stands'.symm, .inr ⟨List.mem_map_of_mem mem, List.mem_map_of_mem mem'⟩⟩,
      ?_⟩
    rw [(expands.wf.sources mem).1, (expands'.wf.sources mem').1]
  outputs := by
    refine forall₂_join expands.outputs expands'.outputs fun mem mem' stands stands' => ?_
    refine ⟨expands.paired expands' settled settled' (.answer mem) (.answer mem') stands stands',
      ?_⟩
    rw [(expands.wf.answer_eq mem).1, (expands'.wf.answer_eq mem').1]

end Expands

/-! ## Reductions -/

/-- The graph becomes `h` when some matches of the passes are replaced. -/
def ExpandsTo (g : Graph) (passes : List Pass) (h : Graph) : Prop :=
  ∃ done spot, g.Expands passes done spot h

/-- The graph becomes `h` when some matches are replaced and the result is compacted. -/
def ReducesTo (g : Graph) (passes : List Pass) (h : Graph) : Prop :=
  ∃ e log log', g.ExpandsTo passes e ∧ e.compacted log = .ok h log'

theorem ReducesTo.expandsTo (reduces : g.ReducesTo passes h) : g.ExpandsTo passes h := by
  obtain ⟨e, log, log', ⟨done, spot, expands⟩, compacted⟩ := reduces
  obtain ⟨w, compacts⟩ := expands.wf.compacts compacted
  exact ⟨done, expands.compacted compacts⟩

/-- There is one reduction without matches. -/
theorem ReducesTo.unique (reduces : g.ReducesTo passes h) (reduces' : g.ReducesTo passes h')
    (settled : ∀ p ∈ passes, p.Settled h) (settled' : ∀ p ∈ passes, p.Settled h') : h = h' := by
  obtain ⟨e, _, _, ⟨done, spot, expands⟩, compacted⟩ := reduces
  obtain ⟨e', _, _, ⟨done', spot', expands'⟩, compacted'⟩ := reduces'
  obtain ⟨w, compacts⟩ := expands.wf.compacts compacted
  obtain ⟨w', compacts'⟩ := expands'.wf.compacts compacted'
  have twins := expands.twins expands'
    (fun p mem => (settled p mem).of_compacted expands.wf compacts)
    (fun p mem => (settled' p mem).of_compacted expands'.wf compacts')
  exact twins.compacted_eq expands.wf.referenced expands'.wf.referenced compacted compacted'

/-- The steps of a pass lead from an expansion to an expansion. -/
theorem WellFormed.expandsTo_invariant {p : Pass} (wf : g.WellFormed) (mem : p ∈ passes) :
    RuleSet.Invariant p.rules fun _ h _ => h.WellFormed ∧ g.ExpandsTo passes h := by
  refine p.invariant (fun _ h _ => g.ExpandsTo passes h) (fun _ expands _ => expands) ?_
  rintro _ h₁ h₂ node σ parts rest queue - ⟨done, spot, expands⟩ applies
  obtain ⟨i, -, -, expands'⟩ := expands.applied wf mem applies
  exact ⟨_, _, expands'⟩

end EvenPad.Graph
