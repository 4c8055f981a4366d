import EvenPad.Proofs.Unpad.Fixpoint
import Mathlib.Data.List.GetD

/-!
Graphs in which matches are replaced by their parts, in any order and by several passes. Each node
of such a graph stands at a `Spot` of the graph that it came from, and what a spot shows is known
from that graph (`Graph.face?`), so `Graph.Expands` says nothing about the order of the work. Main
statements: a step of a run and a compaction lead from an expansion to an expansion, and two
expansions of one graph that are settled are twins (`Graph.Expands.twins`).
-/

namespace EvenPad

/-- A node of a graph, or a part of what has taken its place. -/
inductive Spot where
  | kept (id : Nat)
  | part (id j : Nat)

namespace Spot

variable {s : Spot} {done : Nat → Option (List Part)} {id : Nat}

/-- What the readers of a spot read once some nodes are replaced: the last part takes over. -/
def settle (done : Nat → Option (List Part)) : Spot → Spot
  | kept id =>
    match done id with
    | some parts => part id (parts.length - 1)
    | none => kept id
  | part id j => part id j

theorem settle_eq_kept : s.settle done = kept id ↔ s = kept id ∧ done id = none := by
  cases s with
  | kept i =>
    cases h : done i with
    | none =>
      simp only [settle, h, kept.injEq]
      exact ⟨fun same => ⟨same, same ▸ h⟩, And.left⟩
    | some parts =>
      simp only [settle, h, kept.injEq, reduceCtorEq, false_iff, not_and]
      rintro rfl
      simp [h]
  | part => simp [settle]

end Spot

/-- The spot that a port of a part leads to. -/
def Port.spot (id : Nat) (inputs : List Outlet) : Port → Spot
  | .part j => .part id j
  | .slot i => .kept (inputs.getD i default).node

/-- What a node shows, and the spots that it reads as long as nothing is replaced. -/
structure Face where
  name : String
  op : Op
  facts : List Fact
  provenance : Provenance
  sources : List Spot

def Node.face (n : Node) : Face :=
  ⟨n.name, n.op, n.facts, n.provenance, n.inputs.map fun o => .kept o.node⟩

/-- The face of a part of what replaces the node at `id`. -/
def Part.face (id : Nat) (inputs : List Outlet) (part : Part) : Face :=
  ⟨part.name, part.op, [part.fact], part.provenance, part.ports.map (Port.spot id inputs)⟩

/-- The node at `id` shows the face, with its notes unless it is a source that no output depends
on. -/
structure Face.ShownBy (face : Face) (done : Nat → Option (List Part))
    (spot : Nat → Spot) (g : Graph)
    (id : Nat) (n : Node) : Prop where
  name : n.name = face.name
  op : n.op = face.op
  facts : n.facts = face.facts
  provenance : (n.op.isSource = true → g.Live id) → n.provenance = face.provenance
  reads : List.Forall₂ (fun o source => spot o.node = source.settle done) n.inputs face.sources

namespace Graph

variable {g g' g'' : Graph} {passes : List Pass} {done : Nat → Option (List Part)}
  {spot : Nat → Spot} {face : Face} {id i j k : Nat} {n m node : Node} {p : Pass}
  {σ : Signature} {parts : List Part} {rest queue : List Nat} {o : Outlet} {s : Spot}

/-- What a spot of the graph shows. -/
def face? (g : Graph) (done : Nat → Option (List Part)) : Spot → Option Face
  | .kept id => g.nodes[id]?.map Node.face
  | .part id j => do
      let n ← g.nodes[id]?
      let parts ← done id
      let part ← parts[j]?
      return part.face id n.inputs

theorem face?_kept :
    g.face? done (.kept id) = some face ↔ ∃ n, g.nodes[id]? = some n ∧ n.face = face := by
  rw [face?, Option.map_eq_some_iff]

theorem face?_part : g.face? done (.part id j) = some face ↔
    ∃ n parts part, g.nodes[id]? = some n ∧ done id = some parts ∧ parts[j]? = some part ∧
      part.face id n.inputs = face := by
  simp [face?, Option.bind_eq_some_iff]

/-- A spot shows the same when one more node is replaced. -/
theorem face?_update (fresh : done k = none)
    (shown : g.face? done s = some face) :
    g.face? (Function.update done k (some parts)) s = some face := by
  cases s with
  | kept => exact shown
  | part id j =>
    obtain ⟨n, parts', part, there, replacing, at_j, rfl⟩ := face?_part.1 shown
    have other : id ≠ k := by
      rintro rfl
      simp [replacing] at fresh
    refine face?_part.2 ⟨n, parts', part, there, ?_, at_j, rfl⟩
    rw [Function.update_of_ne other, replacing]

/-- The graph `g` has become `g'` by replacing matches of the passes: `done` says by which
parts. -/
structure Expands (g : Graph) (passes : List Pass) (done : Nat → Option (List Part))
    (spot : Nat → Spot) (g' : Graph) : Prop where
  wf : g'.WellFormed
  acyclic : g'.Acyclic
  replaced : ∀ {id parts}, done id = some parts → ∃ n σ, g.nodes[id]? = some n ∧ g.Signed n σ ∧
    (∃ p ∈ passes, σ.Matches p) ∧ Unpad.Replaces σ n.provenance parts
  injective : ∀ {i j}, i < g'.size → j < g'.size → spot i = spot j → i = j
  shows : ∀ {id m}, g'.nodes[id]? = some m → ∃ face, g.face? done (spot id) = some face ∧
    face.ShownBy done spot g' id m
  signed : ∀ {id i n m σ}, g'.nodes[id]? = some m → spot id = .kept i → g.nodes[i]? = some n →
    g.Signed n σ → g'.Signed m σ
  inputs : List.Forall₂ (fun o' o => spot o'.node = .kept o.node) g'.inputs g.inputs
  outputs : List.Forall₂ (fun o' o => spot o'.node = (Spot.kept o.node).settle done)
    g'.outputs g.outputs

/-- A graph is an expansion of itself. -/
theorem WellFormed.expands (wf : g.WellFormed) (acyclic : g.Acyclic) :
    g.Expands passes (fun _ => none) .kept g where
  wf := wf
  acyclic := acyclic
  replaced := by simp
  injective := fun _ _ same => Spot.kept.inj same
  shows := by
    intro id m there
    refine ⟨_, face?_kept.2 ⟨m, there, rfl⟩, ⟨rfl, rfl, rfl, fun _ => rfl, ?_⟩⟩
    exact List.forall₂_map_right_iff.2 (List.forall₂_same.2 fun _ _ => rfl)
  signed := by
    rintro id i n m σ there ⟨⟩ there' signed
    cases there.symm.trans there'
    exact signed
  inputs := List.forall₂_same.2 fun _ _ => rfl
  outputs := List.forall₂_same.2 fun _ _ => rfl

namespace Expands

variable (expands : g.Expands passes done spot g')
include expands

/-- A match is a node of the first graph, with its signature and its notes. -/
theorem kept_of_matches (wf : g.WellFormed) (there : g'.nodes[id]? = some m)
    (isMatch : g'.Matches m p) :
    ∃ i n σ, spot id = .kept i ∧ g.nodes[i]? = some n ∧ g.Signed n σ ∧
      g'.Signed m σ ∧ σ.Matches p ∧ m.provenance = n.provenance := by
  have takes := Pass.takes_of_matches isMatch
  obtain ⟨τ, signed', holds⟩ := isMatch
  obtain ⟨face, shown, shows⟩ := expands.shows there
  cases stands : spot id with
  | kept i =>
    rw [stands] at shown
    obtain ⟨n, there₀, rfl⟩ := face?_kept.1 shown
    obtain ⟨σ, signed, -⟩ := wf.signed there₀
    cases (expands.signed there stands there₀ signed).unique signed'
    refine ⟨i, n, τ, rfl, there₀, signed, signed', holds, shows.provenance fun isSource => ?_⟩
    exact absurd isSource (by simp [Pass.isSource_of_takes takes])
  | part i j =>
    rw [stands] at shown
    obtain ⟨n, parts, part, -, replacing, at_j, rfl⟩ := face?_part.1 shown
    obtain ⟨_, _, -, -, -, replaces⟩ := expands.replaced replacing
    have settled := replaces.settled part (List.mem_of_getElem? at_j)
    have op : m.op = part.op := shows.op
    rw [← op, signed'.op] at settled
    exact absurd holds (Signature.not_matches_of_settled settled)

/-- A node that is replaced is bypassed. -/
theorem fresh_of_wanted (wanted : g'.Wanted id) (stands : spot id = .kept i) : done i = none := by
  have fresh {s : Spot} (reads : spot id = s.settle done) : done i = none :=
    (Spot.settle_eq_kept.1 (reads.symm.trans stands)).2
  rcases wanted with ⟨o, mem, rfl⟩ | ⟨reader, n, o, there, read, rfl⟩
  · obtain ⟨o, -, reads⟩ := forall₂_of_mem expands.outputs mem
    exact fresh reads
  · obtain ⟨face, -, shows⟩ := expands.shows there
    obtain ⟨source, -, reads⟩ := forall₂_of_mem shows.reads read
    exact fresh reads

end Expands

/-! ## Steps -/

/-- The spots of a graph of some size in which the node at `i` is replaced. -/
def spotIn (size i : Nat) (spot : Nat → Spot) (id : Nat) : Spot :=
  if id < size then spot id else .part i (id - size)

theorem spotIn_kept {size : Nat} (kept : id < size) :
    spotIn size i spot id = spot id := if_pos kept

theorem spotIn_came {size : Nat} : spotIn size i spot (size + j) = .part i j := by
  rw [spotIn, if_neg (by omega), Nat.add_sub_cancel_left]

namespace Expands

section Spots

variable {taken : Nat} (parts : List Part) (expands : g.Expands passes done spot g')
  (fresh : done i = none)
include expands fresh

/-- The spots of the parts are new. -/
theorem spotIn_injective {a b : Nat}
    (same : spotIn g'.size i spot a = spotIn g'.size i spot b) : a = b := by
  have other {id j : Nat} (old : id < g'.size) : spot id ≠ .part i j := by
    intro stands
    obtain ⟨face, shown, -⟩ := expands.shows (List.getElem?_eq_getElem old)
    rw [stands, face?_part] at shown
    obtain ⟨_, _, _, -, replacing, -⟩ := shown
    simp [fresh] at replacing
  rcases Nat.lt_or_ge a g'.size with old | came <;>
    rcases Nat.lt_or_ge b g'.size with old' | came'
  · rw [spotIn_kept old, spotIn_kept old'] at same
    exact expands.injective old old' same
  · obtain ⟨j, rfl⟩ := Nat.exists_eq_add_of_le came'
    rw [spotIn_kept old, spotIn_came] at same
    exact absurd same (other old)
  · obtain ⟨j, rfl⟩ := Nat.exists_eq_add_of_le came
    rw [spotIn_kept old', spotIn_came] at same
    exact absurd same.symm (other old')
  · obtain ⟨j, rfl⟩ := Nat.exists_eq_add_of_le came
    obtain ⟨j', rfl⟩ := Nat.exists_eq_add_of_le came'
    rw [spotIn_came, spotIn_came] at same
    cases same
    rfl

variable (lt : taken < g'.size) (stands : spot taken = .kept i)
include lt stands

/-- What reads a spot still does so when its edges to the replaced node lead to the last part. -/
theorem redirected (old : o.node < g'.size) (slot : o.slot = 0)
    (reads : spot o.node = s.settle done) :
    spotIn g'.size i spot (Outlet.redirect ⟨taken, 0⟩ ⟨g'.size + (parts.length - 1), 0⟩ o).node =
      s.settle (Function.update done i (some parts)) := by
  by_cases here : o = ⟨taken, 0⟩
  · subst here
    rw [stands, eq_comm, Spot.settle_eq_kept] at reads
    rw [Outlet.redirect, if_pos rfl, spotIn_came, reads.1, Spot.settle, Function.update_self]
  · rw [Outlet.redirect, if_neg here, spotIn_kept old, reads]
    cases s with
    | part => rfl
    | kept k =>
      have other : k ≠ i := by
        rintro rfl
        have same : spot o.node = spot taken := by
          rw [reads, stands, Spot.settle_eq_kept.2 ⟨rfl, fresh⟩]
        have at_taken := expands.injective old lt same
        exact here (by rw [← at_taken, ← slot])
      rw [Spot.settle, Spot.settle, Function.update_of_ne other]

theorem redirected_all {outlets : List Outlet} {sources : List Spot}
    (slots : ∀ o ∈ outlets, o.slot = 0 ∧ o.node < g'.size)
    (reads : List.Forall₂ (fun o source => spot o.node = source.settle done) outlets sources) :
    List.Forall₂ (fun o source => spotIn g'.size i spot o.node =
        source.settle (Function.update done i (some parts)))
      (outlets.map (Outlet.redirect ⟨taken, 0⟩ ⟨g'.size + (parts.length - 1), 0⟩)) sources := by
  rw [List.forall₂_map_left_iff]
  refine ((List.forall₂_and_left _ _).2 ⟨slots, reads⟩).imp ?_
  rintro o source ⟨⟨slot, old⟩, reads⟩
  exact expands.redirected parts fresh lt stands old slot reads

/-- What a part reads stands where its port leads. -/
theorem reads_port {port : Port}
    (reads : List.Forall₂ (fun o source => spot o.node = source.settle done)
      node.inputs n.face.sources)
    (slots : ∀ o ∈ node.inputs, o.slot = 0 ∧ o.node < g'.size ∧ o.node ≠ taken)
    (within : port.Within n.inputs.length) :
    spotIn g'.size i spot (port.outlet g'.size node.inputs).node =
      (port.spot i n.inputs).settle (Function.update done i (some parts)) := by
  cases port with
  | part j => exact spotIn_came
  | slot k =>
    rw [Node.face, List.forall₂_map_right_iff, List.forall₂_iff_get] at reads
    have within' : k < node.inputs.length := by rwa [reads.1]
    obtain ⟨slot, old, other⟩ := slots _ (List.getElem_mem within')
    have led := expands.redirected parts fresh lt stands old slot (reads.2 k within' within)
    rw [Outlet.redirect, if_neg fun same => other (congrArg Outlet.node same)] at led
    rw [Port.outlet, Port.spot, List.getD_eq_getElem _ _ within', List.getD_eq_getElem _ _ within]
    exact led

end Spots

section Applied

variable (expands : g.Expands passes done spot g')
  (applies : p.Applies g' node σ parts rest queue g'') (fresh : done i = none)
  (stands : spot node.id = .kept i)
include expands applies fresh stands

/-- A node that stays shows what it showed. -/
theorem shownBy_kept {m' : Node} (there : g'.nodes[id]? = some m) (keeps : m.Keeps m')
    (inputs : m'.inputs =
      m.inputs.map (Outlet.redirect ⟨node.id, 0⟩ ⟨g'.size + (parts.length - 1), 0⟩))
    (shown : face.ShownBy done spot g' id m) :
    face.ShownBy (Function.update done i (some parts)) (spotIn g'.size i spot) g'' id m' where
  name := keeps.name.trans shown.name
  op := keeps.op.trans shown.op
  facts := keeps.facts.trans shown.facts
  provenance := by
    intro live
    rw [keeps.provenance, shown.provenance]
    intro isSource
    rw [← keeps.op] at isSource
    exact (applies.live_of_live expands.wf (live isSource)).1
      (List.getElem?_eq_some_iff.1 there).1
  reads := by
    rw [inputs]
    exact expands.redirected_all parts fresh (List.getElem?_eq_some_iff.1 applies.there).1 stands
      (fun _ => expands.wf.read_eq there) shown.reads

/-- A node that comes in shows its part. -/
theorem shownBy_came {part : Part} (there : g.nodes[i]? = some n) (signed : g.Signed n σ)
    (at_j : parts[j]? = some part) (made : part.node g'.size node.inputs j = m.bare) :
    (part.face i n.inputs).ShownBy (Function.update done i (some parts))
      (spotIn g'.size i spot) g'' id m
      where
  name := (congrArg Node.name made).symm
  op := (congrArg Node.op made).symm
  facts := by
    rw [← Node.facts_bare, ← made]
    rfl
  provenance := fun _ => (congrArg Node.provenance made).symm
  reads := by
    have inputs : m.inputs = part.ports.map (·.outlet g'.size node.inputs) :=
      (congrArg Node.inputs made).symm
    obtain ⟨face, shown, shows⟩ := expands.shows applies.there
    rw [stands, face?_kept] at shown
    obtain ⟨n', there', rfl⟩ := shown
    cases there.symm.trans there'
    rw [inputs, Part.face, List.forall₂_map_left_iff,
      List.forall₂_map_right_iff, List.forall₂_same]
    intro port among
    refine expands.reads_port parts fresh
      (List.getElem?_eq_some_iff.1 applies.there).1 stands shows.reads
      (fun o read => ?_) ?_
    · obtain ⟨slot, old⟩ := expands.wf.read_eq applies.there read
      exact ⟨slot, old, expands.acyclic.loopless applies.there read⟩
    · rw [signed.operands.length_eq]
      exact applies.replaces.within part (List.mem_of_getElem? at_j) port among

end Applied

/-- A step of a run leads from an expansion to an expansion. -/
theorem applied (expands : g.Expands passes done spot g') (wf : g.WellFormed) (mem : p ∈ passes)
    (applies : p.Applies g' node σ parts rest queue g'') :
    ∃ i, spot node.id = .kept i ∧ done i = none ∧
      g.Expands passes (Function.update done i (some parts)) (spotIn g'.size i spot) g'' := by
  obtain ⟨i, n, τ, stands, there, signed, signed', isMatch, notes⟩ :=
    expands.kept_of_matches wf applies.there applies.isMatch
  cases applies.signature.unique signed'
  have fresh := expands.fresh_of_wanted applies.wanted stands
  have lt : node.id < g'.size := (List.getElem?_eq_some_iff.1 applies.there).1
  refine ⟨i, stands, fresh, {
    wf := applies.wellFormed expands.wf
    acyclic := applies.acyclic expands.wf expands.acyclic
    replaced := ?_
    injective := fun _ _ same => expands.spotIn_injective fresh same
    shows := ?_
    signed := ?_
    inputs := ?_
    outputs := ?_ }⟩
  · intro k parts' replacing
    by_cases here : k = i
    · subst here
      cases (Function.update_self ..).symm.trans replacing
      exact ⟨n, σ, there, signed, ⟨p, mem, isMatch⟩, notes ▸ applies.replaces⟩
    · rw [Function.update_of_ne here] at replacing
      exact expands.replaced replacing
  · intro id m here
    rcases applies.kept_or_came here with ⟨m', there', keeps, inputs⟩ | ⟨j, rfl, came⟩
    · have old : id < g'.size := (List.getElem?_eq_some_iff.1 there').1
      obtain ⟨face, shown, shows⟩ := expands.shows there'
      rw [spotIn_kept old]
      exact ⟨face, face?_update fresh shown,
        expands.shownBy_kept applies fresh stands there' keeps inputs shows⟩
    · rw [Part.nodes_getElem?, Option.map_eq_some_iff] at came
      obtain ⟨part, at_j, made⟩ := came
      rw [spotIn_came]
      exact ⟨_, face?_part.2 ⟨n, parts, part, there, Function.update_self .., at_j, rfl⟩,
        expands.shownBy_came applies fresh stands there signed at_j made⟩
  · intro id k n' m τ here at_id there' signed'
    rcases applies.kept_or_came here with ⟨m', there₁, -⟩ | ⟨j, rfl, -⟩
    · have old : id < g'.size := (List.getElem?_eq_some_iff.1 there₁).1
      rw [spotIn_kept old] at at_id
      exact applies.signed there₁ here (expands.signed there₁ at_id there' signed')
    · rw [spotIn_came] at at_id
      cases at_id
  · rw [applies.inputs_eq]
    refine ((List.forall₂_and_left _ _).2 ⟨fun o mem => ?_, expands.inputs⟩).imp fun o x both =>
      (spotIn_kept both.1).trans both.2
    obtain ⟨-, m, fact, there, -⟩ := expands.wf.sources mem
    exact (List.getElem?_eq_some_iff.1 there).1
  · rw [applies.outputs_eq]
    have outputs := expands.redirected_all parts fresh lt stands
      (fun _ => expands.wf.answer_eq) (List.forall₂_map_right_iff.2 expands.outputs)
    rw [List.forall₂_map_right_iff] at outputs
    exact outputs

/-! ## Compaction -/

/-- A compaction of an expansion is one: each node stands where what it copies stood. -/
theorem compacted {w : Wires} (expands : g.Expands passes done spot g')
    (compacts : g'.Compacts w g'') :
    ∃ spot', g.Expands passes done spot' g'' := by
  have placed (k : Nat) : ∃ id, ∀ m, g''.nodes[k]? = some m →
      w.find? ⟨id, 0⟩ = some ⟨k, 0⟩ ∧ (g'.Live id ∨ m.op.isSource = true) := by
    cases here : g''.nodes[k]? with
    | none => exact ⟨0, by simp⟩
    | some m =>
      obtain ⟨⟨id, slot⟩, found, origin⟩ := compacts.placed here
      obtain rfl : 0 = slot := (compacts.found found).1
      exact ⟨id, fun _ same => ⟨found, Option.some.inj same ▸ origin⟩⟩
  choose before placed using placed
  have copied {outlets outlets' : List Outlet} (slots : ∀ o ∈ outlets, o.slot = 0)
      (found : List.Forall₂ (fun o o' => w.find? o = some o') outlets outlets') :
      List.Forall₂ (fun o' o => before o'.node = o.node) outlets' outlets := by
    refine (((List.forall₂_and_left _ _).2 ⟨slots, found⟩).imp ?_).flip
    rintro o o' ⟨slot, found⟩
    obtain ⟨same, -, m, -, here, -⟩ := compacts.found found
    have copy := (placed _ m here).1
    rw [← slot, ← same] at copy
    exact congrArg Outlet.node (compacts.injective copy found)
  refine ⟨fun k => spot (before k), {
    wf := compacts.wellFormed expands.wf
    acyclic := compacts.acyclic expands.wf expands.acyclic
    replaced := expands.replaced
    injective := ?_
    shows := ?_
    signed := ?_
    inputs := ?_
    outputs := ?_ }⟩
  · intro i j lt lt' same
    obtain ⟨found, -⟩ := placed _ _ (List.getElem?_eq_getElem lt)
    obtain ⟨found', -⟩ := placed _ _ (List.getElem?_eq_getElem lt')
    obtain ⟨-, _, _, there, -⟩ := compacts.found found
    obtain ⟨-, _, _, there', -⟩ := compacts.found found'
    have nodes : before i = before j :=
      expands.injective (List.getElem?_eq_some_iff.1 there).1
        (List.getElem?_eq_some_iff.1 there').1 same
    rw [nodes, found'] at found
    cases found
    rfl
  · intro k m here
    obtain ⟨found, origin⟩ := placed k m here
    obtain ⟨-, n, m', there, here', copies, notes⟩ := compacts.found found
    cases here.symm.trans here'
    obtain ⟨face, shown, shows⟩ := expands.shows there
    have needed (live : m.op.isSource = true → g''.Live k) : g'.Live (before k) := by
      rcases origin with live' | isSource
      · exact live'
      · obtain ⟨o, found', live'⟩ := compacts.live_of_live expands.wf (live isSource)
        rwa [compacts.injective found' found] at live'
    refine ⟨face, shown, copies.name.trans shows.name, copies.op.trans shows.op,
      copies.facts.trans shows.facts, fun live => ?_, ?_⟩
    · rw [notes (needed live), shows.provenance fun _ => needed live]
    · refine forall₂_trans (fun same reads => ?_)
        (copied (fun _ read => (expands.wf.read_eq there read).1) copies.inputs) shows.reads
      rw [same, reads]
  · intro id i n m σ here stands there signed
    obtain ⟨-, n', m', there', here', copies, -⟩ := compacts.found (placed id m here).1
    cases here.symm.trans here'
    exact compacts.signed copies (expands.signed there' stands there signed)
  · refine forall₂_trans (fun same reads => ?_)
      (copied (fun _ mem => (expands.wf.sources mem).1) compacts.inputs) expands.inputs
    rw [same, reads]
  · refine forall₂_trans (fun same reads => ?_)
      (copied (fun _ mem => (expands.wf.answer_eq mem).1) compacts.outputs) expands.outputs
    rw [same, reads]

end Expands

end Graph

end EvenPad
