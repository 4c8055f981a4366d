import EvenPad.Proofs.Unpad.Expand

/-!
Which nodes of a graph are left in an expansion. The parts that replace a node read all that it
read, apart from its output shape, so the outputs depend on what stands at a spot if they depended
on the node of the spot when the nodes that are replaced are not told their output shapes. Main
statement: `Graph.Expands.live_kept_iff`.
-/

namespace EvenPad

/-- The slot is not that of an output shape. -/
def Op.NeedsSlot (op : Op) (i : Nat) : Prop := op.takesOutputShape = true → i ≠ 2

theorem Node.mem_needs_iff {n : Node} {o : Outlet} :
    o ∈ n.needs ↔ ∃ i, n.inputs[i]? = some o ∧ n.op.NeedsSlot i := by
  unfold Node.needs Op.NeedsSlot
  split
  · next told =>
    rw [List.mem_eraseIdx_iff_getElem?]
    simp only [told, true_implies, and_comm]
  · next untold => simp [untold, List.mem_iff_getElem?]

/-- A part reads what is in a slot, itself or through a part that it reads. -/
inductive Part.Reaches (parts : List Part) : Nat → Nat → Prop
  | slot {j i : Nat} {part : Part} : parts[j]? = some part →
    .slot i ∈ part.ports → Reaches parts j i
  | part {j k i : Nat} {part : Part} :
    parts[j]? = some part → .part k ∈ part.ports → Reaches parts k i → Reaches parts j i

namespace Unpad

variable {σ : Signature} {notes : Provenance} {parts before : List Part}
  {part : Part} {plan : Plan} {cropped : Fact} {name : String} {i k start : Nat}

/-- No part reads an output shape of the node that is replaced. -/
theorem Replaces.needsSlot (replaces : Replaces σ notes parts) :
    ∀ part ∈ parts, .slot i ∈ part.ports → σ.op.NeedsSlot i := by
  cases replaces with
  | forward => simp [Op.NeedsSlot, Op.takesOutputShape]
  | deconv =>
    simp +contextual [deconvParts, cutParts, Part.const, Op.NeedsSlot]
    omega
  | @fusedDeconv _ _ _ takesOutputShape =>
    cases takesOutputShape <;>
      simp +contextual [fusedParts, cutParts, Part.const, Op.NeedsSlot, Op.takesOutputShape]
    omega

/-- What cuts the output of a part back reads what the part reads. -/
theorem reaches_cut (here : before[k]? = some part) (reads : .slot i ∈ part.ports) :
    Part.Reaches (before ++ cutParts name notes plan k start cropped)
      ((before ++ cutParts name notes plan k start cropped).length - 1) i := by
  have lt : k < before.length := (List.getElem?_eq_some_iff.1 here).1
  have last : (before ++ cutParts name notes plan k start cropped)[
      (before ++ cutParts name notes plan k start cropped).length - 1]? =
        (cutParts name notes plan k start cropped)[3]? := by
    rw [List.length_append, List.getElem?_append_right (by simp [cutParts])]
    congr 1
    simp only [cutParts, List.length_cons, List.length_nil]
    omega
  refine .part (last.trans rfl) List.mem_cons_self (.slot ?_ reads)
  rwa [List.getElem?_append_left lt]

/-- The last part reads all else. -/
theorem Replaces.reaches (replaces : Replaces σ notes parts)
    (inferred : σ.op.outputFact σ.operands = .ok σ.fact) (lt : i < σ.operands.length)
    (needs : σ.op.NeedsSlot i) : Part.Reaches parts (parts.length - 1) i := by
  cases replaces with
  | forward =>
    match i, lt with
    | 0, _ => exact .part rfl List.mem_cons_self (.slot (j := 3) rfl List.mem_cons_self)
    | 1, _ => exact .slot rfl (List.mem_cons_of_mem _ List.mem_cons_self)
  | @deconv _ _ _ _ takesOutputShape =>
    rw [length_of_outputFact_deconv inferred] at lt
    have among : i = 0 ∨ i = 1 := by
      cases takesOutputShape with
      | false =>
        simp only [Bool.toNat_false] at lt
        omega
      | true =>
        simp only [Bool.toNat_true] at lt
        have other := needs rfl
        omega
    exact reaches_cut (k := 1) rfl (by simpa using among)
  | @fusedDeconv _ _ _ takesOutputShape =>
    rw [length_of_outputFact_fused inferred] at lt
    cases takesOutputShape with
    | false =>
      simp only [Bool.toNat_false] at lt
      have among : i = 0 ∨ i = 1 ∨ i = 2 := by omega
      exact reaches_cut (k := 0) rfl (by simpa using among)
    | true =>
      simp only [Bool.toNat_true] at lt
      have other := needs rfl
      have among : i = 0 ∨ i = 1 ∨ i = 3 := by omega
      exact reaches_cut (k := 1) rfl (by simpa using among)

end Unpad

namespace Spot

variable {s : Spot} {done : Nat → Option (List Part)}

/-- The node that a spot belongs to. -/
def node : Spot → Nat
  | kept id => id
  | part id _ => id

@[simp] theorem node_settle : (s.settle done).node = s.node := by
  cases s with
  | kept id => cases at_id : done id <;> simp [settle, at_id, node]
  | part => rfl

end Spot

namespace Graph

variable {g g' : Graph} {passes : List Pass} {done : Nat → Option (List Part)} {spot : Nat → Spot}
  {id i j : Nat} {n m : Node} {p : Pass} {stops stops' : Node → Prop}

/-- Nodes that stop make less needed. -/
theorem Needed.mono (needed : g.Needed stops id)
    (fewer : ∀ {id : Nat} {n : Node}, g.nodes[id]? = some n → stops' n → stops n) :
    g.Needed stops' id := by
  induction needed with
  | answer mem => exact .answer mem
  | read _ there read needs ih => exact .read ih there read fun stop => needs (fewer there stop)

/-- The nodes that are replaced. -/
def gone (done : Nat → Option (List Part)) : Set Nat := {id | done id ≠ none}

theorem mem_gone : i ∈ gone done ↔ done i ≠ none := Iff.rfl

namespace Expands

variable (expands : g.Expands passes done spot g') (wf : g.WellFormed)
include expands wf

/-- The outputs depend on what stands at a spot only if they depended on the node of the spot. -/
theorem needed_of_live (live : g'.Live id) :
    g.Needed (fun n => n.id ∈ gone done) (spot id).node := by
  induction live with
  | answer answer' =>
    obtain ⟨o, answer, stands⟩ := forall₂_of_mem expands.outputs answer'
    rw [stands, Spot.node_settle]
    exact .answer answer
  | @read id m o' live here read ih =>
    obtain ⟨face, shown, shows⟩ := expands.shows here
    obtain ⟨source, mem, stands⟩ := forall₂_of_mem shows.reads read
    rw [stands, Spot.node_settle]
    cases at_id : spot id with
    | kept i =>
      rw [at_id] at shown ih
      obtain ⟨n, there, rfl⟩ := face?_kept.1 shown
      obtain ⟨o, reads, rfl⟩ := List.mem_map.1 mem
      have fresh := expands.fresh_of_wanted live.wanted at_id
      refine .read ih there reads fun stop => absurd ?_ stop
      rwa [wf.id_eq there]
    | part i j =>
      rw [at_id] at shown ih
      obtain ⟨n, parts, part, there, replacing, at_j, rfl⟩ := face?_part.1 shown
      obtain ⟨port, among, rfl⟩ := List.mem_map.1 mem
      cases port with
      | part k => exact ih
      | slot k =>
        obtain ⟨n', σ, there', signed, -, replaces⟩ := expands.replaced replacing
        cases there.symm.trans there'
        have part_mem := List.mem_of_getElem? at_j
        have within : k < n.inputs.length := by
          rw [signed.operands.length_eq]
          exact replaces.within part part_mem _ among
        have input := List.getElem?_eq_getElem within
        have needs : n.op.NeedsSlot k := signed.op ▸ replaces.needsSlot part part_mem among
        rw [Port.spot, List.getD_eq_getElem _ _ within]
        exact .read ih there (List.getElem_mem within) fun _ =>
          Node.mem_needs_iff.2 ⟨k, input, needs⟩

omit wf in
/-- What a live node reads is live, whatever stands there. -/
theorem live_of_source {face : Face} {source : Spot} (live : g'.Live id)
    (shown : g.face? done (spot id) = some face) (mem : source ∈ face.sources) :
    ∃ id', g'.Live id' ∧ spot id' = source.settle done := by
  cases here : g'.nodes[id]? with
  | none =>
    exact absurd (expands.wf.lt_size_of_live live)
      (Nat.not_lt.2 (List.getElem?_eq_none_iff.1 here))
  | some m =>
    obtain ⟨face', shown', shows⟩ := expands.shows here
    obtain rfl : face = face' := Option.some.inj (shown.symm.trans shown')
    obtain ⟨o, read, stands⟩ := forall₂_of_mem shows.reads.flip mem
    exact ⟨o.node, .read live here read, stands⟩

omit wf in
/-- Where a part is live, so is what stands for an input that it reaches. -/
theorem live_of_reaches {parts : List Part} {k : Nat} (there : g.nodes[i]? = some n)
    (replacing : done i = some parts) (reaches : Part.Reaches parts j k) (live : g'.Live id)
    (stands : spot id = .part i j) :
    ∃ id', g'.Live id' ∧ spot id' = (Spot.kept (n.inputs.getD k default).node).settle done := by
  have shown {j : Nat} {part : Part} (at_j : parts[j]? = some part) :
      g.face? done (.part i j) = some (part.face i n.inputs) :=
    face?_part.2 ⟨n, parts, part, there, replacing, at_j, rfl⟩
  induction reaches generalizing id with
  | slot at_j read =>
    exact expands.live_of_source live (stands ▸ shown at_j)
      (List.mem_map_of_mem (f := Port.spot i _) read)
  | part at_j read _ ih =>
    obtain ⟨id', live', stands'⟩ :=
      expands.live_of_source live (stands ▸ shown at_j)
        (List.mem_map_of_mem (f := Port.spot i _) read)
    exact ih live' stands'

/-- If the outputs depended on a node, they depend on what stands for it. -/
theorem live_of_needed (needed : g.Needed (fun n => n.id ∈ gone done) i) :
    ∃ id, g'.Live id ∧ spot id = (Spot.kept i).settle done := by
  induction needed with
  | answer answer =>
    obtain ⟨o', answer', stands⟩ := forall₂_of_mem expands.outputs.flip answer
    exact ⟨o'.node, .answer answer', stands⟩
  | @read i n o _ there read needs ih =>
    obtain ⟨id, live, stands⟩ := ih
    cases replacing : done i with
    | none =>
      rw [Spot.settle, replacing] at stands
      have shown : g.face? done (spot id) = some n.face := stands ▸ face?_kept.2 ⟨n, there, rfl⟩
      exact expands.live_of_source live shown
        (List.mem_map_of_mem (f := fun o => Spot.kept o.node) read)
    | some parts =>
      rw [Spot.settle, replacing] at stands
      obtain ⟨n', σ, there', signed, -, replaces⟩ := expands.replaced replacing
      cases there.symm.trans there'
      obtain ⟨τ, signed', inferred⟩ := wf.signed there
      obtain rfl := signed.unique signed'
      have stop : n.id ∈ gone done := by
        rw [mem_gone, wf.id_eq there, replacing]
        exact Option.some_ne_none parts
      obtain ⟨k, input, needsSlot⟩ := Node.mem_needs_iff.1 (needs stop)
      have within : k < n.inputs.length := (List.getElem?_eq_some_iff.1 input).1
      have reaches :=
        replaces.reaches inferred (signed.operands.length_eq ▸ within) (signed.op ▸ needsSlot)
      have led := expands.live_of_reaches there replacing reaches live stands
      rwa [List.getD_eq_getElem?_getD, input, Option.getD_some] at led

/-- The outputs depend on a node that is kept if they depended on it when the nodes that are
replaced are not told their output shapes. -/
theorem live_kept_iff (lt : id < g'.size) (stands : spot id = .kept i) :
    g'.Live id ↔ done i = none ∧ g.Needed (fun n => n.id ∈ gone done) i := by
  constructor
  · intro live
    have needed := expands.needed_of_live wf live
    rw [stands] at needed
    exact ⟨expands.fresh_of_wanted live.wanted stands, needed⟩
  · rintro ⟨fresh, needed⟩
    obtain ⟨id', live, stands'⟩ := expands.live_of_needed wf needed
    rw [Spot.settle, fresh] at stands'
    rwa [← expands.injective (expands.wf.lt_size_of_live live) lt (stands'.trans stands.symm)]

/-- A live match is one that the outputs depended on and that has not been replaced. -/
theorem exists_match_iff : (∃ id, g'.Live id ∧ p.MatchAt g' id ∧ spot id = .kept i) ↔
    done i = none ∧ g.Needed (fun n => n.id ∈ gone done) i ∧ p.MatchAt g i := by
  constructor
  · rintro ⟨id, live, ⟨m, here, isMatch⟩, stands⟩
    obtain ⟨fresh, needed⟩ :=
      (expands.live_kept_iff wf (expands.wf.lt_size_of_live live) stands).1 live
    obtain ⟨i', n, σ, stands', there, signed, -, holds, -⟩ :=
      expands.kept_of_matches wf here isMatch
    cases stands.symm.trans stands'
    exact ⟨fresh, needed, n, there, σ, signed, holds⟩
  · rintro ⟨fresh, needed, n, there, σ, signed, holds⟩
    obtain ⟨id, live, stands⟩ := expands.live_of_needed wf needed
    rw [Spot.settle, fresh] at stands
    have here := List.getElem?_eq_getElem (expands.wf.lt_size_of_live live)
    exact ⟨id, live, ⟨_, here, σ, expands.signed here stands there signed, holds⟩, stands⟩

/-- No match is left that the outputs depend on if all are replaced that they depended on. -/
theorem settled_iff :
    p.Settled g' ↔
      ∀ i, p.MatchAt g i → g.Needed (fun n => n.id ∈ gone done) i → done i ≠ none := by
  constructor
  · intro settled i isMatch needed fresh
    obtain ⟨id, live, isMatch', -⟩ := (expands.exists_match_iff wf).2 ⟨fresh, needed, isMatch⟩
    exact settled live isMatch'
  · rintro replaced id live ⟨m, here, isMatch⟩
    obtain ⟨i, n, σ, stands, -⟩ := expands.kept_of_matches wf here isMatch
    obtain ⟨fresh, needed, isMatch⟩ :=
      (expands.exists_match_iff wf).1 ⟨id, live, ⟨m, here, isMatch⟩, stands⟩
    exact replaced i isMatch needed fresh

end Expands

end Graph

end EvenPad
