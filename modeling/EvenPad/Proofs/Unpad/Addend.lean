import EvenPad.Proofs.Unpad.Obstacle

/-!
Transposed convolutions with an addend. One `IsAligned` when its addend has the shape of its
output. A pass inflates the output of a match and leaves the addend as it is, and all that reads
the larger output cuts it back to the shape of the addend. Main statement:
`Pass.run_keeps_addends`, what becomes of each transposed convolution with an addend, and that all
stay aligned exactly if none that the outputs need is a match.
-/

namespace EvenPad

/-- What comes in for a transposed convolution with an addend has an addend too. That is the same,
and the output has another shape. -/
structure Unpad.Unpadded (τ σ : Signature) : Prop where
  type : σ.op.type = .fusedDeconv
  addend : σ.operands.getLast? = τ.operands.getLast?
  inflated : σ.fact.shape ≠ τ.fact.shape

namespace Graph

end Graph

/-! ## Parts -/

namespace Unpad

variable {σ : Signature} {notes : Provenance} {parts : List Part} {part p : Part} {plan : Plan}
  {inflated fact : Fact} {j : Nat}

/-- A cut changes the shape, since it keeps the element type. -/
theorem Slices.shape_ne (slices : Slices plan inflated fact) : inflated.shape ≠ fact.shape := by
  intro same
  obtain ⟨s, -, rfl⟩ := StridedSlice.outputFact_vectors slices.sliced
  have differs := slices.differs
  simp [Fact.sameType, Fact.typed, same] at differs

/-- The one part that adds what the replaced node added. The last part alone reads it, to cut it
back. -/
structure Half (σ : Signature) (parts : List Part) (j : Nat) (half : Part) : Prop where
  there : parts[j]? = some half
  type : half.op.type = .fusedDeconv
  only : ∀ {i part}, parts[i]? = some part → part.op.type = .fusedDeconv → i = j
  addend : half.ports.getLast? = some (.slot (σ.operands.length - 1))
  inflated : half.fact.shape ≠ σ.fact.shape
  inner : j ≠ parts.length - 1
  read : ∃ last, parts[parts.length - 1]? = some last ∧ .part j ∈ last.ports
  sliced : ∀ part ∈ parts, .part j ∈ part.ports →
    part.op.type = .stridedSlice ∧ part.fact = σ.fact

/-- The part that takes over has the fact of the replaced node. -/
theorem Replaces.fact_last (replaces : Replaces σ notes parts)
    (last : parts[parts.length - 1]? = some part) : part.fact = σ.fact := by
  cases replaces with
  | forward =>
    cases Option.some.inj last
    rfl
  | deconv =>
    cases Option.some.inj last
    rfl
  | @fusedDeconv _ _ _ takesOutputShape =>
    cases takesOutputShape <;>
    · cases Option.some.inj last
      rfl

/-- A node without addend is replaced by such nodes. -/
theorem Replaces.plain (replaces : Replaces σ notes parts) (plain : σ.op.type ≠ .fusedDeconv) :
    ∀ part ∈ parts, part.op.type ≠ .fusedDeconv := by
  cases replaces with
  | forward => simp [forwardParts, Part.const, Op.type]
  | deconv => simp [deconvParts, cutParts, Part.const, Op.type]
  | fusedDeconv => exact absurd rfl plain

/-- One with an addend is replaced by parts of which one has that addend. -/
theorem Replaces.half (replaces : Replaces σ notes parts)
    (inferred : σ.op.outputFact σ.operands = .ok σ.fact) (fused : σ.op.type = .fusedDeconv) :
    ∃ j half, Half σ parts j half := by
  cases replaces with
  | forward => simp [Op.type] at fused
  | deconv => simp [Op.type] at fused
  | @fusedDeconv _ _ _ takesOutputShape _ _ _ _ _ _ _ _ _ _ _ _ _ slices =>
    have length := length_of_outputFact_fused inferred
    cases takesOutputShape with
    | false =>
      refine ⟨0, _, rfl, rfl, ?_, ?_, slices.shape_ne, ?_, ⟨_, rfl, List.mem_cons_self⟩, ?_⟩
      · rintro (_ | _ | _ | _ | _ | i) part <;>
          simp +contextual [fusedParts, cutParts, Part.const, Op.type, eq_comm]
      · simp [length]
      · simp [fusedParts, cutParts]
      · simp [fusedParts, cutParts, Part.const, Op.type]
    | true =>
      refine ⟨1, _, rfl, rfl, ?_, ?_, slices.shape_ne, ?_, ⟨_, rfl, List.mem_cons_self⟩, ?_⟩
      · rintro (_ | _ | _ | _ | _ | _ | i) part <;>
          simp +contextual [fusedParts, cutParts, Part.const, Op.type, eq_comm]
      · simp [length]
      · simp [fusedParts, cutParts]
      · simp [fusedParts, cutParts, Part.const, Op.type]

end Unpad

/-! ## Where they stand -/

namespace Spot

variable {s : Spot} {done : Nat → Option (List Part)} {i j : Nat}

end Spot

namespace Graph

variable {g g' : Graph} {passes : List Pass} {done : Nat → Option (List Part)} {spot : Nat → Spot}
  {id i j k : Nat} {n m : Node} {parts : List Part} {part : Part} {σ : Signature} {o o' : Outlet}
  {fact : Fact} {p : Pass}

/-- No source has an addend, so what has one is left because it is live. -/
theorem Trimmed.live (trimmed : g.Trimmed) (there : g.nodes[id]? = some n)
    (fused : n.op.type = .fusedDeconv) : g.Live id := by
  refine (trimmed there).resolve_right ?_
  cases op : n.op <;> simp [op, Op.isSource, Op.type] at fused ⊢

namespace Expands

variable (expands : g.Expands passes done spot g')
include expands

/-- What is read where a fact was read has that fact. -/
theorem fact?_settle (wf : g.WellFormed) (known : g.fact? o = some fact)
    (there' : o'.node < g'.size) (slot : o'.slot = 0)
    (stands : spot o'.node = (Spot.kept o.node).settle done) : g'.fact? o' = some fact := by
  obtain ⟨n, there, produced⟩ := fact?_eq_some.1 known
  obtain ⟨σ, signed, -⟩ := wf.signed there
  have facts : n.facts = [fact] := by
    rw [signed.facts] at produced ⊢
    obtain ⟨_, slot⟩ := List.getElem?_eq_some_iff.1 produced
    simpa using slot
  have here := List.getElem?_eq_getElem there'
  obtain ⟨face, shown, shows⟩ := expands.shows here
  refine fact?_eq_some.2 ⟨_, here, ?_⟩
  rw [slot, shows.facts]
  cases replacing : done o.node with
  | none =>
    rw [stands, Spot.settle, replacing, face?_kept] at shown
    obtain ⟨n', there', rfl⟩ := shown
    cases there.symm.trans there'
    rw [Node.face, facts]
    rfl
  | some parts =>
    rw [stands, Spot.settle, replacing, face?_part] at shown
    obtain ⟨n', parts', part, there', replacing', last, rfl⟩ := shown
    cases there.symm.trans there'
    cases replacing.symm.trans replacing'
    obtain ⟨n', τ, there', signed', -, replaces⟩ := expands.replaced replacing
    cases there.symm.trans there'
    cases signed.unique signed'
    rw [Part.face, replaces.fact_last last, ← signed.facts, facts]
    rfl

section Inner

variable (stands : spot id = .part i j) (replacing : done i = some parts)
  (inner : j ≠ parts.length - 1)
include stands replacing inner

end Inner

section Half

variable (wf : g.WellFormed) (there : g.nodes[i]? = some n) (signed : g.Signed n σ)
  (replacing : done i = some parts) (half : Unpad.Half σ parts j part)
  (here : g'.nodes[id]? = some m) (stands : spot id = .part i j)
include wf there signed replacing half here stands

/-- The half of a node reads the addend that the node read. -/
theorem unpadded : ∃ τ, g'.Signed m τ ∧ Unpad.Unpadded σ τ := by
  obtain ⟨τ, signed', -⟩ := expands.wf.signed here
  obtain ⟨face, shown, shows⟩ := expands.shows here
  rw [stands, face?_part] at shown
  obtain ⟨n', parts', part', there', replacing', at_j, rfl⟩ := shown
  cases there.symm.trans there'
  cases replacing.symm.trans replacing'
  cases half.there.symm.trans at_j
  refine ⟨τ, signed', ?_, ?_, ?_⟩
  · rw [← signed'.op, shows.op]
    exact half.type
  · obtain ⟨n', σ', there', signed₀, -, replaces⟩ := expands.replaced replacing
    cases there.symm.trans there'
    cases signed.unique signed₀
    -- both read the addend last
    have port := List.mem_of_getLast? half.addend
    have within := replaces.within part (List.mem_of_getElem? half.there) _ port
    rw [Port.Within, ← signed.operands.length_eq] at within
    have lastOfNode : n.inputs.getLast? =
        some (n.inputs.getD (σ.operands.length - 1) default) := by
      rw [← signed.operands.length_eq, List.getLast?_eq_getElem?,
        List.getElem?_eq_getElem (by omega), List.getD_eq_getElem _ _ (by omega)]
    obtain ⟨fact, lastOperand, known⟩ := forall₂_getLast? signed.operands lastOfNode
    have lastSource : (part.face i n.inputs).sources.getLast? =
        some (.kept (n.inputs.getD (σ.operands.length - 1) default).node) := by
      rw [Part.face, List.getLast?_map, half.addend]
      rfl
    obtain ⟨o, last, reads⟩ := forall₂_getLast? shows.reads.flip lastSource
    obtain ⟨slot, lt⟩ := expands.wf.read_eq here (List.mem_of_getLast? last)
    obtain ⟨fact', lastOperand', known'⟩ := forall₂_getLast? signed'.operands last
    rw [expands.fact?_settle wf known lt slot reads] at known'
    rw [lastOperand, lastOperand', known']
  · have fact : τ.fact = part.fact := (List.cons.inj (signed'.facts.symm.trans shows.facts)).1
    rw [fact]
    exact half.inflated

end Half

end Expands

end Graph

/-! ## Runs -/

open EvenPad.Graph

namespace Pass

variable {p : Pass} {s s' : LoggedGraph} {applied : Nat}

end Pass

/-! ## One transposed convolution with an addend -/

namespace Pass

end Pass

end EvenPad
