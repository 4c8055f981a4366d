import EvenPad.Proofs.Unpad.Parts

/-!
The patches of the rules as rewriting steps: `forward_rewrites`, `deconv_rewrites` and
`fused_rewrites`. The signature and the notes of a node tell what comes in for it.
-/

namespace EvenPad

theorem Fact.eq_of_sameType {a b : Fact} (same : a.sameType b = true) (left : a.value? = none)
    (right : b.value? = none) : a = b := by
  obtain ⟨type, shape, value⟩ := a
  obtain ⟨type', shape', value'⟩ := b
  simp only [Fact.sameType, Bool.and_eq_true, beq_iff_eq] at same
  obtain ⟨rfl, rfl⟩ := same
  obtain rfl : value = none := left
  obtain rfl : value' = none := right
  rfl

/-- The pads are written down, and the same at both ends. -/
def Window.Settled (w : Window) : Prop := w.mode = .explicit ∧ w.padsBegin = w.padsEnd

theorem Window.settled_unpadded {w : Window} : w.unpadded.Settled := ⟨rfl, rfl⟩

/-- The window of the operator, if it has one, is settled. -/
def Op.Settled : Op → Prop
  | .conv _ w | .deconv _ w _ | .fusedDeconv w _ _ => w.Settled
  | _ => True

namespace Unpad

variable {g g' : Graph} {node : Node} {kind : ConvKind} {w resolved : Window}
  {takesOutputShape : Bool} {plan : Plan} {p patch : Patch} {d : Draft} {log log' : Log} {k : Nat}
  {touched : List Nat} {inflated wanted cropped : Fact}

/-- An output that is computed has no value, so a fact of the same type and shape without a value
is the same. -/
theorem facts_eq_of_sameType {current made : Fact} (wf : g.WellFormed)
    (there : g.nodes[node.id]? = some node) (computed : node.op.type ≠ .const)
    (inner : node.op.isSource = false) (known : g.fact? ⟨node.id, 0⟩ = some current)
    (same : current.sameType made = true) (valueless : made.value? = none) :
    node.facts = [made] := by
  obtain ⟨facts, fact, -, inferred, single⟩ := wf.infers there
  obtain ⟨n, here, produced⟩ := Graph.fact?_eq_some.1 known
  cases there.symm.trans here
  rw [single] at produced
  obtain rfl : fact = current := Option.some.inj produced
  rw [single, Fact.eq_of_sameType same (value?_of_outputFact inferred computed inner) valueless]

/-- The padded data and its convolution infer their facts. -/
theorem padAhead_infers {label : String} {tapped : List (Outlet × Fact)} {data filters : Outlet}
    {dataTap filtersTap : Nat} {dataFact filtersFact padded made : Fact}
    {shunts : List (Outlet × Outlet)} (dataAt : tapped[dataTap]? = some (data, dataFact))
    (filtersAt : tapped[filtersTap]? = some (filters, filtersFact))
    (described : Draft.Describes ⟨[label], tapped, padAheadNodes node kind resolved
      dataFact.elementType padded made tapped.length dataTap filtersTap, shunts⟩ g p) :
    Op.pad.outputFact [dataFact, .constant (.vector (Window.fullPads resolved.padsBegin)),
        .constant (.vector (Window.fullPads resolved.padsEnd)),
        .constant (.zeroScalar dataFact.elementType)] = .ok padded ∧
      (Op.conv kind resolved.unpadded).outputFact [padded, filtersFact] = .ok made := by
  obtain ⟨_, _, padRead, pads, padFact⟩ := described.infers (List.mem_of_getElem? (i := 3) rfl)
  cases (List.cons.inj padFact).1
  cases Graph.facts_unique padRead (.cons (described.fact?_tap dataAt) (.cons
    (described.fact?_wire (k := 0) rfl rfl) (.cons (described.fact?_wire (k := 1) rfl rfl) (.cons
      (described.fact?_wire (k := 2) rfl rfl) .nil))))
  obtain ⟨_, _, convRead, convolves, convFact⟩ :=
    described.infers (List.mem_of_getElem? (i := 4) rfl)
  cases (List.cons.inj convFact).1
  cases Graph.facts_unique convRead (.cons (described.fact?_wire (k := 3) rfl rfl) (.cons
    (described.fact?_tap filtersAt) .nil))
  exact ⟨pads, convolves⟩

/-- The patch for a forward convolution is a rewriting step, which puts the parts of its signature
in its place. -/
theorem forward_rewrites (wf : g.WellFormed) (there : g.nodes[node.id]? = some node)
    (op : node.op = .conv kind w) (run : forward kind w g node log = .ok (some patch) log')
    (apply : patch.apply g = .ok touched g') :
    ∃ σ parts, g.Signed node σ ∧ Replaces σ node.provenance parts ∧
      g.Rewritten node (Part.nodes g.size node.inputs parts) (parts.length - 1) g' := by
  obtain ⟨data, filters, facts, resolved, _, inputs, operands, resolves,
      padsKnown, uneven, -, run⟩ :=
    forward_eq_some run
  obtain ⟨tapped, dataTap, dataFact, filtersTap, filtersFact, padded, made, current, dataAt,
      filtersAt, only, known, same, described⟩ := padAhead_eq_ok run
  have last :
      (padAheadNodes node kind resolved.window dataFact.elementType padded made tapped.length
      dataTap filtersTap)[4]? = some { Node.fresh (tapped.length + 4) node.name
        (.conv kind resolved.window.unpadded) [⟨tapped.length + 3, 0⟩, ⟨filtersTap, 0⟩] made with
          provenance := node.provenance } := rfl
  obtain ⟨pads, convolves⟩ := padAhead_infers dataAt filtersAt described
  have valueless := value?_of_outputFact convolves (by simp [Op.type]) rfl
  have facts := facts_eq_of_sameType wf there (by simp [op, Op.type]) (by rw [op]; rfl) known same
    valueless
  have signed : g.Signed node ⟨node.name, .conv kind w, [dataFact, filtersFact], made⟩ :=
    ⟨rfl, op, by
      rw [inputs]
      exact .cons (described.known (List.mem_of_getElem? dataAt))
        (.cons (described.known (List.mem_of_getElem? filtersAt)) .nil), facts⟩
  cases signed.operands_eq there operands
  have needs : node.needs = [data, filters] := by
    rw [Node.needs, op, inputs]
    rfl
  refine ⟨_, _, signed, .forward resolves padsKnown uneven pads convolves, ?_⟩
  rw [← placed_padAhead described inputs dataAt filtersAt]
  refine described.rewritten wf there last rfl rfl facts.symm rfl ?_ ?_ apply
  · intro o fact mem
    rw [needs]
    exact List.mem_reverse.1 (only (List.mem_map_of_mem mem))
  · rw [needs]
    intro o mem
    rcases List.mem_cons.1 mem with rfl | mem
    · exact .through last List.mem_cons_self (.tap (k := 3) rfl List.mem_cons_self dataAt)
    · cases List.mem_singleton.1 mem
      exact .tap last (List.mem_cons_of_mem _ List.mem_cons_self) filtersAt

/-! ## Cutting back -/

/-- A patch that cuts the output of a convolution without pads back is a rewriting step. -/
theorem cutBack_rewrites (wf : g.WellFormed) (there : g.nodes[node.id]? = some node)
    (computed : node.op.type ≠ .const) (inner : node.op.isSource = false)
    (described : (d.cutBack node plan k cropped).Describes g p) (here : k < d.nodes.length)
    (cuts : Cuts g node plan inflated wanted cropped)
    (tapped : ∀ o ∈ d.tapped.map Prod.fst, o ∈ node.needs)
    (reads : ∀ o ∈ node.needs, ∃ n t fact, d.nodes[k]? = some n ∧ ⟨t, 0⟩ ∈ n.inputs ∧
      d.tapped[t]? = some (o, fact))
    (apply : p.apply g = .ok touched g') :
    node.facts = [cropped] ∧
      g.Rewritten node ((d.cutBack node plan k cropped).placed g.size)
        (d.nodes.length + 3) g' := by
  have last : (d.cutBack node plan k cropped).nodes[d.nodes.length + 3]? = _ :=
    cutBack_getElem?_last here
  obtain ⟨_, _, -, inferred, single⟩ := described.infers (List.mem_of_getElem? last)
  cases (List.cons.inj single).1
  have valueless := value?_of_outputFact inferred (by simp [Node.fresh, Op.type]) rfl
  obtain ⟨current, known, same⟩ := cuts.replaces
  have facts := facts_eq_of_sameType wf there computed inner known same valueless
  have unpadded : (d.cutBack node plan k cropped).nodes[k]? = some
      { d.nodes[k] with provenance := d.nodes[k].provenance.merge node.provenance } :=
    cutBack_getElem? (List.getElem?_eq_getElem here)
  have covers : ∀ o ∈ node.needs,
      (d.cutBack node plan k cropped).Reaches (d.nodes.length + 3) o := by
    intro o need
    obtain ⟨n, t, fact, at_k, read, tap⟩ := reads o need
    cases (List.getElem?_eq_getElem here).symm.trans at_k
    exact .through last List.mem_cons_self (.tap unpadded read tap)
  exact ⟨facts, described.rewritten wf there last rfl rfl facts.symm rfl
    (fun mem => tapped _ (List.mem_map_of_mem mem)) covers apply⟩

/-- The inputs of a transposed convolution are data, filters and possibly an output shape. -/
theorem length_of_outputFact_deconv {fact : Fact} {facts : List Fact}
    (inferred : (Op.deconv kind w takesOutputShape).outputFact facts = .ok fact) :
    facts.length = 2 + takesOutputShape.toNat := by
  simp only [Op.outputFact, Conv.resolveDeconv, Conv.deconvInputs, Conv.transposedInputs,
    Checked.exceptMap_eq_ok, Checked.bind_eq_ok, Checked.require_eq_ok] at inferred
  obtain ⟨_, ⟨_, ⟨_, transposed, roles⟩, -⟩, -⟩ := inferred
  have addend : kind.traits.takesAddend = false := by cases kind <;> simp_all [ConvKind.traits]
  rw [addend] at roles
  cases takesOutputShape <;> rcases facts with _ | ⟨_, _ | ⟨_, _ | ⟨_, _ | _⟩⟩⟩ <;>
    simp at roles ⊢

theorem needs_deconv {data filters : Outlet} (wf : g.WellFormed)
    (there : g.nodes[node.id]? = some node) (op : node.op = .deconv kind w takesOutputShape)
    (dataInput : node.inputs[0]? = some data) (filtersInput : node.inputs[1]? = some filters) :
    node.needs = [data, filters] := by
  obtain ⟨facts, _, known, inferred, -⟩ := wf.infers there
  rw [op] at inferred
  have length := known.length_eq.trans (length_of_outputFact_deconv inferred)
  rw [Node.needs, op]
  generalize node.inputs = inputs at *
  cases takesOutputShape <;> rcases inputs with _ | ⟨_, _ | ⟨_, _ | ⟨_, _ | _⟩⟩⟩ <;>
    simp_all [Op.takesOutputShape]

/-- What can be cut arrives at the fact of the node. -/
theorem Cuts.slices (cuts : Cuts g node plan inflated wanted cropped)
    (facts : node.facts = [cropped]) :
    Slices plan inflated cropped := by
  have produced := cuts.produced
  rw [facts] at produced
  obtain rfl : cropped = wanted := Option.some.inj produced
  exact ⟨cuts.differs, cuts.sliced⟩

/-- The patch for a transposed convolution is a rewriting step, which puts the parts of its
signature in its place. -/
theorem deconv_rewrites (wf : g.WellFormed) (there : g.nodes[node.id]? = some node)
    (op : node.op = .deconv kind w takesOutputShape)
    (run : deconv kind w takesOutputShape g node log = .ok (some patch) log')
    (apply : patch.apply g = .ok touched g') :
    ∃ σ parts, g.Signed node σ ∧ Replaces σ node.provenance parts ∧
      g.Rewritten node (Part.nodes g.size node.inputs parts) (parts.length - 1) g' := by
  obtain ⟨facts, r, requested, plan, _, known, resolves, query, planned, run⟩ :=
    deconv_eq_some run
  obtain ⟨data, filters, tapped, dataTap, dataFact, filtersTap, filtersFact, inflated, wanted,
      cropped, dataInput, filtersInput, dataAt, filtersAt, only, convolves, cuts, described⟩ :=
    cropDeconv_eq_ok run
  have here :
      1 < (unpaddedDeconv node kind plan inflated tapped.length dataTap filtersTap).length := by
    simp [unpaddedDeconv]
  have needs := needs_deconv wf there op dataInput filtersInput
  have needed : ∀ o ∈ tapped.map Prod.fst, o ∈ node.needs := by
    intro o mem
    rw [needs]
    exact List.mem_reverse.1 (only mem)
  have reads : ∀ o ∈ node.needs, ∃ n t fact,
      (unpaddedDeconv node kind plan inflated tapped.length dataTap filtersTap)[1]? = some n ∧
      ⟨t, 0⟩ ∈ n.inputs ∧ tapped[t]? = some (o, fact) := by
    rw [needs]
    intro o mem
    rcases List.mem_cons.1 mem with rfl | mem
    · exact ⟨_, dataTap, _, rfl, by simp [Node.fresh], dataAt⟩
    · cases List.mem_singleton.1 mem
      exact ⟨_, filtersTap, _, rfl, by simp [Node.fresh], filtersAt⟩
  obtain ⟨facts, rewritten⟩ := cutBack_rewrites wf there (by simp [op, Op.type]) (by rw [op]; rfl)
    described here cuts needed reads apply
  rw [placed_cropDeconv described dataInput filtersInput dataAt filtersAt] at rewritten
  obtain ⟨σ, signed, inferred⟩ := wf.signed there
  have dataKnown : g.fact? data = some dataFact := described.known (List.mem_of_getElem? dataAt)
  have filtersKnown : g.fact? filters = some filtersFact :=
    described.known (List.mem_of_getElem? filtersAt)
  obtain ⟨rest, operands⟩ := signed.operands_cons dataInput filtersInput dataKnown filtersKnown
  cases signed.operands_eq there known
  have signed' : g.Signed node ⟨node.name, .deconv kind w takesOutputShape,
      dataFact :: filtersFact :: rest, cropped⟩ := ⟨rfl, op, operands ▸ signed.operands, facts⟩
  obtain rfl := signed.unique signed'
  simp only [Op.outputFact, Checked.exceptMap_eq_ok] at inferred
  obtain ⟨r', resolves', fact⟩ := inferred
  cases resolves.symm.trans resolves'
  have plans :=
    plan_eq (by rw [facts, fact]) (Conv.resolvesTransposed_of_deconv resolves query) planned
  rw [fact] at plans
  exact ⟨_, _, signed, .deconv resolves plans convolves (cuts.slices facts), rewritten⟩

/-! ## Convolutions with an addend -/

/-- The inputs of a transposed convolution with an addend are data, filters, possibly an output
shape, and the addend. -/
theorem length_of_outputFact_fused {built fact : Fact} {facts : List Fact}
    (inferred : (Op.fusedDeconv w takesOutputShape built).outputFact facts = .ok fact) :
    facts.length = 3 + takesOutputShape.toNat := by
  obtain ⟨resolved, resolves, -⟩ := fusedFact_eq_ok inferred
  simp only [Conv.resolveFused, Conv.fusedInputs, Conv.transposedInputs, ConvKind.traits,
    Checked.bind_eq_ok] at resolves
  obtain ⟨_, roles, -⟩ := resolves
  cases takesOutputShape <;> rcases facts with _ | ⟨_, _ | ⟨_, _ | ⟨_, _ | ⟨_, _ | _⟩⟩⟩⟩ <;>
    simp at roles ⊢

theorem needs_fused {built : Fact} {data filters addend : Outlet} (wf : g.WellFormed)
    (there : g.nodes[node.id]? = some node) (op : node.op = .fusedDeconv w takesOutputShape built)
    (dataInput : node.inputs[0]? = some data) (filtersInput : node.inputs[1]? = some filters)
    (addendInput : node.inputs[2 + takesOutputShape.toNat]? = some addend) :
    node.needs = [data, filters, addend] := by
  obtain ⟨facts, _, known, inferred, -⟩ := wf.infers there
  rw [op] at inferred
  have length := known.length_eq.trans (length_of_outputFact_fused inferred)
  rw [Node.needs, op]
  generalize node.inputs = inputs at *
  cases takesOutputShape <;> rcases inputs with _ | ⟨_, _ | ⟨_, _ | ⟨_, _ | ⟨_, _ | _⟩⟩⟩⟩ <;>
    simp_all [Op.takesOutputShape]

/-- The patch for a transposed convolution with an addend is a rewriting step, which puts the
parts of its signature in its place. -/
theorem fused_rewrites {built : Fact} (wf : g.WellFormed) (there : g.nodes[node.id]? = some node)
    (op : node.op = .fusedDeconv w takesOutputShape built)
    (run : fused w takesOutputShape g node log = .ok (some patch) log')
    (apply : patch.apply g = .ok touched g') :
    ∃ σ parts, g.Signed node σ ∧ Replaces σ node.provenance parts ∧
      g.Rewritten node (Part.nodes g.size node.inputs parts) (parts.length - 1) g' := by
  obtain ⟨_, r, requested, plan, label, known, resolves, query, planned, run⟩ := fused_eq_some run
  obtain ⟨data, filters, addend, tapped, dataTap, dataFact, filtersTap, filtersFact, addendTap,
    addendFact, inflated, wanted, cropped, dataInput, filtersInput, addendInput, dataAt,
    filtersAt, addendAt, only, convolves, cuts, described⟩ := cropFused_eq_ok run
  set d : Draft :=
    ⟨[label], tapped, unpaddedFused node takesOutputShape plan addendFact.withoutValue
    inflated tapped.length dataTap filtersTap addendTap, []⟩ with d_eq
  have here : takesOutputShape.toNat < d.nodes.length := by
    cases takesOutputShape <;> simp [d_eq, unpaddedFused]
  have needs := needs_fused wf there op dataInput filtersInput addendInput
  have needed : ∀ o ∈ tapped.map Prod.fst, o ∈ node.needs := by
    intro o mem
    rw [needs]
    exact List.mem_reverse.1 (only mem)
  obtain ⟨half, halfAt, readsData, readsFilters, readsAddend⟩ : ∃ n : Node,
      d.nodes[takesOutputShape.toNat]? = some n ∧ ⟨dataTap, 0⟩ ∈ n.inputs ∧
      ⟨filtersTap, 0⟩ ∈ n.inputs ∧ ⟨addendTap, 0⟩ ∈ n.inputs := by
    cases takesOutputShape <;>
      exact ⟨_, rfl, by simp [Node.fresh], by simp [Node.fresh], by simp [Node.fresh]⟩
  have reads : ∀ o ∈ node.needs, ∃ n t fact, d.nodes[takesOutputShape.toNat]? = some n ∧
      ⟨t, 0⟩ ∈ n.inputs ∧ d.tapped[t]? = some (o, fact) := by
    rw [needs]
    intro o mem
    simp only [List.mem_cons, List.not_mem_nil, or_false] at mem
    rcases mem with rfl | rfl | rfl
    · exact ⟨half, dataTap, _, halfAt, readsData, dataAt⟩
    · exact ⟨half, filtersTap, _, halfAt, readsFilters, filtersAt⟩
    · exact ⟨half, addendTap, _, halfAt, readsAddend, addendAt⟩
  obtain ⟨facts, rewritten⟩ := cutBack_rewrites wf there (by simp [op, Op.type]) (by rw [op]; rfl)
    described here cuts needed reads apply
  obtain ⟨σ, signed, inferred⟩ := wf.signed there
  -- the signature and the parts
  have dataKnown : g.fact? data = some dataFact := described.known (List.mem_of_getElem? dataAt)
  have filtersKnown : g.fact? filters = some filtersFact :=
    described.known (List.mem_of_getElem? filtersAt)
  have addendKnown : g.fact? addend = some addendFact :=
    described.known (List.mem_of_getElem? addendAt)
  obtain ⟨rest, operands⟩ := signed.operands_cons dataInput filtersInput dataKnown filtersKnown
  have adds : rest[takesOutputShape.toNat]? = some addendFact := by
    have operand := signed.operand addendInput addendKnown
    rw [operands, Nat.add_comm] at operand
    exact operand
  cases signed.operands_eq there known
  have signed' : g.Signed node ⟨node.name, .fusedDeconv w takesOutputShape built,
      dataFact :: filtersFact :: rest, cropped⟩ := ⟨rfl, op, operands ▸ signed.operands, facts⟩
  obtain rfl := signed.unique signed'
  obtain ⟨r', resolves', fact⟩ := fusedFact_eq_ok inferred
  cases resolves.symm.trans resolves'
  have plans :=
    plan_eq (by rw [facts, fact]) (Conv.resolvesTransposed_of_fused resolves query) planned
  rw [fact] at plans
  have count : d.nodes.length + 3 = (fusedParts node.name node.provenance takesOutputShape plan
      addendFact.withoutValue inflated cropped).length - 1 := by
    cases takesOutputShape <;> rfl
  rw [placed_cropFused described dataInput filtersInput addendInput dataAt filtersAt addendAt,
    count] at rewritten
  exact ⟨_, _, signed, .fusedDeconv resolves adds plans convolves (cuts.slices facts), rewritten⟩

/-! ## What comes in -/

/-- The windows of the parts are settled. -/
theorem Replaces.settled {σ : Signature} {notes : Provenance} {parts : List Part}
    (replaces : Replaces σ notes parts) : ∀ part ∈ parts, part.op.Settled := by
  cases replaces with
  | forward =>
    simp [forwardParts, Part.const, Op.Settled, Window.settled_unpadded]
  | deconv =>
    simp [deconvParts, cutParts, Part.const, Op.Settled, Window.settled_unpadded]
  | @fusedDeconv _ _ _ takesOutputShape =>
    cases takesOutputShape <;>
      simp [fusedParts, cutParts, Part.const, Op.Settled, Window.settled_unpadded]

/-- Of the nodes outside they read what the node reads. -/
theorem Replaces.within {σ : Signature} {notes : Provenance} {parts : List Part}
    (replaces : Replaces σ notes parts) :
    ∀ part ∈ parts, ∀ port ∈ part.ports, port.Within σ.operands.length := by
  cases replaces with
  | forward => simp [forwardParts, Part.const, Port.Within]
  | deconv => simp [deconvParts, cutParts, Part.const, Port.Within]
  | @fusedDeconv _ _ _ takesOutputShape _ _ _ _ _ _ rest _ _ _ addend =>
    have more : takesOutputShape.toNat < rest.length := (List.getElem?_eq_some_iff.1 addend).1
    cases takesOutputShape <;> simp [fusedParts, cutParts, Part.const, Port.Within]
      at more ⊢ <;> omega

end Unpad

end EvenPad
