import EvenPad.Proofs.Conv.Query
import EvenPad.Proofs.Unpad.Match

/-!
When the rules have a patch. A rule builds one if each of its parts infers a fact. Main
statements: the rules have a patch for a node if there are parts for its signature
(`forward_of_replaces`, `deconv_of_replaces`, `fused_of_replaces`), and decline if its pads are
unknown or even or no plan cuts its output back (`forward_declines`, `deconv_declines`,
`fused_declines`).
-/

namespace EvenPad

namespace Unpad

variable {g : Graph} {node : Node} {kind : ConvKind} {w resolved : Window}
  {takesOutputShape : Bool} {plan : Plan} {p p' patch : Patch} {d : Draft} {log log' : Log}
  {k : Nat} {label : String} {data filters : Outlet} {dataFact filtersFact current : Fact}

/-! ## Building the patches -/

/-- The patch for a forward convolution can be built if its parts infer their facts. -/
theorem padAhead_ok (label : String) {padded made : Fact}
    (dataKnown : g.fact? data = some dataFact) (filtersKnown : g.fact? filters = some filtersFact)
    (pads : Op.pad.outputFact [dataFact, .constant (.vector (Window.fullPads resolved.padsBegin)),
      .constant (.vector (Window.fullPads resolved.padsEnd)),
      .constant (.zeroScalar dataFact.elementType)] = .ok padded)
    (convolves : (Op.conv kind resolved.unpadded).outputFact [padded, filtersFact] = .ok made)
    (known : g.fact? ⟨node.id, 0⟩ = some current) (same : current.sameType made = true) :
    ∃ p, padAhead g node kind resolved data filters (.labelled label) = .ok ⟨⟩ p := by
  simp only [padAhead, Edit.bind_eq_ok, Edit.lift_eq_ok, Patch.onGraph, Edit.onPart_eq_ok,
    Graph.outletFact_eq_ok]
  -- the taps
  have described : Draft.Describes ⟨[label], [], [], []⟩ g (.labelled label) :=
    Draft.describes_labelled
  obtain ⟨_, dataTap, p₁, tapData, dataAt, -, described⟩ := described.tap_ok rfl dataKnown
  obtain ⟨tapped, filtersTap, p₂, tapFilters, filtersAt, stays, described⟩ :=
    described.tap_ok rfl filtersKnown
  have dataAt := stays dataAt
  -- the constants
  obtain ⟨g₃, addBegins, described⟩ := described.addConst_ok (node.name ++ ".pads_begin")
    (.vector (Window.fullPads resolved.padsBegin))
  obtain ⟨g₄, addEnds, described⟩ := described.addConst_ok (node.name ++ ".pads_end")
    (.vector (Window.fullPads resolved.padsEnd))
  obtain ⟨g₅, addValue, described⟩ := described.addConst_ok (node.name ++ ".pad_value")
    (.zeroScalar dataFact.elementType)
  -- the padded data and its convolution
  obtain ⟨g₆, wirePad, described⟩ := described.wiring_ok (node.name ++ ".pad") .pad rfl
    (.cons (described.fact?_tap dataAt) (.cons (described.fact?_wire (k := 0) rfl rfl) (.cons
      (described.fact?_wire (k := 1) rfl rfl)
        (.cons (described.fact?_wire (k := 2) rfl rfl) .nil))))
    pads
  obtain ⟨g₇, wireConv, described⟩ := described.wiring_ok node.name
    (.conv kind resolved.unpadded) rfl
    (.cons (described.fact?_wire (k := 3) rfl rfl) (.cons (described.fact?_tap filtersAt) .nil))
    convolves
  have produced : _ = some made := described.fact?_wire (k := 4) rfl rfl
  obtain ⟨p₈, copied, facts, described⟩ := described.copyProvenance_ok 4 node (by simp)
  rw [← facts] at produced
  obtain ⟨p₉, shunted⟩ := Patch.shunt_ok known produced same
  exact ⟨p₉, _, _, tapData, _, _, tapFilters, dataFact, _, ⟨dataKnown, rfl⟩, _, _,
    ⟨_, ⟨_, _, addBegins, _, _, addEnds, _, _, addValue, wirePad⟩, rfl⟩, _, _, ⟨_, wireConv, rfl⟩,
    ⟨⟩, _, copied, shunted⟩

theorem Fact.sameType_refl {fact : Fact} : fact.sameType fact = true := by
  simp [Fact.sameType]

/-- What a convolution without pads has computed can be cut back if the slice arrives at the fact
of the node. -/
theorem cutBack_ok {fact inflated : Fact} {n : Node} (described : d.Describes g p)
    (unpadded : d.nodes[k]? = some n) (unpaddedFacts : n.facts = [inflated])
    (slices : Slices plan inflated fact) (facts : node.facts = [fact])
    (known : g.fact? ⟨node.id, 0⟩ = some fact) :
    ∃ p', cutBack g node plan (d.wire k) p = .ok ⟨⟩ p' := by
  simp only [cutBack, Edit.get_bind_apply, Edit.bind_eq_ok, Edit.lift_eq_ok, Patch.onGraph,
    Edit.onPart_eq_ok, Checked.ofPresent_eq_ok, Checked.require_eq_ok, Graph.outletFact_eq_ok]
  obtain ⟨output, there⟩ : ∃ output, node.outputs[0]? = some output := by
    cases outputs : node.outputs with
    | nil => simp [Node.facts, outputs] at facts
    | cons output _ => exact ⟨output, rfl⟩
  obtain rfl := fact_of_facts facts there
  have unpaddedKnown := described.fact?_wire unpadded unpaddedFacts
  obtain ⟨g₁, addBegins, described⟩ := described.addConst_ok (node.name ++ ".slice_begin")
    (.vector plan.sliceBegins)
  obtain ⟨g₂, addEnds, described⟩ := described.addConst_ok (node.name ++ ".slice_end")
    (.vector plan.sliceEnds)
  obtain ⟨g₃, addStrides, described⟩ := described.addConst_ok (node.name ++ ".slice_strides")
    (.vector (List.replicate (plan.inflated.length + 2) 1))
  -- what the slice reads
  have unpaddedFact := described.fact?_wire (Draft.push_getElem?_of_some
    (Draft.push_getElem?_of_some (Draft.push_getElem?_of_some unpadded))) unpaddedFacts
  have beginsFact := described.fact?_wire (Draft.push_getElem?_of_some
    (Draft.push_getElem?_of_some Draft.push_getElem?_last)) rfl
  have endsFact := described.fact?_wire (Draft.push_getElem?_of_some Draft.push_getElem?_last) rfl
  have stridesFact := described.fact?_wire Draft.push_getElem?_last rfl
  obtain ⟨g₄, wireSlice, described⟩ := described.wiring_ok node.name
    (.stridedSlice wholeAxes wholeAxes) rfl
    (.cons unpaddedFact (.cons beginsFact (.cons endsFact (.cons stridesFact .nil))))
      slices.sliced
  have croppedFact := described.fact?_wire Draft.push_getElem?_last rfl
  have here : k < d.nodes.length := (List.getElem?_eq_some_iff.1 unpadded).1
  obtain ⟨p₅, copied, facts₅, described⟩ := described.copyProvenance_ok k node (by simp; omega)
  obtain ⟨p₆, copied', facts₆, described⟩ := described.copyProvenance_ok (d.nodes.length + 3) node
    (by simp [Draft.note])
  simp only [Draft.length_push, Draft.wire_push]
    at addBegins addEnds addStrides wireSlice croppedFact
  have cropped := croppedFact
  rw [← facts₅, ← facts₆] at cropped
  obtain ⟨p₇, shunted⟩ := Patch.shunt_ok known cropped Fact.sameType_refl
  exact ⟨p₇, output, _, ⟨there, rfl⟩, inflated, _, ⟨unpaddedKnown, rfl⟩, ⟨⟩, _,
    ⟨by simp [slices.differs], rfl⟩, _, _, ⟨_, ⟨_, _, addBegins, _, _, addEnds, _, _, addStrides,
      wireSlice⟩, rfl⟩, _, _, ⟨croppedFact, rfl⟩, ⟨⟩, _, ⟨Fact.sameType_refl, rfl⟩, ⟨⟩, _, copied,
    ⟨⟩, _, copied', shunted⟩

/-- The patch for a transposed convolution can be built if its parts infer their facts. -/
theorem cropDeconv_ok (label : String) {fact inflated : Fact}
    (dataInput : node.inputs[0]? = some data) (filtersInput : node.inputs[1]? = some filters)
    (dataKnown : g.fact? data = some dataFact) (filtersKnown : g.fact? filters = some filtersFact)
    (convolves : (Op.deconv kind plan.window.unpadded true).outputFact
      [dataFact, filtersFact, .constant plan.outputShape] = .ok inflated)
    (slices : Slices plan inflated fact) (facts : node.facts = [fact])
    (known : g.fact? ⟨node.id, 0⟩ = some fact) :
    ∃ p, cropDeconv g node kind plan (.labelled label) = .ok ⟨⟩ p := by
  simp only [cropDeconv, Edit.bind_eq_ok, Edit.lift_eq_ok, Patch.onGraph, Edit.onPart_eq_ok,
    inputOf_eq_ok]
  have described : Draft.Describes ⟨[label], [], [], []⟩ g (.labelled label) :=
    Draft.describes_labelled
  obtain ⟨_, dataTap, p₁, tapData, dataAt, -, described⟩ := described.tap_ok rfl dataKnown
  obtain ⟨tapped, filtersTap, p₂, tapFilters, filtersAt, stays, described⟩ :=
    described.tap_ok rfl filtersKnown
  have dataAt := stays dataAt
  obtain ⟨g₃, addShape, described⟩ := described.addConst_ok
    (node.name ++ ".unpadded.output_shape") plan.outputShape
  obtain ⟨g₄, wireDeconv, described⟩ := described.wiring_ok (node.name ++ ".unpadded")
    (.deconv kind plan.window.unpadded true) rfl
    (.cons (described.fact?_tap dataAt) (.cons (described.fact?_tap filtersAt) (.cons
      (described.fact?_wire (k := 0) rfl rfl) .nil))) convolves
  obtain ⟨p₅, cut⟩ := cutBack_ok (k := 1) described rfl rfl slices facts known
  exact ⟨p₅, data, _, ⟨dataInput, rfl⟩, _, _, tapData, filters, _, ⟨filtersInput, rfl⟩, _, _,
    tapFilters, _, _, ⟨_, ⟨_, _, addShape, wireDeconv⟩, rfl⟩, cut⟩

/-- The convolution without pads can be wired if it infers its fact. -/
theorem wireUnpaddedFused_ok (node : Node) {tapped : List (Outlet × Fact)} {addend : Outlet}
    {dataTap filtersTap addendTap : Nat} {addendFact inflated : Fact}
    (described : Draft.Describes ⟨[label], tapped, [], []⟩ g p)
    (dataAt : tapped[dataTap]? = some (data, dataFact))
    (filtersAt : tapped[filtersTap]? = some (filters, filtersFact))
    (addendAt : tapped[addendTap]? = some (addend, addendFact))
    (convolves : (Op.fusedDeconv plan.window.unpadded takesOutputShape
      addendFact.withoutValue).outputFact (fusedFacts takesOutputShape dataFact filtersFact
        (.constant plan.outputShape) addendFact) = .ok inflated) :
    ∃ x g', (do
      let shape ←
        if takesOutputShape then
          some <$> Graph.addConst (node.name ++ ".unpadded.output_shape") plan.outputShape
        else pure none
      Graph.wireFused (node.name ++ ".unpadded") ⟨dataTap, 0⟩ ⟨filtersTap, 0⟩ shape ⟨addendTap, 0⟩
        plan.window.unpadded) p.graph = .ok x g' := by
  cases takesOutputShape with
  | false =>
    simp only [Bool.false_eq_true, if_false, Edit.bind_eq_ok, Edit.pure_eq_ok]
    obtain ⟨x, g', wired⟩ := @Graph.wireFused_ok _ _ _ (node.name ++ ".unpadded") ⟨dataTap, 0⟩
      ⟨filtersTap, 0⟩ _ none plan.window.unpadded _ (described.fact?_tap addendAt)
      (.cons (described.fact?_tap dataAt) (.cons (described.fact?_tap filtersAt) (.cons
        (described.fact?_tap addendAt) .nil))) convolves
    exact ⟨x, g', none, _, ⟨rfl, rfl⟩, wired⟩
  | true =>
    simp only [if_true, Edit.bind_eq_ok, Edit.map_eq_ok]
    obtain ⟨g₁, addShape, described⟩ := described.addConst_ok
      (node.name ++ ".unpadded.output_shape") plan.outputShape
    obtain ⟨x, g', wired⟩ := @Graph.wireFused_ok _ _ _ (node.name ++ ".unpadded") ⟨dataTap, 0⟩
      ⟨filtersTap, 0⟩ _ (some (Draft.wire ⟨[label], tapped, [], []⟩ 0)) plan.window.unpadded _
      (described.fact?_tap addendAt)
      (.cons (described.fact?_tap dataAt) (.cons (described.fact?_tap filtersAt) (.cons
        (described.fact?_wire (k := 0) rfl rfl)
          (.cons (described.fact?_tap addendAt) .nil)))) convolves
    exact ⟨x, g', _, _, ⟨_, addShape, rfl⟩, wired⟩

/-- The patch for a transposed convolution with an addend can be built if its parts infer their
facts. -/
theorem cropFused_ok (label : String) {addend : Outlet} {fact inflated addendFact : Fact}
    (dataInput : node.inputs[0]? = some data) (filtersInput : node.inputs[1]? = some filters)
    (addendInput : node.inputs[2 + takesOutputShape.toNat]? = some addend)
    (dataKnown : g.fact? data = some dataFact) (filtersKnown : g.fact? filters = some filtersFact)
    (addendKnown : g.fact? addend = some addendFact)
    (convolves : (Op.fusedDeconv plan.window.unpadded takesOutputShape
      addendFact.withoutValue).outputFact (fusedFacts takesOutputShape dataFact filtersFact
        (.constant plan.outputShape) addendFact) = .ok inflated)
    (slices : Slices plan inflated fact) (facts : node.facts = [fact])
    (known : g.fact? ⟨node.id, 0⟩ = some fact) :
    ∃ p, cropFused g node takesOutputShape plan (.labelled label) = .ok ⟨⟩ p := by
  simp only [cropFused, Edit.bind_eq_ok, Edit.lift_eq_ok, Patch.onGraph, Edit.onPart_eq_ok,
    inputOf_eq_ok]
  have described : Draft.Describes ⟨[label], [], [], []⟩ g (.labelled label) :=
    Draft.describes_labelled
  obtain ⟨_, dataTap, p₁, tapData, dataAt, -, described⟩ := described.tap_ok rfl dataKnown
  obtain ⟨_, filtersTap, p₂, tapFilters, filtersAt, stays, described⟩ :=
    described.tap_ok rfl filtersKnown
  obtain ⟨tapped, addendTap, p₃, tapAddend, addendAt, stays', described⟩ :=
    described.tap_ok rfl addendKnown
  have dataAt := stays' (stays dataAt)
  have filtersAt := stays' filtersAt
  obtain ⟨_, g₄, made⟩ := wireUnpaddedFused_ok node described dataAt filtersAt addendAt
    convolves
  obtain ⟨inflated', d, n, rfl, inferred, here, unpaddedFacts, rfl, described⟩ :=
    wireUnpaddedFused_eq_ok described dataAt filtersAt addendAt made
  cases convolves.symm.trans inferred
  obtain ⟨p₅, cut⟩ := cutBack_ok described here unpaddedFacts slices facts known
  exact ⟨p₅, data, _, ⟨dataInput, rfl⟩, _, _, tapData, filters, _, ⟨filtersInput, rfl⟩, _, _,
    tapFilters, addend, _, ⟨addendInput, rfl⟩, _, _, tapAddend, _, _, ⟨g₄, made, rfl⟩, cut⟩

/-! ## The outcomes of the rules -/

section Outcomes

variable {σ : Signature} {notes : Provenance} {parts : List Part} {r : Resolution} {built : Fact}
  (there : g.nodes[node.id]? = some node) (signed : g.Signed node σ)
include there signed

theorem known_of_signed : g.fact? ⟨node.id, 0⟩ = some σ.fact :=
  Graph.fact?_eq_some.2 ⟨node, there, by rw [signed.facts]; rfl⟩

/-- The rule for forward convolutions has a patch if there are parts for the signature. -/
theorem forward_of_replaces (log : Log) (op : σ.op = .conv kind w)
    (replaces : Replaces σ notes parts) :
    ∃ patch, forward kind w g node log = .ok (some patch) log := by
  have operands := (Graph.inputFacts_eq_ok there).2 signed.operands
  have known := known_of_signed there signed
  cases replaces with
  | @forward _ _ _ _ dataFact filtersFact fact padded r resolves padsKnown
    uneven pads convolves =>
    cases op
    have read := signed.operands
    obtain ⟨data, filters, inputs⟩ : ∃ data filters, node.inputs = [data, filters] := by
      have length : node.inputs.length = 2 := read.length_eq
      exact List.length_eq_two.1 length
    rw [inputs] at read
    obtain ⟨dataKnown, read⟩ := List.forall₂_cons.1 read
    obtain ⟨filtersKnown, -⟩ := List.forall₂_cons.1 read
    have lengths : r.window.padsBegin.length = r.window.padsEnd.length := by
      obtain ⟨_, _, _, _, _, _, _, -, -, -, -, checked, -⟩ :=
        Conv.resolveForward_eq_ok resolves padsKnown uneven
      have ofRank := (Window.checkRank_eq_ok_iff.1 checked).1
      exact ofRank.padsBegin.trans ofRank.padsEnd.symm
    obtain ⟨patch, built⟩ := padAhead_ok
      ("Moving asymmetric padding of " ++ node.text ++ " to a Pad") dataKnown filtersKnown
      pads convolves known Fact.sameType_refl
    refine ⟨patch, ?_⟩
    simp only [forward, inputs, Edit.lift_eq_ok, Edit.bind_eq_ok]
    refine ⟨_, log, ⟨operands, rfl⟩, r, log, ⟨resolves, rfl⟩, ?_⟩
    simp only [padsKnown, uneven, Bool.not_true, Bool.false_eq_true, if_false, Edit.lift_eq_ok,
      Edit.bind_eq_ok, Checked.require_eq_ok, decide_eq_true_eq]
    exact ⟨⟨⟩, log, ⟨lengths, rfl⟩, ⟨⟨⟩, patch⟩, log, ⟨Edit.runFrom_eq_ok.2 built, rfl⟩, rfl⟩
  | deconv => simp at op
  | fusedDeconv => simp at op

/-- It declines if the pads are unknown or even. -/
theorem forward_declines (log : Log) (resolves : Conv.resolveForward kind w σ.operands = .ok r)
    (other : ¬ (r.padsKnown = true ∧ r.window.isAsymmetric = true)) :
    ∃ log', forward kind w g node log = .ok none log' := by
  have operands := (Graph.inputFacts_eq_ok there).2 signed.operands
  rcases inputs : node.inputs with _ | ⟨data, _ | ⟨filters, _ | _⟩⟩
  case cons.cons.nil =>
    simp only [forward, inputs, Edit.lift_eq_ok, Edit.bind_eq_ok]
    cases padsKnown : r.padsKnown with
    | false =>
      refine ⟨.padsUnknown node :: log, _, log, ⟨operands, rfl⟩, r, log, ⟨resolves, rfl⟩, ?_⟩
      simp only [padsKnown]
      rfl
    | true =>
      have even : r.window.isAsymmetric = false := by simpa [padsKnown] using other
      refine ⟨log, _, log, ⟨operands, rfl⟩, r, log, ⟨resolves, rfl⟩, ?_⟩
      simp only [padsKnown, even]
      rfl
  all_goals exact ⟨log, by simp only [forward, inputs]; rfl⟩

/-- The rule for transposed convolutions has a patch if there are parts for the signature. -/
theorem deconv_of_replaces (log : Log) (inferred : σ.op.outputFact σ.operands = .ok σ.fact)
    (op : σ.op = .deconv kind w takesOutputShape) (replaces : Replaces σ notes parts) :
    ∃ patch, deconv kind w takesOutputShape g node log = .ok (some patch) log := by
  have operands := (Graph.inputFacts_eq_ok there).2 signed.operands
  have known := known_of_signed there signed
  cases replaces with
  | @deconv _ _ _ _ _ dataFact filtersFact fact inflated rest r plan resolves
    plans convolves slices =>
    cases op
    have fact_eq : fact = r.fact := Op.Resolves.outputFact (.deconv resolves) inferred
    obtain ⟨requested, query, -⟩ := Conv.deconvQuery_agrees resolves
    have planned := plan_of_plans log (by rw [signed.facts, fact_eq])
      (Conv.resolvesTransposed_of_deconv resolves query) (fact_eq ▸ plans)
    obtain ⟨data, _, dataKnown, read, inputs⟩ := List.forall₂_cons_right_iff.1 signed.operands
    obtain ⟨filters, _, filtersKnown, -, rfl⟩ := List.forall₂_cons_right_iff.1 read
    obtain ⟨patch, built⟩ := cropDeconv_ok (cropLabel node) (by rw [inputs]; rfl)
      (by rw [inputs]; rfl) dataKnown filtersKnown convolves slices signed.facts known
    refine ⟨patch, ?_⟩
    simp only [deconv, Edit.bind_eq_ok, Edit.lift_eq_ok]
    refine ⟨_, log, ⟨operands, rfl⟩, r, log, ⟨resolves, rfl⟩, requested, log, ⟨query, rfl⟩,
      some plan, log, planned, ?_⟩
    simp only [Edit.bind_eq_ok, Edit.lift_eq_ok]
    exact ⟨⟨⟨⟩, patch⟩, log, ⟨Edit.runFrom_eq_ok.2 built, rfl⟩, rfl⟩
  | forward => simp at op
  | fusedDeconv => simp at op

/-- It declines if there is no plan. -/
theorem deconv_declines (log : Log)
    (resolves : Conv.resolveDeconv kind w takesOutputShape σ.operands = .ok r)
    (fact : σ.fact = r.fact) (other : ∀ plan, ¬ Plans r σ.fact plan) :
    ∃ log', deconv kind w takesOutputShape g node log = .ok none log' := by
  have operands := (Graph.inputFacts_eq_ok there).2 signed.operands
  obtain ⟨requested, query, -⟩ := Conv.deconvQuery_agrees resolves
  obtain ⟨log', planned⟩ := plan_declines log (by rw [signed.facts, fact])
    (Conv.resolvesTransposed_of_deconv resolves query) (fact ▸ other)
  refine ⟨log', ?_⟩
  simp only [deconv, Edit.bind_eq_ok, Edit.lift_eq_ok]
  exact ⟨_, log, ⟨operands, rfl⟩, r, log, ⟨resolves, rfl⟩, requested, log, ⟨query, rfl⟩, none,
    log', planned, rfl⟩

/-- The rule for transposed convolutions with an addend has a patch if there are parts for the
signature. -/
theorem fused_of_replaces (log : Log) (inferred : σ.op.outputFact σ.operands = .ok σ.fact)
    (op : σ.op = .fusedDeconv w takesOutputShape built) (replaces : Replaces σ notes parts) :
    ∃ patch, fused w takesOutputShape g node log = .ok (some patch) log := by
  have operands := (Graph.inputFacts_eq_ok there).2 signed.operands
  have known := known_of_signed there signed
  cases replaces with
  | @fusedDeconv _ _ _ _ _ dataFact filtersFact addendFact fact inflated rest r plan
      resolves adds plans convolves slices =>
    cases op
    have fact_eq : fact = r.fact := Op.Resolves.outputFact (.fusedDeconv resolves) inferred
    obtain ⟨requested, query, -⟩ := Conv.fusedQuery_agrees resolves
    have planned := plan_of_plans log (by rw [signed.facts, fact_eq])
      (Conv.resolvesTransposed_of_fused resolves query) (fact_eq ▸ plans)
    obtain ⟨data, _, dataKnown, read, inputs⟩ := List.forall₂_cons_right_iff.1 signed.operands
    obtain ⟨filters, others, filtersKnown, more, rfl⟩ := List.forall₂_cons_right_iff.1 read
    obtain ⟨addend, addendInput, addendKnown⟩ := forall₂_getElem? more.flip adds
    obtain ⟨patch, built⟩ :=
      cropFused_ok (cropLabel node) (by rw [inputs]; rfl) (by rw [inputs]; rfl)
        (by rw [inputs, Nat.add_comm]; exact addendInput) dataKnown filtersKnown addendKnown
        convolves slices signed.facts known
    refine ⟨patch, ?_⟩
    simp only [fused, Edit.bind_eq_ok, Edit.lift_eq_ok]
    refine ⟨_, log, ⟨operands, rfl⟩, r, log, ⟨resolves, rfl⟩, requested, log, ⟨query, rfl⟩,
      some plan, log, planned, ?_⟩
    simp only [Edit.bind_eq_ok, Edit.lift_eq_ok]
    exact ⟨⟨⟨⟩, patch⟩, log, ⟨Edit.runFrom_eq_ok.2 built, rfl⟩, rfl⟩
  | forward => simp at op
  | deconv => simp at op

/-- It declines if there is no plan. -/
theorem fused_declines (log : Log)
    (resolves : Conv.resolveFused w takesOutputShape σ.operands = .ok r) (fact : σ.fact = r.fact)
    (other : ∀ plan, ¬ Plans r σ.fact plan) :
    ∃ log', fused w takesOutputShape g node log = .ok none log' := by
  have operands := (Graph.inputFacts_eq_ok there).2 signed.operands
  obtain ⟨requested, query, -⟩ := Conv.fusedQuery_agrees resolves
  obtain ⟨log', planned⟩ := plan_declines log (by rw [signed.facts, fact])
    (Conv.resolvesTransposed_of_fused resolves query) (fact ▸ other)
  refine ⟨log', ?_⟩
  simp only [fused, Edit.bind_eq_ok, Edit.lift_eq_ok]
  exact ⟨_, log, ⟨operands, rfl⟩, r, log, ⟨resolves, rfl⟩, requested, log, ⟨query, rfl⟩, none,
    log', planned, rfl⟩

end Outcomes

end Unpad

end EvenPad
