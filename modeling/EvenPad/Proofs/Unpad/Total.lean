import EvenPad.Proofs.Unpad.Accept

/-!
Which nodes have parts. Main statements: as long as the extents are the same numbers when they are
read with a sign, a rule for transposed convolutions has a patch or declines on every node that
can be built (`transposed_total`), and the rule for forward convolutions fails exactly where
negative pads take more elements away than there are (`forward_ok_iff`).
-/

namespace EvenPad

namespace Unpad

variable {w : Window} {rank : Nat} {target : List Nat} {batch channels : Extent}
  {type : ElementType} {r : Resolution} {fact : Fact} {plan : Plan}
  {takesOutputShape : Bool} {kind : ConvKind} {data filters : Fact} {rest : List Fact}
  {name : String} {notes : Provenance}

/-! ## Slices that arrive -/

/-- Pads that are not negative cut off something from extents of which nothing is lost with a
sign. -/
theorem cuts_of_signFree (nonneg : ∀ pad ∈ w.padsBegin ++ w.padsEnd, 0 ≤ pad)
    (signFree : (Shape.ranked (batch :: channels :: target.map .fixed)).SignFree w) :
    w.Cuts target ∧ batch.SignFree 0 ∧ channels.SignFree 0 := by
  obtain ⟨lead, spatial⟩ := signFree _ rfl
  simp only [List.take_succ_cons, List.take_zero, List.forall_mem_cons] at lead
  refine ⟨?_, lead.1, lead.2.1⟩
  rintro ⟨a, n⟩ mem
  obtain ⟨i, at_i⟩ := List.mem_iff_getElem?.1 mem
  obtain ⟨axis, length⟩ := List.getElem?_zip_eq_some.1 at_i
  have pads := Window.axes_getElem?.1 axis
  have among : (a, Extent.fixed n) ∈
      w.axes.zip ((batch :: channels :: target.map .fixed).drop 2) := by
    refine List.mem_of_getElem? (List.getElem?_zip_eq_some.2 ⟨axis, ?_⟩)
    rw [List.drop_succ_cons, List.drop_succ_cons, List.drop_zero, List.getElem?_map, length,
      Option.map_some]
  obtain ⟨-, small⟩ := spatial _ among
  refine ⟨nonneg _ (List.mem_append_left _ (List.mem_of_getElem? pads.2.2.1)),
    nonneg _ (List.mem_append_right _ (List.mem_of_getElem? pads.2.2.2)), ?_⟩
  dsimp only at small ⊢
  omega

/-- Some pad adds to an extent if they are uneven. -/
theorem inflated_ne (ofRank : w.OfRank rank) (length : target.length = rank)
    (cuts : w.Cuts target) (uneven : w.isAsymmetric = true) : w.inflated target ≠ target := by
  intro same
  have even : w.padsBegin = w.padsEnd := by
    apply List.ext_getElem
    · rw [ofRank.padsBegin, ofRank.padsEnd]
    · intro i here there
      have axes := ofRank.length_axes
      have lt : i < rank := ofRank.padsBegin ▸ here
      obtain ⟨a, axis⟩ : ∃ a, w.axes[i]? = some a := ⟨_, List.getElem?_eq_getElem (by omega)⟩
      obtain ⟨n, lengthAt⟩ : ∃ n, target[i]? = some n := ⟨_, List.getElem?_eq_getElem (by omega)⟩
      have among : (w.axes.zip target)[i]? = some (a, n) :=
        List.getElem?_zip_eq_some.2 ⟨axis, lengthAt⟩
      obtain ⟨padBegin, padEnd, small⟩ := cuts (a, n) (List.mem_of_getElem? among)
      dsimp only at padBegin padEnd small
      have kept : (w.inflated target)[i]? = target[i]? := by rw [same]
      rw [ofRank.inflated_eq, List.getElem?_map, among, lengthAt, Option.map_some,
        Option.some.injEq] at kept
      dsimp only at kept
      rw [Word.unsigned_of_nonneg (by omega) (by omega)] at kept
      have pads := Window.axes_getElem?.1 axis
      rw [(List.getElem?_eq_some_iff.1 pads.2.2.1).2, (List.getElem?_eq_some_iff.1 pads.2.2.2).2]
      omega
  simp [Window.isAsymmetric, even] at uneven

/-- What the pads are added to stays the same with a sign. -/
theorem inflated_lt (ofRank : w.OfRank rank) (cuts : w.Cuts target) :
    ∀ n ∈ w.inflated target, n < 9223372036854775808 := by
  intro n mem
  rw [ofRank.inflated_eq] at mem
  obtain ⟨⟨a, m⟩, among, rfl⟩ := List.mem_map.1 mem
  obtain ⟨padBegin, padEnd, small⟩ := cuts (a, m) among
  dsimp only at padBegin padEnd small ⊢
  rw [Word.unsigned_of_nonneg (by omega) (by omega)]
  omega

/-- The slice of a plan changes the larger output and arrives at the smaller one. -/
theorem slices_of_cuts (ofRank : w.OfRank rank) (length : target.length = rank)
    (cuts : w.Cuts target) (uneven : w.isAsymmetric = true) (batchSmall : batch.SignFree 0)
    (channelsSmall : channels.SignFree 0) :
    Slices ⟨w, w.inflated target⟩
      (.typed type (.ranked (batch :: channels :: (w.inflated target).map .fixed)))
      (.typed type (.ranked (batch :: channels :: target.map .fixed))) where
  differs := by
    have other := inflated_ne ofRank length cuts uneven
    simp only [Fact.sameType, Fact.typed, Bool.and_eq_false_iff, beq_eq_false_iff_ne, ne_eq,
      Shape.ranked.injEq, List.cons.injEq, true_and]
    exact .inr fun same => other (map_fixed_injective same)
  sliced := by
    have vector (values : List Int) (operand : VectorOperand) :
        (Fact.constant (.vector values)).vector operand = .ok values := rfl
    have cut := StridedSlice.shape_cut ofRank length cuts batchSmall channelsSmall
    have inflated := ofRank.length_inflated length
    simp only [StridedSlice.outputFact, vector, Checked.bind_eq_ok, Checked.pure_eq_ok,
      Checked.require_eq_ok, Except.ok.injEq]
    refine ⟨_, rfl, _, rfl, _, rfl, ⟨⟩, ?_, _, cut, rfl⟩
    simp [Plan.sliceBegins, Plan.sliceEnds, inflated, ofRank.padsBegin, ofRank.padsEnd]

/-! ## Parts of transposed convolutions -/

/-- What a plan and the resolution behind it tell: operands that fit a window, and an output whose
lengths can be cut back from larger ones. -/
theorem fit_of_plans {t : ConvTraits} {outputShape : Option Fact}
    (resolves : Conv.resolveTransposed t w data filters outputShape = .ok r)
    (plans : Plans r r.fact plan) (signFree : r.fact.shape.SignFree r.window) :
    ∃ type rank input kernel batch channels, ∃ target : List Nat,
      plan = ⟨r.window, r.window.inflated target⟩ ∧
      r.fact = .typed type (.ranked (batch :: channels :: target.map .fixed)) ∧
      Conv.elementType data filters = .ok type ∧ Conv.Fit t data filters rank input kernel ∧
      r.window.checkRank rank = .ok ⟨⟩ ∧ 0 < rank ∧ target.length = rank ∧ r.window.Cuts target ∧
      (outputShape = none → r.window.transposedShape input kernel = .ok (target.map .fixed)) ∧
      Conv.outputFact t type data filters (target.map .fixed) = .ok r.fact ∧
      Slices plan (.typed type (.ranked (batch :: channels :: plan.inflated.map .fixed)))
        r.fact := by
  obtain ⟨batch, channels, target, shape, rfl⟩ := plans.inflates
  obtain ⟨type, _, rank, input, kernel, spatial, typed, -, fit, checked, length,
      computed, output⟩ :=
    Conv.resolveTransposed_eq_ok resolves plans.uneven
  have ofRank := (Window.checkRank_eq_ok_iff.1 checked).1
  have made := output
  simp only [Conv.outputFact, Checked.bind_eq_ok, Checked.pure_eq_ok] at made
  obtain ⟨batch', -, channels', -, fact⟩ := made
  rw [← fact] at shape
  obtain ⟨rfl, rfl, rfl⟩ : batch' = batch ∧ channels' = channels ∧
      spatial = target.map .fixed := by
    simpa [Fact.typed] using shape
  rw [List.length_map] at length
  rw [← fact] at signFree
  obtain ⟨cuts, batchSmall, channelsSmall⟩ := cuts_of_signFree plans.nonneg signFree
  refine ⟨type, rank, input, kernel, batch', channels', target, rfl, fact.symm, typed, fit,
    checked, pos_of_isAsymmetric ofRank plans.uneven, length, cuts, computed, output, ?_⟩
  rw [← fact]
  exact slices_of_cuts ofRank length cuts plans.uneven batchSmall channelsSmall

/-- The roles of the inputs: data and filters first, then an output shape if one is taken, and
then an addend if one is. -/
theorem roles_eq {t : ConvTraits} {i : Conv.TransposedInputs}
    (roles : Conv.transposedInputs kind t (data :: filters :: rest) = .ok i) :
    i.data = data ∧ i.filters = filters ∧ (t.takesOutputShape = false → i.outputShape = none) ∧
      (t.takesAddend = true → rest[t.takesOutputShape.toNat]? = i.addend ∧ i.addend.isSome) := by
  obtain ⟨_, _, takesOutputShape, takesAddend⟩ := t
  cases takesOutputShape <;> cases takesAddend <;>
    rcases rest with _ | ⟨_, _ | ⟨_, _ | _⟩⟩ <;>
    simp only [Conv.transposedInputs, Checked.refuse_ne_ok, Except.ok.injEq] at roles <;>
    subst roles <;> simp

/-- There are parts for a transposed convolution with a plan. -/
theorem replaces_deconv (name : String) (notes : Provenance)
    (resolves : Conv.resolveDeconv kind w takesOutputShape (data :: filters :: rest) = .ok r)
    (plans : Plans r r.fact plan) (signFree : r.fact.shape.SignFree r.window) :
    ∃ parts,
      Replaces ⟨name, .deconv kind w takesOutputShape, data :: filters :: rest, r.fact⟩ notes
      parts := by
  have resolved := resolves
  simp only [Conv.resolveDeconv, Conv.deconvInputs, Checked.bind_eq_ok] at resolved
  obtain ⟨⟨_, _, _, _⟩, ⟨_, transposed, roles⟩, resolved⟩ := resolved
  obtain ⟨rfl, rfl, -⟩ := roles_eq roles
  obtain ⟨type, rank, input, kernel, batch, channels, target, rfl, fact, typed, fit, checked, pos,
      length, cuts, -, output, slices⟩ := fit_of_plans resolved plans signFree
  have ofRank := (Window.checkRank_eq_ok_iff.1 checked).1
  have small := inflated_lt ofRank cuts
  rw [fact] at output
  have unpadded := Conv.resolveTransposed_asked typed (fit.takesOutputShape true) checked pos
    output (ofRank.length_inflated length) small
  have addend : kind.traits.takesAddend = false := by
    rw [Checked.require_eq_ok] at transposed
    cases kind <;> simp_all [ConvKind.traits]
  refine ⟨_, .deconv resolves plans ?_ slices⟩
  simp only [Op.outputFact, Conv.resolveDeconv, Conv.deconvInputs, Checked.exceptMap_eq_ok,
    Checked.bind_eq_ok]
  refine ⟨_, ⟨⟨_, _, some _, none⟩, ⟨⟨⟩, transposed, ?_⟩, unpadded⟩, rfl⟩
  simp [Conv.transposedInputs, addend, Plan.outputShape]

/-- A transposed convolution with an addend infers what it resolves to if the element types agree
with the fact it was built for. -/
theorem fusedFact_ok {built addend : Fact} {facts : List Fact} {shape : Option Fact}
    (roles : Conv.fusedInputs takesOutputShape facts = .ok ⟨data, filters, shape, some addend⟩)
    (resolves : Conv.resolveFused w takesOutputShape facts = .ok r)
    (addendType : addend.elementType = built.elementType)
    (outputType : r.fact.elementType = built.elementType) :
    Op.fusedFact w takesOutputShape built facts = .ok r.fact := by
  simp only [Op.fusedFact, roles, resolves, Checked.bind_eq_ok, Except.ok.injEq]
  refine ⟨_, rfl, _, rfl, ?_⟩
  simp only [Checked.bind_eq_ok, Checked.require_eq_ok, decide_eq_true_eq]
  exact ⟨⟨⟩, addendType, ⟨⟩, outputType, rfl⟩

/-- The element types of its inputs then agree. -/
theorem elementType_of_fusedFact {built addend : Fact} {facts : List Fact}
    {i : Conv.TransposedInputs}
    (inferred : Op.fusedFact w takesOutputShape built facts = .ok fact)
    (roles : Conv.fusedInputs takesOutputShape facts = .ok i) (adds : i.addend = some addend) :
    fact.elementType = addend.elementType := by
  simp only [Op.fusedFact, roles, Checked.bind_eq_ok, Except.ok.injEq] at inferred
  obtain ⟨_, -, _, rfl, inferred⟩ := inferred
  simp only [adds, Checked.bind_eq_ok, Checked.require_eq_ok, decide_eq_true_eq] at inferred
  obtain ⟨_, sameAddend, _, sameOutput, inferred⟩ := inferred
  obtain rfl := Except.ok.inj inferred
  exact sameOutput.trans sameAddend.symm

/-- There are parts for a transposed convolution with an addend and a plan. -/
theorem replaces_fused (name : String) (notes : Provenance) {built : Fact}
    (resolves : Conv.resolveFused w takesOutputShape (data :: filters :: rest) = .ok r)
    (plans : Plans r r.fact plan) (signFree : r.fact.shape.SignFree r.window)
    (inferred : (Op.fusedDeconv w takesOutputShape built).outputFact (data :: filters :: rest) =
      .ok r.fact) :
    ∃ parts, Replaces ⟨name, .fusedDeconv w takesOutputShape built,
      data :: filters :: rest, r.fact⟩
      notes parts := by
  have resolved := resolves
  simp only [Conv.resolveFused, Checked.bind_eq_ok] at resolved
  obtain ⟨i, roles, resolved⟩ := resolved
  obtain ⟨sameData, sameFilters, unasked, adds⟩ := roles_eq roles
  obtain ⟨adds, isSome⟩ := adds rfl
  obtain ⟨addend, adds'⟩ := Option.isSome_iff_exists.1 isSome
  have addendType := elementType_of_fusedFact inferred roles adds'
  rw [sameData, sameFilters] at resolved
  obtain ⟨type, rank, input, kernel, batch, channels, target, rfl, fact, typed, fit, checked, pos,
      length, cuts, computed, output, slices⟩ := fit_of_plans resolved plans signFree
  have ofRank := (Window.checkRank_eq_ok_iff.1 checked).1
  rw [fact] at output addendType
  refine ⟨_, .fusedDeconv resolves (adds.trans adds') plans ?_ slices⟩
  cases takesOutputShape with
  | false =>
    have unpadded := Conv.resolveTransposed_unasked typed (fit.takesOutputShape false)
      checked pos output cuts (computed (unasked rfl))
    refine fusedFact_ok (r := ⟨r.window.unpadded, true, _⟩) rfl ?_ rfl addendType
    simp only [Conv.resolveFused, Checked.bind_eq_ok]
    exact ⟨_, rfl, unpadded⟩
  | true =>
    have unpadded := Conv.resolveTransposed_asked typed (fit.takesOutputShape true) checked
      pos output (ofRank.length_inflated length) (inflated_lt ofRank cuts)
    refine fusedFact_ok (r := ⟨r.window.unpadded, true, _⟩) rfl ?_ rfl addendType
    simp only [Conv.resolveFused, Checked.bind_eq_ok]
    exact ⟨_, rfl, unpadded⟩

theorem inputs_of_transposedInputs {t : ConvTraits} {inputs : List Fact}
    {i : Conv.TransposedInputs} (roles : Conv.transposedInputs kind t inputs = .ok i) :
    ∃ data filters rest, inputs = data :: filters :: rest := by
  obtain ⟨_, _, takesOutputShape, takesAddend⟩ := t
  cases takesOutputShape <;> cases takesAddend <;>
    rcases inputs with _ | ⟨_, _ | ⟨_, _⟩⟩ <;> simp_all [Conv.transposedInputs]

/-! ## Parts of forward convolutions -/

/-- What uneven pads of a forward convolution and the resolution behind them tell. -/
theorem fit_of_uneven {w : Window} (resolves : Conv.resolveForward kind w [data, filters] = .ok r)
    (padsKnown : r.padsKnown = true) (uneven : r.window.isAsymmetric = true) :
    ∃ type rank input kernel spatial batch given, kind.traits.transposed = false ∧
      Conv.elementType data filters = .ok type ∧
      Conv.Fit kind.traits data filters rank input kernel ∧
      r.window.checkRank rank = .ok ⟨⟩ ∧ 0 < rank ∧
      r.window.forwardShape input kernel = .ok spatial ∧
      Conv.outputFact kind.traits type data filters spatial = .ok r.fact ∧
      data.shape.extentAt 0 = .ok batch ∧ data.shape.extentAt 1 = .ok given := by
  obtain ⟨_, _, type, rank, input, kernel, spatial, inputs, direction, typed, fit,
      checked, shape, output⟩ :=
    Conv.resolveForward_eq_ok resolves padsKnown uneven
  cases inputs
  have pos := pos_of_isAsymmetric (Window.checkRank_eq_ok_iff.1 checked).1 uneven
  obtain ⟨given, -, givenAt, -⟩ := fit.channels
  have made := output
  simp only [Conv.outputFact, Checked.bind_eq_ok] at made
  obtain ⟨batch, batchAt, -⟩ := made
  exact ⟨type, rank, input, kernel, spatial, batch, given, direction, typed, fit, checked, pos,
    shape, output, batchAt, givenAt⟩

/-- Data that could be padded has as many elements as negative pads take away. -/
theorem allows_of_padded {w : Window} {padded : Fact}
    (resolves : Conv.resolveForward kind w [data, filters] = .ok r)
    (padsKnown : r.padsKnown = true) (uneven : r.window.isAsymmetric = true)
    (signFree : data.shape.SignFree r.window)
    (pads : Op.pad.outputFact [data, .constant (.vector (Window.fullPads r.window.padsBegin)),
      .constant (.vector (Window.fullPads r.window.padsEnd)),
      .constant (.zeroScalar data.elementType)] = .ok padded) :
    data.shape.Allows r.window := by
  obtain ⟨type, rank, input, kernel, spatial, batch, given, -, -, fit, checked, -, -, -, batchAt,
    givenAt⟩ := fit_of_uneven resolves padsKnown uneven
  have ofRank := (Window.checkRank_eq_ok_iff.1 checked).1
  obtain ⟨-, s, shape, -⟩ := Pad.outputFact_eq_ok.1 pads
  exact (Shape.allows_iff fit.input).2
    ((Pad.shape_eq_ok ofRank fit.input batchAt givenAt signFree).1 shape).1

/-- There are parts for a forward convolution whose pads take away no more elements than the data
has. -/
theorem replaces_forward (name : String) (notes : Provenance) {w : Window}
    (resolves : Conv.resolveForward kind w [data, filters] = .ok r)
    (padsKnown : r.padsKnown = true) (uneven : r.window.isAsymmetric = true)
    (signFree : data.shape.SignFree r.window) (allows : data.shape.Allows r.window) :
    ∃ parts, Replaces ⟨name, .conv kind w, [data, filters], r.fact⟩ notes parts := by
  obtain ⟨type, rank, input, kernel, spatial, batch, given, direction, typed, fit, checked, pos,
      shape, output, batchAt, givenAt⟩ := fit_of_uneven resolves padsKnown uneven
  have ofRank := (Window.checkRank_eq_ok_iff.1 checked).1
  have allowed := (Shape.allows_iff fit.input).1 allows
  have padded := (Pad.shape_eq_ok ofRank fit.input batchAt givenAt signFree).2 ⟨allowed, rfl⟩
  have unpadded :=
    Conv.resolveForward_unpadded direction typed fit checked pos shape output batchAt
    givenAt signFree allowed
  refine ⟨_, .forward resolves padsKnown uneven (Pad.outputFact_eq_ok.2 ⟨?_, _, padded, rfl⟩) ?_⟩
  · simp [Window.fullPads, ofRank.padsBegin, ofRank.padsEnd]
  · simp only [Op.outputFact, Checked.exceptMap_eq_ok]
    exact ⟨_, unpadded, rfl⟩

/-! ## Outcomes -/

variable {g : Graph} {node : Node}

/-- The rules for transposed convolutions have a patch or decline on each node of a built graph,
as long as the extents of its output, with the pads and without, are the same numbers when they
are read with a sign. -/
theorem transposed_total (built : g.Built) (there : g.nodes[node.id]? = some node)
    (signFree : ∀ {facts r fact}, g.inputFacts node.id = .ok facts → node.op.Resolves facts r →
      fact ∈ node.facts → fact.shape.SignFree r.window) (log : Log) :
    (∀ kind w takesOutputShape, node.op = .deconv kind w takesOutputShape →
      ∃ outcome log', deconv kind w takesOutputShape g node log = .ok outcome log') ∧
    (∀ w takesOutputShape built, node.op = .fusedDeconv w takesOutputShape built →
      ∃ outcome log', fused w takesOutputShape g node log = .ok outcome log') := by
  obtain ⟨⟨name, op, operands, fact⟩, signed, inferred⟩ := built.wellFormed.toTyped.signed there
  have known := (Graph.inputFacts_eq_ok there).2 signed.operands
  have signFree {r : Resolution} (resolves : op.Resolves operands r) :
      fact.shape.SignFree r.window :=
    signFree known (signed.op ▸ resolves) (by rw [signed.facts]; exact List.mem_singleton_self _)
  constructor
  · intro kind w takesOutputShape isDeconv
    obtain rfl := signed.op.symm.trans isDeconv
    obtain ⟨r, resolves, rfl⟩ := Checked.exceptMap_eq_ok.1 inferred
    by_cases planned : ∃ plan, Plans r r.fact plan
    · obtain ⟨plan, plans⟩ := planned
      have resolved := resolves
      simp only [Conv.resolveDeconv, Conv.deconvInputs, Checked.bind_eq_ok] at resolved
      obtain ⟨_, ⟨_, -, roles⟩, -⟩ := resolved
      obtain ⟨data, filters, rest, rfl⟩ := inputs_of_transposedInputs roles
      obtain ⟨parts, replaces⟩ := replaces_deconv name node.provenance resolves
        plans (signFree (.deconv resolves))
      obtain ⟨patch, proposed⟩ := deconv_of_replaces there signed log inferred rfl replaces
      exact ⟨some patch, log, proposed⟩
    · obtain ⟨log', declined⟩ := deconv_declines there signed log resolves rfl
        (fun plan plans => planned ⟨plan, plans⟩)
      exact ⟨none, log', declined⟩
  · intro w takesOutputShape built isFused
    obtain rfl := signed.op.symm.trans isFused
    obtain ⟨r, resolves, rfl⟩ := fusedFact_eq_ok inferred
    by_cases planned : ∃ plan, Plans r r.fact plan
    · obtain ⟨plan, plans⟩ := planned
      have resolved := resolves
      simp only [Conv.resolveFused, Conv.fusedInputs, Checked.bind_eq_ok] at resolved
      obtain ⟨_, roles, -⟩ := resolved
      obtain ⟨data, filters, rest, rfl⟩ := inputs_of_transposedInputs roles
      obtain ⟨parts, replaces⟩ := replaces_fused name node.provenance resolves
        plans (signFree (.fusedDeconv resolves)) inferred
      obtain ⟨patch, proposed⟩ := fused_of_replaces there signed log inferred rfl replaces
      exact ⟨some patch, log, proposed⟩
    · obtain ⟨log', declined⟩ := fused_declines there signed log resolves rfl
        (fun plan plans => planned ⟨plan, plans⟩)
      exact ⟨none, log', declined⟩

/-- One pad at the beginning of five elements. -/
theorem transposed_total_oneDeconv :
    ∃ g node, oneDeconv ⟨[], [], [1], [0], .explicit, []⟩ [1, 1, 4] [1, 1, 3] .empty = .ok ⟨⟩ g ∧
      g.nodes[2]? = some node ∧
      ∃ outcome log',
        deconv .convolutionBackpropData ⟨[], [], [1], [0], .explicit, []⟩ false g node [] =
        .ok outcome log' := by
  obtain ⟨g, node, made, there, id, op, inputs, facts⟩ : ∃ g node,
      oneDeconv ⟨[], [], [1], [0], .explicit, []⟩ [1, 1, 4] [1, 1, 3] .empty = .ok ⟨⟩ g ∧
      g.nodes[2]? = some node ∧ node.id = 2 ∧
      node.op = .deconv .convolutionBackpropData ⟨[], [], [1], [0], .explicit, []⟩ false ∧
      g.inputFacts node.id =
        .ok [.typed .f32 (.ofLengths [1, 1, 4]), .typed .f32 (.ofLengths [1, 1, 3])] ∧
      node.facts = [.typed .f32 (.ofLengths [1, 1, 5])] :=
    ⟨_, _, rfl, rfl, rfl, rfl, rfl, rfl⟩
  refine ⟨g, node, made, there,
    (transposed_total (built_oneDeconv made) (id ▸ there) ?_ []).1 _ _ _ op⟩
  intro _ r fact known resolves mem
  cases inputs.symm.trans known
  rw [op] at resolves
  cases resolves with
  | deconv resolves =>
    obtain rfl : ⟨⟨[1], [1], [1], [0], .explicit, [0]⟩, true,
        .typed .f32 (.ofLengths [1, 1, 5])⟩ = r :=
      Except.ok.inj resolves
    rw [facts, List.mem_singleton] at mem
    subst mem
    decide

/-- The rule for forward convolutions fails on a node of a built graph exactly if its pads are
known and uneven, and negative ones take away more elements than the data has. -/
theorem forward_ok_iff {w : Window} (built : g.Built) (there : g.nodes[node.id]? = some node)
    (op : node.op = .conv kind w) :
    ∃ data filters r, g.inputFacts node.id = .ok [data, filters] ∧
      Conv.resolveForward kind w [data, filters] = .ok r ∧
      (data.shape.SignFree r.window → ∀ log,
        (∃ outcome log', forward kind w g node log = .ok outcome log') ↔
          (r.padsKnown = true → r.window.isAsymmetric = true → data.shape.Allows r.window)) := by
  obtain ⟨⟨name, _, operands, fact⟩, signed, inferred⟩ := built.wellFormed.toTyped.signed there
  have known := (Graph.inputFacts_eq_ok there).2 signed.operands
  obtain rfl := signed.op.symm.trans op
  obtain ⟨r, resolves, rfl⟩ := Checked.exceptMap_eq_ok.1 inferred
  obtain ⟨data, filters, rfl⟩ := Conv.operands_of_resolveForward resolves
  refine ⟨data, filters, r, known, resolves, fun signFree log => ?_⟩
  by_cases other : r.padsKnown = true ∧ r.window.isAsymmetric = true
  · obtain ⟨padsKnown, uneven⟩ := other
    simp only [padsKnown, uneven, true_imp_iff]
    constructor
    · rintro ⟨outcome, log', run⟩
      cases outcome with
      | none =>
        obtain ⟨_, _, inputs⟩ := List.length_eq_two.1 signed.operands.length_eq
        obtain ⟨_, _, known', resolves', even⟩ := forward_eq_none inputs run
        cases known.symm.trans known'
        cases resolves.symm.trans resolves'
        exact absurd ⟨padsKnown, uneven⟩ even
      | some patch =>
        obtain ⟨_, _, _, _, _, inputs, known', resolves', -, -, -, run⟩ := forward_eq_some run
        cases known.symm.trans known'
        cases resolves.symm.trans resolves'
        obtain ⟨_, _, _, _, _, _, _, _, dataAt, filtersAt, -, -, -, described⟩ :=
          padAhead_eq_ok run
        obtain ⟨pads, -⟩ := padAhead_infers dataAt filtersAt described
        have read := signed.operands
        rw [inputs] at read
        obtain ⟨dataKnown, -⟩ := List.forall₂_cons.1 read
        cases dataKnown.symm.trans (described.known (List.mem_of_getElem? dataAt))
        exact allows_of_padded resolves padsKnown uneven signFree pads
    · intro allows
      obtain ⟨parts, replaces⟩ := replaces_forward name node.provenance resolves
        padsKnown uneven signFree allows
      obtain ⟨patch, proposed⟩ := forward_of_replaces there signed log rfl replaces
      exact ⟨some patch, log, proposed⟩
  · obtain ⟨log', declined⟩ := forward_declines there signed log resolves other
    exact iff_of_true ⟨none, log', declined⟩ fun padsKnown uneven =>
      absurd ⟨padsKnown, uneven⟩ other

/-- A graph with a convolution whose pads take away four of three elements. Nothing has noticed
that, since the length of the filters is unknown. -/
def overcutConv : Edit Graph Unit := do
  let data ← Graph.addSource "data" (.typed .f32 (.ofLengths [1, 1, 3]))
  let filters ← Graph.addSource "filters" (.typed .f32 (.ranked [.fixed 1, .fixed 1, .dynamic]))
  let out ← Graph.wire "conv"
      (.conv .convolution ⟨[], [], [-4], [0], .explicit, []⟩) [data, filters]
  Graph.setOutputs [out]

theorem built_overcutConv (run : overcutConv .empty = .ok ⟨⟩ g) : g.Built := by
  simp only [overcutConv, Edit.bind_eq_ok] at run
  obtain ⟨_, _, addData, _, _, addFilters, out, wired, wire, answer⟩ := run
  exact .answerLast (.source (.source .empty addData) addFilters) wire answer

/-- The rule fails on it. -/
theorem forward_ok_iff_overcutConv :
    ∃ g node, overcutConv .empty = .ok ⟨⟩ g ∧ g.nodes[2]? = some node ∧
      node.op = .conv .convolution ⟨[], [], [-4], [0], .explicit, []⟩ ∧
      ¬ ∃ outcome log', forward .convolution ⟨[], [], [-4], [0], .explicit, []⟩ g node [] =
        .ok outcome log' := by
  obtain ⟨g, node, made, there, id, op, inputs⟩ : ∃ g node,
      overcutConv .empty = .ok ⟨⟩ g ∧ g.nodes[2]? = some node ∧ node.id = 2 ∧
      node.op = .conv .convolution ⟨[], [], [-4], [0], .explicit, []⟩ ∧
      g.inputFacts node.id = .ok [.typed .f32 (.ofLengths [1, 1, 3]),
        .typed .f32 (.ranked [.fixed 1, .fixed 1, .dynamic])] :=
    ⟨_, _, rfl, rfl, rfl, rfl, rfl⟩
  obtain ⟨data, filters, r, inputs', resolves, outcome⟩ :=
    forward_ok_iff (built_overcutConv made) (id ▸ there) op
  cases inputs.symm.trans inputs'
  obtain rfl : ⟨⟨[1], [1], [-4], [0], .explicit, [0]⟩, true,
      .typed .f32 (.ranked [.fixed 1, .fixed 1, .dynamic])⟩ = r := Except.ok.inj resolves
  refine ⟨g, node, made, there, op, fun accepted => ?_⟩
  exact absurd ((outcome (by decide) []).1 accepted rfl rfl) (by decide)

end Unpad

end EvenPad
