import EvenPad.Proofs.Conv.Resolve
import EvenPad.Proofs.Window.CutBack

/-!
Transposed convolutions in a SAME mode that are asked for a shape. The shape decides the pads
(`Conv.requestedPads_fixed`), and the pads decide the shape. Main statement: pads for a wanted
shape cut each axis down to it that is filled so far, so that a convolution with these pads, which
is asked for nothing, has the output of the one from which they were derived
(`Conv.samePadsFor_cutsBack`).
-/

namespace EvenPad.Conv

variable {kind : ConvKind} {t : ConvTraits} {w w' : Window} {data filters shape : Fact}
  {r : Resolution} {rank : Nat} {input kernel wanted : List Nat} {batch given : Extent}
  {lead spatial : List Extent} {padsKnown : Bool} {type : ElementType} {fact : Fact}

/-- Where all extents are known, the pads of a SAME mode are those for the shape that is asked
for. -/
theorem requestedPads_fixed (same : w.mode.isSame = true) :
    requestedPads ⟨w, input.map .fixed, kernel.map .fixed⟩ (some wanted) = .ok (w', padsKnown) ↔
      padsKnown = true ∧ ∃ padsBegin padsEnd,
      w.samePadsFor input kernel wanted = .ok (padsBegin, padsEnd) ∧
        w' = { w with padsBegin, padsEnd } := by
  have inputs : (input.map Extent.fixed).mapM Extent.length? = some input :=
    Extent.mapM_length?_eq_some.2 rfl
  have kernels : (kernel.map Extent.fixed).mapM Extent.length? = some kernel :=
    Extent.mapM_length?_eq_some.2 rfl
  -- the explicit mode and the one without pads are excluded
  cases mode : w.mode <;> simp only [mode, PadMode.isSame, Bool.false_eq_true] at same
  all_goals
    simp only [requestedPads, mode, inputs, kernels, Checked.bind_eq_ok, Checked.pure_eq_ok,
      Prod.exists, Prod.mk.injEq]
    constructor
    · rintro ⟨padsBegin, padsEnd, pads, rfl, rfl⟩
      exact ⟨rfl, padsBegin, padsEnd, pads, rfl⟩
    · rintro ⟨rfl, padsBegin, padsEnd, pads, rfl⟩
      exact ⟨padsBegin, padsEnd, pads, rfl, rfl⟩

/-- A transposed convolution that is not asked for a shape has the extents that its window
leaves. -/
theorem outputFact_explicit {input kernel : List Extent}
    (transposed : kind = .convolutionBackpropData ∨ kind = .groupConvolutionBackpropData)
    (typed : elementType data filters = .ok type) (known : data.rank? = some (rank + 2))
    (full : w'.withDefaults rank = w) (explicit : w.mode = .explicit)
    (fit : Fit { kind.traits with takesOutputShape := false } data filters rank input kernel)
    (checked : w.checkRank rank = .ok ⟨⟩) (shape : w.transposedShape input kernel = .ok spatial)
    (output : outputFact kind.traits type data filters spatial = .ok fact) :
    (Op.deconv kind w' false).outputFact [data, filters] = .ok fact := by
  rw [Op.outputFact, Checked.exceptMap_eq_ok]
  refine ⟨⟨w, true, fact⟩, (resolveDeconv_eq_ok_iff none).2 ⟨transposed,
    resolveTransposed_eq_ok_iff.2 ⟨type, none, typed, rfl, .inr ⟨rank, ⟨w, input, kernel⟩,
      spatial, by simp [spatialRank?, known],
      checkOperands_eq_ok_iff.2 ⟨fit, full.symm, by rw [full]; exact checked⟩, ?_, output⟩⟩⟩, rfl⟩
  simp only [transposedSpatial, Option.isSome_none, Bool.false_eq_true, if_false, explicit,
    if_true, Checked.bind_eq_ok, Checked.pure_eq_ok]
  exact ⟨spatial, shape, rfl⟩

/-- A convolution in a SAME mode that is asked for a shape has that shape, and the pads for it. -/
theorem resolveTransposed_same (same : w.mode.isSame = true)
    (dataShape : data.shape = .ranked (batch :: given :: input.map .fixed))
    (filterShape : filters.shape = .ranked (lead ++ kernel.map .fixed))
    (leading : lead.length = t.leadingFilterAxes)
    (asked : requestedShape shape = .ok (some wanted))
    (resolves : resolveTransposed t w data filters (some shape) = .ok r) :
    ∃ type padsBegin padsEnd, elementType data filters = .ok type ∧
      Fit t data filters input.length (input.map .fixed) (kernel.map .fixed) ∧
      (w.withDefaults input.length).checkRank input.length = .ok ⟨⟩ ∧
      kernel.length = input.length ∧ wanted.length = input.length ∧
      (w.withDefaults input.length).samePadsFor input kernel wanted = .ok (padsBegin, padsEnd) ∧
      r.window = { w.withDefaults input.length with padsBegin, padsEnd } ∧
      outputFact t type data filters (wanted.map .fixed) = .ok r.fact := by
  obtain ⟨type, requested, typed, requests, ⟨unknown, -⟩ |
    ⟨rank, operands, spatial, -, checked, spatials, output⟩⟩ :=
    resolveTransposed_eq_ok_iff.1 resolves
  · simp [spatialRank?, Fact.rank?, dataShape, Shape.rank?] at unknown
  · cases asked.symm.trans requests
    obtain ⟨fit, windowEq, ranked⟩ := checkOperands_eq_ok_iff.1 checked
    obtain ⟨rfl, inputEq⟩ := Shape.fixed_of_tail [batch, given] dataShape rfl fit.input
    obtain ⟨kernels, kernelEq⟩ := Shape.fixed_of_tail lead filterShape leading fit.kernel
    obtain ⟨window, _, _⟩ := operands
    subst windowEq inputEq kernelEq
    simp only [transposedSpatial, Option.isSome_some, if_true, Checked.bind_eq_ok,
      Checked.require_eq_ok, decide_eq_true_eq, Checked.pure_eq_ok, Prod.exists, Prod.mk.injEq,
      Option.elim_some] at spatials
    obtain ⟨_, wanteds, window, _, pads, rfl, rfl, rfl⟩ := spatials
    have sameDefaults : (w.withDefaults input.length).mode.isSame = true := same
    obtain ⟨-, padsBegin, padsEnd, derived, windowEq⟩ := (requestedPads_fixed sameDefaults).1 pads
    exact ⟨type, padsBegin, padsEnd, typed, fit, ranked, kernels, wanteds,
      derived, windowEq, output⟩

/-- A transposed convolution in a SAME mode that is asked for a shape which it fills, with the
pads that it resolves to instead, and not asked. -/
theorem outputFact_cutBack (same : w.mode.isSame = true)
    (dataShape : data.shape = .ranked (batch :: given :: input.map .fixed))
    (filterShape : filters.shape = .ranked (lead ++ kernel.map .fixed))
    (leading : lead.length = kind.traits.leadingFilterAxes)
    (asked : requestedShape shape = .ok (some wanted))
    (resolves : resolveDeconv kind w true [data, filters, shape] = .ok r)
    (small : ∀ n ∈ r.window.strides ++ r.window.dilations ++ input ++ kernel ++ wanted,
      n < 9223372036854775808)
    (reached : ∀ {axis a p i k o}, r.window.Along input kernel wanted axis a p i k o →
      (o : Int) ≤ a.filled p i k) :
    ∀ w' ∈ [{ w with
          padsBegin := r.window.padsBegin, padsEnd := r.window.padsEnd, mode := .explicit },
        { r.window with mode := .explicit }],
      (Op.deconv kind w' false).outputFact [data, filters] = .ok r.fact := by
  obtain ⟨transposed, resolves⟩ := (resolveDeconv_eq_ok_iff (some shape)).1 resolves
  obtain ⟨type, padsBegin, padsEnd, typed, fit, ranked, kernels, wanteds, derived,
      windowEq, output⟩ :=
    resolveTransposed_same same dataShape filterShape leading asked resolves
  obtain ⟨ofRank, paddings, -⟩ := Window.checkRank_eq_ok_iff.1 ranked
  have steps : (w.withDefaults input.length).SameSteps r.window := by
    rw [windowEq]; exact ⟨rfl, rfl, rfl⟩
  have asks : (w.withDefaults input.length).Asks input kernel wanted :=
    ⟨ofRank.strides, ofRank.dilations, paddings, kernels, wanteds,
      by rwa [← steps.strides, ← steps.dilations]⟩
  obtain ⟨_, _, derived', begins, ends, cuts⟩ := asks.samePadsFor
  cases derived.symm.trans derived'
  rw [← windowEq] at cuts
  have cutOfRank : r.window.OfRank input.length := by
    rw [windowEq]
    exact ⟨ofRank.strides, ofRank.dilations, begins, ends⟩
  have spatial : r.window.transposedShape (input.map .fixed) (kernel.map .fixed) =
      .ok (wanted.map .fixed) :=
    (asks.withPads steps).transposedShape_wanted cutOfRank cuts reached
  have known : data.rank? = some (input.length + 2) := by
    simp [Fact.rank?, dataShape, Shape.rank?]
  have explicitOfRank : ({ r.window with mode := .explicit } : Window).OfRank input.length :=
    ⟨cutOfRank.strides, cutOfRank.dilations, cutOfRank.padsBegin, cutOfRank.padsEnd⟩
  have explicitSteps :
      (w.withDefaults input.length).SameSteps { r.window with mode := .explicit } :=
    ⟨steps.strides, steps.dilations, steps.outputPadding⟩
  have explicit {w' : Window}
      (full : w'.withDefaults input.length = { r.window with mode := .explicit }) :
      (Op.deconv kind w' false).outputFact [data, filters] = .ok r.fact :=
    outputFact_explicit transposed typed known full rfl (fit.takesOutputShape false)
      (explicitSteps.checkRank ranked explicitOfRank) spatial output
  refine List.forall_mem_cons.2 ⟨explicit ?_, List.forall_mem_singleton.2 (explicit ?_)⟩
  · rw [Window.withDefaults_withPads cutOfRank.padsBegin cutOfRank.padsEnd, windowEq]
  · exact Window.withDefaults_eq_self explicitOfRank (steps.outputPadding ▸ paddings)

/-- Pads for a wanted shape are not negative and even but for one element. They cut each axis that
is filled so far down to the wanted length and leave the others as they are, and a shape is that
of its axes, none of which may be negative. So a transposed convolution that is asked for a shape
that it fills infers the output that it resolves to, and the same output with the pads that it
resolves to instead of the shape, whether or not its other lists are written down. -/
theorem samePadsFor_cutsBack :
    (∀ {w : Window} {input filter wanted : List Nat}, w.Asks input filter wanted →
      ∃ padsBegin padsEnd, w.samePadsFor input filter wanted = .ok (padsBegin, padsEnd) ∧
        padsBegin.length = input.length ∧ padsEnd.length = input.length ∧
        (∀ {axis a p i f o},
          ({ w with padsBegin, padsEnd } : Window).Along input filter wanted axis a p i f o →
          a.CutsTo (w.mode = .sameUpper) p i f o) ∧
        ∀ {output}, ({ w with padsBegin, padsEnd } : Window).transposedShape
            (input.map .fixed) (filter.map .fixed) = .ok output ↔
          output.length = input.length ∧ ∀ {axis a p i f o e},
            ({ w with padsBegin, padsEnd } : Window).Along input filter wanted axis a p i f o →
            output[axis]? = some e →
              ∃ n : Nat, e = .fixed n ∧ (n : Int) = min (a.filled p i f) o) ∧
    ∀ {kind w data filters shape batch given lead input kernel wanted r}, w.mode.isSame = true →
      data.shape = .ranked (batch :: given :: input.map .fixed) →
      filters.shape = .ranked (lead ++ kernel.map .fixed) →
      lead.length = kind.traits.leadingFilterAxes →
      requestedShape shape = .ok (some wanted) →
      resolveDeconv kind w true [data, filters, shape] = .ok r →
      (∀ n ∈ r.window.strides ++ r.window.dilations ++ input ++ kernel ++ wanted,
        n < 9223372036854775808) →
      (∀ {axis a p i k o}, r.window.Along input kernel wanted axis a p i k o →
        (o : Int) ≤ a.filled p i k) →
      (Op.deconv kind w true).outputFact [data, filters, shape] = .ok r.fact ∧
      ∀ w' ∈ [{ w with
            padsBegin := r.window.padsBegin, padsEnd := r.window.padsEnd, mode := .explicit },
          { r.window with mode := .explicit }],
        (Op.deconv kind w' false).outputFact [data, filters] = .ok r.fact := by
  constructor
  · intro w input filter wanted asks
    obtain ⟨padsBegin, padsEnd, derived, begins, ends, cuts⟩ := asks.samePadsFor
    have asks' : ({ w with padsBegin, padsEnd } : Window).Asks input filter wanted :=
      asks.withPads ⟨rfl, rfl, rfl⟩
    exact ⟨padsBegin, padsEnd, derived, begins, ends, cuts,
      asks'.transposedShape_eq_ok_iff ⟨asks.strides, asks.dilations, begins, ends⟩ cuts⟩
  · intro kind w data filters shape batch given lead input kernel wanted r same
      dataShape filterShape leading asked resolves small reached
    refine ⟨?_,
      outputFact_cutBack same dataShape filterShape leading asked resolves small reached⟩
    rw [Op.outputFact, resolves]
    rfl

/-- Eleven elements are cut down to ten, where one is not enough for eight. -/
theorem samePadsFor_cutsBack_oddUnit :
    (Window.mk [2, 1] [1, 1] [] [] .sameUpper [0, -1]).samePadsFor [5, 2] [3, 1] [10, 8] =
      .ok ([1, 0], [0, 0]) ∧
      (Window.mk [2, 1] [1, 1] [1, 0] [0, 0] .sameUpper [0, -1]).transposedShape
        ([5, 2].map .fixed) ([3, 1].map .fixed) = .ok ([10, 1].map .fixed) ∧
      (Op.deconv .convolutionBackpropData ⟨[2], [], [], [], .sameUpper, []⟩ true).outputFact
          [.typed .f32 (.ofLengths [1, 1, 5]), .typed .f32 (.ofLengths [1, 1, 3]),
            .constant (.vector [10])] =
        .ok (.typed .f32 (.ofLengths [1, 1, 10])) ∧
      (Op.deconv .convolutionBackpropData ⟨[2], [], [1], [0], .explicit, []⟩ false).outputFact
          [.typed .f32 (.ofLengths [1, 1, 5]), .typed .f32 (.ofLengths [1, 1, 3])] =
        .ok (.typed .f32 (.ofLengths [1, 1, 10])) := by
  obtain ⟨padsBegin, padsEnd, derived, -, -, -, shape⟩ := samePadsFor_cutsBack.1
    (show (Window.mk [2, 1] [1, 1] [] [] .sameUpper [0, -1]).Asks [5, 2] [3, 1] [10, 8] from
      ⟨rfl, rfl, rfl, rfl, rfl, by decide⟩)
  have pads :
      (Window.mk [2, 1] [1, 1] [] [] .sameUpper [0, -1]).samePadsFor [5, 2] [3, 1] [10, 8] =
      .ok ([1, 0], [0, 0]) := by decide +kernel
  cases pads.symm.trans derived
  refine ⟨pads, shape.2 ⟨rfl, ?_⟩, ?_⟩
  · rintro (_ | _ | axis) a p i f o e ⟨⟨⟩, ⟨⟩, ⟨⟩, ⟨⟩, ⟨⟩⟩ ⟨⟩
    · exact ⟨10, rfl, by decide⟩
    · exact ⟨1, rfl, by decide⟩
  · have dataShape : (Fact.typed .f32 (.ofLengths [1, 1, 5])).shape =
        .ranked (.fixed 1 :: .fixed 1 :: [5].map .fixed) := rfl
    have filterShape : (Fact.typed .f32 (.ofLengths [1, 1, 3])).shape =
        .ranked ([.fixed 1, .fixed 1] ++ [3].map .fixed) := rfl
    have asked : requestedShape (.constant (.vector [10])) = .ok (some [10]) := rfl
    have resolves : resolveDeconv .convolutionBackpropData ⟨[2], [], [], [], .sameUpper, []⟩ true
        [.typed .f32 (.ofLengths [1, 1, 5]), .typed .f32 (.ofLengths [1, 1, 3]),
          .constant (.vector [10])] =
          .ok ⟨⟨[2], [1], [1], [0], .sameUpper, [0]⟩, true,
            .typed .f32 (.ofLengths [1, 1, 10])⟩ := by decide +kernel
    obtain ⟨fact, facts⟩ := samePadsFor_cutsBack.2 rfl dataShape filterShape rfl asked resolves
      (by decide) (by
        rintro (_ | axis) a p i f o ⟨⟨⟩, ⟨⟩, ⟨⟩, ⟨⟩, ⟨⟩⟩
        decide)
    exact ⟨fact, facts _ (.head _)⟩

end EvenPad.Conv
