import EvenPad.Proofs.Conv.Geometry

/-!
Resolved windows as they are written down. Main statement: where a convolution resolves to known
pads, the convolution with the resolved window, whose pads are taken as written, resolves to that
window and to the same output (`Op.Resolves.resolves_asWritten`). So resolving twice is resolving
once, whichever mode the pads came from and whichever operand told the number of spatial axes.
-/

namespace EvenPad

/-- The window with its pads taken as they are. -/
def Window.asWritten (w : Window) : Window := { w with mode := .explicit }

theorem Window.OfRank.asWritten {w : Window} {rank : Nat} (ofRank : w.OfRank rank) :
    w.asWritten.OfRank rank :=
  ⟨ofRank.strides, ofRank.dilations, ofRank.padsBegin, ofRank.padsEnd⟩

namespace Conv

variable {kind : ConvKind} {t : ConvTraits} {w w' : Window} {data filters : Fact}
  {outputShape : Option Fact} {facts : List Fact} {r : Resolution} {rank : Nat}
  {input kernel : List Extent}

/-- A window that is filled in does not change the number of spatial axes that it was filled in
for. -/
theorem Fit.told_again (fit : Fit t data filters rank input kernel) (asked : Option Nat)
    (told : (spatialRank? t w data filters).or asked = some rank) (ofRank : w'.OfRank rank)
    (outputPadding : w'.outputPadding.length = rank) :
    (spatialRank? t w' data filters).or asked = some rank := by
  rcases Nat.eq_zero_or_pos rank with rfl | pos
  · -- data over no spatial axes has no known rank, and a window over none tells nothing
    have unranked : data.rank? = none := by
      have spatial : data.rank?.all (· = 2 + 0) = true := Shape.rank?_of_tail fit.input
      have least := fit.dataRank
      cases known : data.rank? with
      | none => rfl
      | some count =>
        simp only [known, Option.all_some, decide_eq_true_eq] at spatial least
        omega
    have untold : w'.spatialRank? = none := by
      simp [Window.spatialRank?, ofRank.strides, ofRank.dilations, ofRank.padsBegin,
        ofRank.padsEnd, outputPadding]
    cases known : filters.rank? with
    | some count => simpa [spatialRank?, unranked, known] using told
    | none =>
      simp only [spatialRank?, unranked, known, untold, Option.map_none, Option.none_or] at told ⊢
      rcases Option.or_eq_some_iff.1 told with told | ⟨-, told⟩
      · have pos : 0 < 0 := by simpa using List.find?_some told
        omega
      · exact told
  · rw [fit.spatialRank?_eq ofRank pos, Option.some_or]

/-- The operands of a convolution fit the window that it resolves to. -/
theorem Fit.checkOperands_asWritten (fit : Fit t data filters rank input kernel)
    (checked : w.checkRank rank = .ok ⟨⟩) (filterRank : Nat → Cause)
    (channels : Extent → Extent → Cause) :
    checkOperands t w.asWritten data filters rank filterRank channels =
      .ok ⟨w.asWritten, input, kernel⟩ := by
  obtain ⟨ofRank, outputPadding, -⟩ := Window.checkRank_eq_ok_iff.1 checked
  have full : w.asWritten.withDefaults rank = w.asWritten :=
    Window.withDefaults_eq_self ofRank.asWritten outputPadding
  refine checkOperands_eq_ok_iff.2 ⟨fit, full.symm, ?_⟩
  rw [full]
  exact checked

theorem resolveForward_asWritten (resolves : resolveForward kind w facts = .ok r)
    (known : r.padsKnown = true) :
    resolveForward kind r.window.asWritten facts =
      .ok { r with window := r.window.asWritten } := by
  obtain ⟨data, filters, rfl⟩ := operands_of_resolveForward resolves
  obtain ⟨direction, type, typed,
      ⟨untold, rfl⟩ | ⟨rank, operands, spatial, told, checked, pads, shape, output⟩⟩ :=
    resolveForward_eq_ok_iff.1 resolves
  · refine resolveForward_eq_ok_iff.2 ⟨direction, type, typed, .inl ⟨untold, ?_⟩⟩
    exact congrArg (Resolution.mk _ · _) known
  · obtain ⟨fit, windowEq, written⟩ := checkOperands_eq_ok_iff.1 checked
    rw [← windowEq] at written
    have ofRank := ofRank_of_forwardPads (Window.checkRank_eq_ok_iff.1 written).1
      (Shape.length_of_tail fit.input)
      (Shape.length_of_tail fit.kernel) pads
    have resolved := (sameSteps_of_forwardPads pads).checkRank written ofRank
    have outputPadding := (Window.checkRank_eq_ok_iff.1 resolved).2.1
    have again := fit.told_again none (by rwa [Option.or_none]) ofRank.asWritten outputPadding
    rw [Option.or_none] at again
    rw [if_pos known] at shape
    refine resolveForward_eq_ok_iff.2 ⟨direction, type, typed, .inr ⟨rank, _, spatial, again,
      fit.checkOperands_asWritten resolved _ _, ?_, ?_, output⟩⟩
    · rw [known]
      rfl
    · rw [if_pos known]
      exact shape

theorem resolveTransposed_asWritten
    (resolves : resolveTransposed t w data filters outputShape = .ok r)
    (known : r.padsKnown = true) :
    resolveTransposed t r.window.asWritten data filters outputShape =
      .ok { r with window := r.window.asWritten } := by
  obtain ⟨type, requested, typed, asked,
      ⟨untold, rfl⟩ | ⟨rank, operands, spatial, told, checked, spatials, output⟩⟩ :=
    resolveTransposed_eq_ok_iff.1 resolves
  · refine resolveTransposed_eq_ok_iff.2 ⟨type, requested, typed, asked, .inl ⟨untold, ?_⟩⟩
    exact congrArg (Resolution.mk _ · _) known
  · obtain ⟨fit, windowEq, written⟩ := checkOperands_eq_ok_iff.1 checked
    rw [← windowEq] at written
    have ofRank := (transposedSpatial_eq_ok (Window.checkRank_eq_ok_iff.1 written).1 spatials).1
    have resolved := (transposedSpatial_steps spatials).1.checkRank written ofRank
    have outputPadding := (Window.checkRank_eq_ok_iff.1 resolved).2.1
    refine resolveTransposed_eq_ok_iff.2 ⟨type, requested, typed, asked, .inr ⟨rank, _, spatial,
      fit.told_again _ told ofRank.asWritten outputPadding,
      fit.checkOperands_asWritten resolved _ _, ?_, output⟩⟩
    rw [known] at spatials ⊢
    obtain ⟨given, lengths, -, extents⟩ | ⟨without, -, -, shape⟩ :=
      transposedSpatial_eq_ok_iff.1 spatials
    · exact transposedSpatial_eq_ok_iff.2 (.inl ⟨given, lengths, rfl, extents⟩)
    · exact transposedSpatial_eq_ok_iff.2 (.inr ⟨without, rfl, rfl, shape⟩)

end Conv

/-- Where a convolution resolves to known pads, the same one with the resolved window as it is
written resolves to that window and to the same output. -/
theorem Op.Resolves.resolves_asWritten {op : Op} {facts : List Fact} {r : Resolution}
    (resolves : op.Resolves facts r) (known : r.padsKnown = true) :
    ∃ op', op.withWindow? r.window.asWritten = some op' ∧
      op'.Resolves facts { r with window := r.window.asWritten } := by
  cases resolves with
  | conv resolves => exact ⟨_, rfl, .conv (Conv.resolveForward_asWritten resolves known)⟩
  | deconv resolves =>
    refine ⟨_, rfl, .deconv ?_⟩
    simp only [Conv.resolveDeconv, Checked.bind_eq_ok] at resolves ⊢
    obtain ⟨i, roles, resolves⟩ := resolves
    exact ⟨i, roles, Conv.resolveTransposed_asWritten resolves known⟩
  | fusedDeconv resolves =>
    refine ⟨_, rfl, .fusedDeconv ?_⟩
    simp only [Conv.resolveFused, Checked.bind_eq_ok] at resolves ⊢
    obtain ⟨i, roles, resolves⟩ := resolves
    exact ⟨i, roles, Conv.resolveTransposed_asWritten resolves known⟩

/-- Pads that cut eleven elements down to the ten that are asked for do so when they are written
down, and so does the one element of padding that gives a forward convolution its fourth
window. -/
theorem Op.Resolves.resolves_asWritten_oddUnit :
    (Op.deconv .convolutionBackpropData ⟨[2], [], [], [], .sameUpper, []⟩ true).Resolves
        [.typed .f32 (.ofLengths [1, 1, 5]), .typed .f32 (.ofLengths [1, 1, 3]),
          .constant (.vector [10])]
        ⟨⟨[2], [1], [1], [0], .sameUpper, [0]⟩, true, .typed .f32 (.ofLengths [1, 1, 10])⟩ ∧
      (Op.deconv .convolutionBackpropData ⟨[2], [1], [1], [0], .explicit, [0]⟩ true).Resolves
        [.typed .f32 (.ofLengths [1, 1, 5]), .typed .f32 (.ofLengths [1, 1, 3]),
          .constant (.vector [10])]
        ⟨⟨[2], [1], [1], [0], .explicit, [0]⟩, true, .typed .f32 (.ofLengths [1, 1, 10])⟩ ∧
      (Op.conv .convolution ⟨[3], [], [], [], .sameLower, []⟩).Resolves
        [.typed .f32 (.ofLengths [1, 1, 10]), .typed .f32 (.ofLengths [1, 1, 2])]
        ⟨⟨[3], [1], [1], [0], .sameLower, [0]⟩, true, .typed .f32 (.ofLengths [1, 1, 4])⟩ ∧
      (Op.conv .convolution ⟨[3], [1], [1], [0], .explicit, [0]⟩).Resolves
        [.typed .f32 (.ofLengths [1, 1, 10]), .typed .f32 (.ofLengths [1, 1, 2])]
        ⟨⟨[3], [1], [1], [0], .explicit, [0]⟩, true, .typed .f32 (.ofLengths [1, 1, 4])⟩ := by
  have resolves :
      (Op.deconv .convolutionBackpropData ⟨[2], [], [], [], .sameUpper, []⟩ true).Resolves
      [.typed .f32 (.ofLengths [1, 1, 5]), .typed .f32 (.ofLengths [1, 1, 3]),
        .constant (.vector [10])]
      ⟨⟨[2], [1], [1], [0], .sameUpper, [0]⟩, true, .typed .f32 (.ofLengths [1, 1, 10])⟩ :=
    .deconv (by decide +kernel)
  have forward : (Op.conv .convolution ⟨[3], [], [], [], .sameLower, []⟩).Resolves
      [.typed .f32 (.ofLengths [1, 1, 10]), .typed .f32 (.ofLengths [1, 1, 2])]
      ⟨⟨[3], [1], [1], [0], .sameLower, [0]⟩, true, .typed .f32 (.ofLengths [1, 1, 4])⟩ :=
    .conv (by decide +kernel)
  obtain ⟨_, ⟨⟩, again⟩ := resolves.resolves_asWritten rfl
  obtain ⟨_, ⟨⟩, forwardAgain⟩ := forward.resolves_asWritten rfl
  exact ⟨resolves, again, forward, forwardAgain⟩

end EvenPad
