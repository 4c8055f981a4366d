import EvenPad.Conv.Forward
import EvenPad.Conv.Transposed
import EvenPad.Proofs.Edit

/-!
Resolving a convolution, check by check. Either nothing tells the number of spatial axes, or the
operands fit one and pads and extents follow (`Conv.resolveForward_eq_ok_iff`,
`Conv.resolveTransposed_eq_ok_iff`). A transposed convolution has the extents that it is asked
for, or those that its window leaves (`Conv.transposedSpatial_eq_ok_iff`).
-/

namespace EvenPad.Conv

variable {kind : ConvKind} {t : ConvTraits} {w : Window} {data filters : Fact}
  {outputShape : Option Fact} {facts : List Fact} {r : Resolution}

/-- A forward convolution takes data and filters. -/
theorem operands_of_resolveForward (resolves : resolveForward kind w facts = .ok r) :
    ∃ data filters, facts = [data, filters] := by
  simp only [resolveForward, Checked.bind_eq_ok] at resolves
  obtain ⟨_, -, resolves⟩ := resolves
  split at resolves
  · exact ⟨_, _, rfl⟩
  · exact absurd resolves Checked.refuse_ne_ok

theorem resolveForward_eq_ok_iff : resolveForward kind w [data, filters] = .ok r ↔
    kind.traits.transposed = false ∧ ∃ type, elementType data filters = .ok type ∧
      (spatialRank? kind.traits w data filters = none ∧
        r = ⟨w, !w.mode.isSame, .typed type .unranked⟩ ∨
        ∃ rank operands spatial, spatialRank? kind.traits w data filters = some rank ∧
          checkOperands kind.traits w data filters rank
            (fun count => .forwardFilterRank kind count rank)
            (.forwardChannels kind) = .ok operands ∧
          forwardPads operands.window operands.input operands.kernel =
            .ok (r.window, r.padsKnown) ∧
          (if r.padsKnown then r.window.forwardShape operands.input operands.kernel = .ok spatial
            else spatial = List.replicate rank .dynamic) ∧
          outputFact kind.traits type data filters spatial = .ok r.fact) := by
  obtain ⟨window, padsKnown, fact⟩ := r
  cases told : spatialRank? kind.traits w data filters with
  | none =>
    simp only [resolveForward, told, Checked.bind_eq_ok, Checked.require_eq_ok,
      Checked.pure_eq_ok, Bool.not_eq_true']
    constructor
    · rintro ⟨_, direction, type, typed, resolved⟩
      exact ⟨direction, type, typed, .inl ⟨trivial, resolved.symm⟩⟩
    · rintro ⟨direction, type, typed, ⟨-, resolved⟩ | ⟨_, _, _, known, -⟩⟩
      · exact ⟨⟨⟩, direction, type, typed, resolved.symm⟩
      · simp at known
  | some rank =>
    simp only [resolveForward, told, Checked.bind_eq_ok, Checked.require_eq_ok,
      Bool.not_eq_true', Prod.exists]
    constructor
    · rintro ⟨_, direction, type, typed, operands, checked, _, _, pads, resolves⟩
      refine ⟨direction, type, typed, .inr ⟨rank, operands, ?_⟩⟩
      split at resolves
      · next known =>
        simp only [Checked.bind_eq_ok, Checked.pure_eq_ok, Resolution.mk.injEq] at resolves
        obtain ⟨spatial, shape, _, output, rfl, rfl, rfl⟩ := resolves
        exact ⟨spatial, rfl, checked, pads, by rwa [if_pos known], output⟩
      · next unknown =>
        simp only [Checked.bind_eq_ok, Checked.pure_eq_ok, Resolution.mk.injEq] at resolves
        obtain ⟨spatial, rfl, _, output, rfl, rfl, rfl⟩ := resolves
        exact ⟨_, rfl, checked, pads, by rw [if_neg unknown], output⟩
    · rintro ⟨direction, type, typed,
        ⟨unknown, -⟩ | ⟨_, operands, spatial, same, checked, pads, shape, output⟩⟩
      · simp at unknown
      · cases same
        refine ⟨⟨⟩, direction, type, typed, operands, checked, window, padsKnown, pads, ?_⟩
        cases padsKnown with
        | true =>
          simp only [if_true, Checked.bind_eq_ok, Checked.pure_eq_ok]
          exact ⟨spatial, by simpa using shape, fact, output, rfl⟩
        | false =>
          obtain rfl : spatial = List.replicate rank .dynamic := by simpa using shape
          simp only [Bool.false_eq_true, if_false, Checked.bind_eq_ok, Checked.pure_eq_ok]
          exact ⟨_, rfl, fact, output, rfl⟩

theorem resolveTransposed_eq_ok_iff : resolveTransposed t w data filters outputShape = .ok r ↔
    ∃ type requested, elementType data filters = .ok type ∧
      requestedShape? outputShape = .ok requested ∧
      ((spatialRank? t w data filters).or (requested.map List.length) = none ∧
          r = ⟨w, w.mode = .explicit, .typed type .unranked⟩ ∨
        ∃ rank operands spatial,
          (spatialRank? t w data filters).or (requested.map List.length) = some rank ∧
          checkOperands t w data filters rank
            (fun count => .transposedFilterRank count rank) .transposedChannels =
            .ok operands ∧
          transposedSpatial operands rank outputShape.isSome requested =
            .ok (r.window, r.padsKnown, spatial) ∧
          outputFact t type data filters spatial = .ok r.fact) := by
  obtain ⟨window, padsKnown, fact⟩ := r
  simp only [resolveTransposed, Checked.bind_eq_ok]
  refine exists_congr fun type => ?_
  rw [← exists_and_left]
  refine exists_congr fun requested => and_congr_right fun _ => and_congr_right fun _ => ?_
  cases told : (spatialRank? t w data filters).or (requested.map List.length) with
  | none => simp [eq_comm]
  | some rank =>
    simp only [Checked.bind_eq_ok, Checked.pure_eq_ok, Prod.exists, Resolution.mk.injEq]
    constructor
    · rintro ⟨operands, checked, _, _, spatial, spatials, _, output, rfl, rfl, rfl⟩
      exact .inr ⟨rank, operands, spatial, rfl, checked, spatials, output⟩
    · rintro (⟨unknown, -⟩ | ⟨_, operands, spatial, same, checked, spatials, output⟩)
      · simp at unknown
      · cases same
        exact ⟨operands, checked, window, padsKnown, spatial, spatials, fact,
          output, rfl, rfl, rfl⟩

/-- The extents of a transposed convolution are those that it is asked for, or else those that its
window leaves. -/
theorem transposedSpatial_eq_ok_iff {operands : Operands} {rank : Nat}
    {hasOutputShape padsKnown : Bool} {requested : Option (List Nat)} {spatial : List Extent} :
    transposedSpatial operands rank hasOutputShape requested = .ok (w, padsKnown, spatial) ↔
      hasOutputShape = true ∧ (∀ wanted, requested = some wanted → wanted.length = rank) ∧
          requestedPads operands requested = .ok (w, padsKnown) ∧
          spatial = requested.elim (List.replicate rank .dynamic) (·.map .fixed) ∨
        hasOutputShape = false ∧ padsKnown = true ∧
          w = (if operands.window.mode = .explicit then operands.window
            else operands.window.clearPads) ∧
          w.transposedShape operands.input operands.kernel = .ok spatial := by
  cases hasOutputShape with
  | true =>
    cases requested with
    | none =>
      simp only [transposedSpatial, if_true, Checked.bind_eq_ok, Checked.pure_eq_ok,
        Prod.mk.injEq, Prod.exists]
      constructor
      · rintro ⟨_, _, pads, rfl, rfl, rfl⟩
        exact .inl ⟨trivial, by simp, pads, rfl⟩
      · rintro (⟨-, -, pads, rfl⟩ | ⟨without, -⟩)
        · exact ⟨_, _, pads, rfl, rfl, rfl⟩
        · simp at without
    | some wanted =>
      simp only [transposedSpatial, if_true, Checked.bind_eq_ok, Checked.require_eq_ok,
        decide_eq_true_eq, Checked.pure_eq_ok, Prod.mk.injEq, Prod.exists]
      constructor
      · rintro ⟨_, length, _, _, pads, rfl, rfl, rfl⟩
        exact .inl ⟨trivial, by simpa using length, pads, rfl⟩
      · rintro (⟨-, length, pads, rfl⟩ | ⟨without, -⟩)
        · exact ⟨⟨⟩, length _ rfl, _, _, pads, rfl, rfl, rfl⟩
        · simp at without
  | false =>
    simp only [transposedSpatial, Bool.false_eq_true, if_false, Checked.bind_eq_ok,
      Checked.pure_eq_ok, Prod.mk.injEq]
    constructor
    · rintro ⟨_, shape, rfl, rfl, rfl⟩
      exact .inr ⟨trivial, rfl, rfl, shape⟩
    · rintro (⟨given, -⟩ | ⟨-, rfl, rfl, shape⟩)
      · exact given.elim
      · exact ⟨_, shape, rfl, rfl, rfl⟩

/-- A transposed convolution takes an output shape after data and filters, or does not. -/
theorem resolveDeconv_eq_ok_iff (outputShape : Option Fact) :
    resolveDeconv kind w outputShape.isSome (data :: filters :: outputShape.toList) = .ok r ↔
      (kind = .convolutionBackpropData ∨ kind = .groupConvolutionBackpropData) ∧
        resolveTransposed { kind.traits with takesOutputShape := outputShape.isSome }
          w data filters outputShape = .ok r := by
  simp only [resolveDeconv, deconvInputs, Checked.bind_eq_ok, Checked.require_eq_ok,
    Bool.or_eq_true, decide_eq_true_eq]
  constructor
  · rintro ⟨inputs, ⟨_, transposed, roles⟩, resolves⟩
    refine ⟨transposed, ?_⟩
    have addend : kind.traits.takesAddend = false := by
      obtain rfl | rfl := transposed <;> rfl
    cases outputShape <;>
    · simp only [transposedInputs, addend] at roles
      cases Except.ok.inj roles
      exact resolves
  · rintro ⟨transposed, resolves⟩
    have addend : kind.traits.takesAddend = false := by
      obtain rfl | rfl := transposed <;> rfl
    refine ⟨⟨data, filters, outputShape, none⟩, ⟨⟨⟩, transposed, ?_⟩, resolves⟩
    cases outputShape <;> simp [transposedInputs, addend]

end EvenPad.Conv
