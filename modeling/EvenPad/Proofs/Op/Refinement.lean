import EvenPad.Proofs.Conv.Refinement

/-!
Operators that infer from facts that tell less. Main statement: `Op.outputFact_refinedBy`, an
operator that infers an output from some facts and another from facts that tell more does not
contradict itself.
-/

namespace EvenPad

/-! ## Pads and slices -/

variable {e e' : Extent} {s s' : Shape} {axis : Nat}

/-- Operands that have to be constants are the same constants. -/
theorem Fact.RefinedBy.vector {f f' : Fact} {operand : VectorOperand} {values values' : List Int}
    (refined : f.RefinedBy f') (read : f.vector operand = .ok values)
    (read' : f'.vector operand = .ok values') : values = values' := by
  simp only [Fact.vector, Checked.bind_eq_ok, Checked.ofOption_eq_ok] at read read'
  obtain ⟨tensor, constant, rest⟩ := read
  obtain ⟨tensor', constant', rest'⟩ := read'
  have same : f.value? = f'.value? := refined.value.resolve_left (by simp [constant])
  rw [constant, constant', Option.some.injEq] at same
  subst same
  obtain ⟨_, -, _, -, integers⟩ := rest
  obtain ⟨_, -, _, -, integers'⟩ := rest'
  exact Except.ok.inj (integers.symm.trans integers')

namespace Pad

variable {data data' begins begins' ends ends' fact fact' : Fact} {value value' : Option Fact}

theorem offset_refined {delta : Int} {x x' : Extent} (refined : e.RefinedBy e')
    (grown : e.offset delta = .ok x) (grown' : e'.offset delta = .ok x') : x.RefinedBy x' :=
  refined.of_run (f := (·.offset delta)) (fun run => (Except.ok.inj run).symm) grown grown'

/-- Pads of data of an unknown rank tell the rank. -/
theorem shape_refined {before after : List Int} (refined : data.shape.RefinedBy data'.shape)
    (padded : shape data before after = .ok s) (padded' : shape data' before after = .ok s')
    (lengths : before.length = after.length) : s.RefinedBy s' := by
  unfold shape at padded padded'
  cases known : data.shape with
  | unranked =>
    simp only [known, Except.ok.injEq] at padded
    subst padded
    cases known' : data'.shape with
    | unranked =>
      simp only [known', Except.ok.injEq] at padded'
      subst padded'
      exact .refl
    | ranked extents' =>
      simp only [known', Checked.bind_eq_ok, Checked.require_eq_ok, decide_eq_true_eq,
        Checked.pure_eq_ok] at padded'
      obtain ⟨_, count, grown', each', rfl⟩ := padded'
      refine Extent.RefinedBy.replicate ?_
      rw [← (Checked.mapM_eq_ok_iff.1 each').length_eq]
      simp [count, lengths]
  | ranked extents =>
    rw [known] at refined
    cases known' : data'.shape with
    | unranked =>
      rw [known'] at refined
      exact refined.elim
    | ranked extents' =>
      rw [known'] at refined
      simp only [known, known', Checked.bind_eq_ok, Checked.pure_eq_ok] at padded padded'
      obtain ⟨_, -, grown, each, rfl⟩ := padded
      obtain ⟨_, -, grown', each', rfl⟩ := padded'
      have pads : List.Forall₂ Eq (before.zip after) (before.zip after) :=
        List.forall₂_refl _
      refine Checked.forall₂_of_mapM ?_ (forall₂_zip refined pads) each each'
      rintro ⟨e, b, a⟩ ⟨e', _⟩ x x' ⟨refines, rfl⟩ grown grown'
      exact offset_refined refines grown grown'

theorem outputFact_eq_ok_cases (output : outputFact data begins ends value = .ok fact) :
    ∃ before after s, begins.vector .padBegin = .ok before ∧ ends.vector .padEnd = .ok after ∧
      before.length = after.length ∧ shape data before after = .ok s ∧
      fact = .typed data.elementType s := by
  simp only [outputFact, Checked.bind_eq_ok, Checked.require_eq_ok, decide_eq_true_eq] at output
  obtain ⟨before, begun, after, ended, _, lengths, output⟩ := output
  cases value with
  | none =>
    simp only [Checked.bind_eq_ok, Checked.pure_eq_ok] at output
    obtain ⟨s, padded, rfl⟩ := output
    exact ⟨before, after, s, begun, ended, lengths, padded, rfl⟩
  | some v =>
    simp only [Checked.bind_eq_ok, Checked.pure_eq_ok] at output
    obtain ⟨_, -, s, padded, rfl⟩ := output
    exact ⟨before, after, s, begun, ended, lengths, padded, rfl⟩

theorem outputFact_refined (value value' : Option Fact) (datas : data.RefinedBy data')
    (firsts : begins.RefinedBy begins') (lasts : ends.RefinedBy ends')
    (output : outputFact data begins ends value = .ok fact)
    (output' : outputFact data' begins' ends' value' = .ok fact') : fact.RefinedBy fact' := by
  obtain ⟨before, after, padded, begun, ended, lengths, pads, rfl⟩ :=
    outputFact_eq_ok_cases output
  obtain ⟨before', after', padded', begun', ended', -, pads', rfl⟩ :=
    outputFact_eq_ok_cases output'
  obtain rfl : before = before' := firsts.vector begun begun'
  obtain rfl : after = after' := lasts.vector ended ended'
  exact ⟨datas.elementType, shape_refined datas.shape pads pads' lengths, .inl rfl⟩

end Pad

namespace StridedSlice

variable {data data' begins begins' ends ends' fact fact' : Fact} {strides strides' : Option Fact}
  {beginMask endMask : AxisMask}

theorem sliceExtent_refined {first last stride : Int} {x x' : Extent} (refined : e.RefinedBy e')
    (sliced : sliceExtent beginMask endMask axis e first last stride = .ok x)
    (sliced' : sliceExtent beginMask endMask axis e' first last stride = .ok x') :
    x.RefinedBy x' := by
  refine refined.of_run (f := fun e => sliceExtent beginMask endMask axis e first last stride)
    (fun run => ?_) sliced sliced'
  simp only [sliceExtent, Checked.bind_eq_ok, Checked.pure_eq_ok] at run
  obtain ⟨_, -, rfl⟩ := run
  rfl

theorem shape_refined {firsts lasts steps : List Int} (refined : s.RefinedBy s') {x x' : Shape}
    (sliced : shape beginMask endMask s firsts lasts steps = .ok x)
    (sliced' : shape beginMask endMask s' firsts lasts steps = .ok x') : x.RefinedBy x' := by
  cases s with
  | unranked =>
    cases Except.ok.inj sliced
    trivial
  | ranked extents =>
    cases s' with
    | unranked => exact refined.elim
    | ranked extents' =>
      simp only [shape, Checked.bind_eq_ok, Checked.pure_eq_ok] at sliced sliced'
      obtain ⟨_, -, selected, each, rfl⟩ := sliced
      obtain ⟨_, -, selected', each', rfl⟩ := sliced'
      have bounds :
          List.Forall₂ Eq (firsts.zip (lasts.zip steps)) (firsts.zip (lasts.zip steps)) :=
        List.forall₂_refl _
      refine List.rel_append (Checked.forall₂_of_mapM ?_
        (forall₂_zipIdx (forall₂_zip refined bounds)) each each') (List.forall₂_drop _ refined)
      rintro ⟨⟨e, first, last, stride⟩, axis⟩ ⟨⟨e', _⟩, _⟩ x x'
        ⟨⟨refines, rfl⟩, rfl⟩ sliced sliced'
      exact sliceExtent_refined refines sliced sliced'

theorem outputFact_eq_ok_cases
    (output : outputFact beginMask endMask data begins ends strides = .ok fact) :
    ∃ firsts lasts steps s, begins.vector .sliceBegin = .ok firsts ∧
      ends.vector .sliceEnd = .ok lasts ∧
      strides.elim (.ok (firsts.map fun _ => 1)) (·.vector .sliceStrides) = .ok steps ∧
      shape beginMask endMask data.shape firsts lasts steps = .ok s ∧
      fact = .typed data.elementType s := by
  simp only [outputFact, Checked.bind_eq_ok] at output
  obtain ⟨firsts, begun, lasts, ended, output⟩ := output
  cases strides with
  | none =>
    simp only [Checked.bind_eq_ok, Checked.pure_eq_ok] at output
    obtain ⟨steps, rfl, _, -, s, sliced, rfl⟩ := output
    exact ⟨firsts, lasts, _, s, begun, ended, rfl, sliced, rfl⟩
  | some f =>
    simp only [Checked.bind_eq_ok, Checked.pure_eq_ok] at output
    obtain ⟨steps, stepped, _, -, s, sliced, rfl⟩ := output
    exact ⟨firsts, lasts, steps, s, begun, ended, stepped, sliced, rfl⟩

theorem outputFact_refined (datas : data.RefinedBy data') (firsts : begins.RefinedBy begins')
    (lasts : ends.RefinedBy ends') (steps : Option.Rel Fact.RefinedBy strides strides')
    (output : outputFact beginMask endMask data begins ends strides = .ok fact)
    (output' : outputFact beginMask endMask data' begins' ends' strides' = .ok fact') :
    fact.RefinedBy fact' := by
  obtain ⟨_, _, counts, s, begun, ended, stepped, sliced, rfl⟩ := outputFact_eq_ok_cases output
  obtain ⟨_, _, counts', s', begun', ended', stepped', sliced', rfl⟩ :=
    outputFact_eq_ok_cases output'
  obtain rfl := firsts.vector begun begun'
  obtain rfl := lasts.vector ended ended'
  obtain rfl : counts = counts' := by
    cases steps with
    | none => exact Except.ok.inj (stepped.symm.trans stepped')
    | some refined => exact refined.vector stepped stepped'
  exact ⟨datas.elementType, shape_refined datas.shape sliced sliced', .inl rfl⟩

end StridedSlice

/-! ## Operators -/

/-- An operator that infers a fact from some facts and another one from facts that tell more
infers one that tells more. -/
theorem Op.outputFact_refinedBy {op : Op} {facts facts' : List Fact} {fact fact' : Fact}
    (refined : List.Forall₂ Fact.RefinedBy facts facts')
    (inferred : op.outputFact facts = .ok fact) (inferred' : op.outputFact facts' = .ok fact') :
    fact.RefinedBy fact' := by
  cases op with
  | conv kind w =>
    simp only [Op.outputFact, Checked.exceptMap_eq_ok] at inferred inferred'
    obtain ⟨r, resolves, rfl⟩ := inferred
    obtain ⟨r', resolves', rfl⟩ := inferred'
    exact Conv.resolveForward_refined refined resolves resolves'
  | deconv kind w takesOutputShape =>
    simp only [Op.outputFact, Conv.resolveDeconv, Conv.deconvInputs, Checked.exceptMap_eq_ok,
      Checked.bind_eq_ok] at inferred inferred'
    obtain ⟨r, ⟨i, ⟨_, -, roles⟩, resolves⟩, rfl⟩ := inferred
    obtain ⟨r', ⟨i', ⟨_, -, roles'⟩, resolves'⟩, rfl⟩ := inferred'
    exact Conv.resolve_refined refined roles roles' resolves resolves'
  | fusedDeconv w takesOutputShape built =>
    obtain ⟨r, resolves, rfl⟩ := fusedFact_eq_ok inferred
    obtain ⟨r', resolves', rfl⟩ := fusedFact_eq_ok inferred'
    simp only [Conv.resolveFused, Conv.fusedInputs, Checked.bind_eq_ok] at resolves resolves'
    obtain ⟨i, roles, resolves⟩ := resolves
    obtain ⟨i', roles', resolves'⟩ := resolves'
    exact Conv.resolve_refined refined roles roles' resolves resolves'
  | pad =>
    simp only [Op.outputFact] at inferred
    split at inferred
    · obtain _ | ⟨datas, _ | ⟨firsts, _ | ⟨lasts, _ | _⟩⟩⟩ := refined
      exact Pad.outputFact_refined none none datas firsts lasts inferred inferred'
    · obtain _ | ⟨datas, _ | ⟨firsts, _ | ⟨lasts, _ | ⟨_, _ | _⟩⟩⟩⟩ := refined
      exact Pad.outputFact_refined (some _) (some _) datas firsts lasts inferred inferred'
    · simp at inferred
  | stridedSlice beginMask endMask =>
    simp only [Op.outputFact] at inferred
    split at inferred
    · obtain _ | ⟨datas, _ | ⟨firsts, _ | ⟨lasts, _ | _⟩⟩⟩ := refined
      exact StridedSlice.outputFact_refined datas firsts lasts .none inferred inferred'
    · obtain _ | ⟨datas, _ | ⟨firsts, _ | ⟨lasts, _ | ⟨steps, _ | _⟩⟩⟩⟩ := refined
      exact StridedSlice.outputFact_refined datas firsts lasts (.some steps) inferred inferred'
    · simp at inferred
  | const t =>
    cases Except.ok.inj inferred
    cases Except.ok.inj inferred'
    exact .refl
  | source f =>
    simp only [Op.outputFact] at inferred inferred'
    split at inferred
    · split at inferred'
      · cases Except.ok.inj inferred
        cases Except.ok.inj inferred'
        exact .refl
      · simp at inferred'
    · simp at inferred

/-- Three elements with a zero after them, two at a time, once the number of elements is known. -/
theorem Op.outputFact_refinedBy_conv :
    List.Forall₂ Fact.RefinedBy
        [.typed .f32 (.ranked [.dynamic, .fixed 1, .dynamic]), .typed .f32 .unranked]
        [.typed .f32 (.ofLengths [1, 1, 3]), .typed .f32 (.ofLengths [1, 1, 2])] ∧
      (Op.conv .convolution ⟨[2], [], [0], [1], .explicit, []⟩).outputFact
        [.typed .f32 (.ranked [.dynamic, .fixed 1, .dynamic]), .typed .f32 .unranked] =
          .ok (.typed .f32 (.ranked [.dynamic, .dynamic, .dynamic])) ∧
      (Op.conv .convolution ⟨[2], [], [0], [1], .explicit, []⟩).outputFact
        [.typed .f32 (.ofLengths [1, 1, 3]), .typed .f32 (.ofLengths [1, 1, 2])] =
          .ok (.typed .f32 (.ofLengths [1, 1, 2])) ∧
      (Fact.typed .f32 (.ranked [.dynamic, .dynamic, .dynamic])).RefinedBy
        (.typed .f32 (.ofLengths [1, 1, 2])) := by
  have refined : List.Forall₂ Fact.RefinedBy
      [.typed .f32 (.ranked [.dynamic, .fixed 1, .dynamic]), .typed .f32 .unranked]
      [.typed .f32 (.ofLengths [1, 1, 3]), .typed .f32 (.ofLengths [1, 1, 2])] := by decide
  have inferred : (Op.conv .convolution ⟨[2], [], [0], [1], .explicit, []⟩).outputFact
      [.typed .f32 (.ranked [.dynamic, .fixed 1, .dynamic]), .typed .f32 .unranked] =
        .ok (.typed .f32 (.ranked [.dynamic, .dynamic, .dynamic])) := rfl
  have inferred' : (Op.conv .convolution ⟨[2], [], [0], [1], .explicit, []⟩).outputFact
      [.typed .f32 (.ofLengths [1, 1, 3]), .typed .f32 (.ofLengths [1, 1, 2])] =
        .ok (.typed .f32 (.ofLengths [1, 1, 2])) := rfl
  exact ⟨refined, inferred, inferred', Op.outputFact_refinedBy refined inferred inferred'⟩

end EvenPad
