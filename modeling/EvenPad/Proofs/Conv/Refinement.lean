import EvenPad.Proofs.Conv.Resolve
import EvenPad.Proofs.Refinement

/-!
Convolutions infer less from operands that tell less (`Conv.resolveForward_refined` and
`Conv.resolve_refined`). What has to be seen is that a convolution counts its spatial axes alike,
wherever the number comes from (`Conv.spatialRank_eq`), and, where its pads are known, pads alike
(`Conv.forwardPads_refined`).
-/

namespace EvenPad

/-! ## Axes of a window -/

variable {e e' k k' : Extent} {filters filters' : Shape} {axis rank rank' : Nat} {t : ConvTraits}

namespace Window

variable {w : Window} {a : Axis} {input input' kernel kernel' spatial spatial' : List Extent}

theorem Axis.forwardExtent_refined {x x' : Extent} (input : e.RefinedBy e')
    (kernel : k.RefinedBy k') (extent : a.forwardExtent axis e k = .ok x)
    (extent' : a.forwardExtent axis e' k' = .ok x') :
    x.RefinedBy x' := by
  refine input.of_run₂ kernel ?_ ?_ extent extent'
  · intro k x extent
    simp only [forwardExtent, Checked.bind_eq_ok, Checked.pure_eq_ok] at extent
    obtain ⟨_, -, _, -, rfl⟩ := extent
    rfl
  · intro e x extent
    cases e <;>
    · simp only [forwardExtent, Checked.bind_eq_ok, Checked.pure_eq_ok] at extent
      obtain ⟨_, -, _, -, rfl⟩ := extent
      rfl

theorem Axis.transposedExtent_refined {outputPadding : Int} {x x' : Extent}
    (input : e.RefinedBy e') (kernel : k.RefinedBy k')
    (extent : a.transposedExtent outputPadding axis e k = .ok x)
    (extent' : a.transposedExtent outputPadding axis e' k' = .ok x') : x.RefinedBy x' := by
  refine input.of_run₂ kernel ?_ ?_ extent extent'
  · exact fun extent => (Except.ok.inj extent).symm
  · intro e x extent
    cases e <;> exact (Except.ok.inj extent).symm

variable (inputs : List.Forall₂ Extent.RefinedBy input input')
  (kernels : List.Forall₂ Extent.RefinedBy kernel kernel')
include inputs kernels

theorem forwardShape_refined (shape : w.forwardShape input kernel = .ok spatial)
    (shape' : w.forwardShape input' kernel' = .ok spatial') :
    List.Forall₂ Extent.RefinedBy spatial spatial' := by
  simp only [forwardShape, Checked.bind_eq_ok] at shape shape'
  obtain ⟨_, -, extents⟩ := shape
  obtain ⟨_, -, extents'⟩ := shape'
  have axes : List.Forall₂ Eq w.axes w.axes := List.forall₂_refl _
  refine Checked.forall₂_of_mapM ?_
    (forall₂_zipIdx (forall₂_zip axes (forall₂_zip inputs kernels)))
    extents extents'
  rintro ⟨⟨a, e, k⟩, axis⟩ ⟨⟨_, e', k'⟩, _⟩ x x' ⟨⟨rfl, input, kernel⟩, rfl⟩ extent extent'
  exact a.forwardExtent_refined input kernel extent extent'

theorem transposedShape_refined (shape : w.transposedShape input kernel = .ok spatial)
    (shape' : w.transposedShape input' kernel' = .ok spatial') :
    List.Forall₂ Extent.RefinedBy spatial spatial' := by
  simp only [transposedShape, Checked.bind_eq_ok] at shape shape'
  obtain ⟨_, -, extents⟩ := shape
  obtain ⟨_, -, extents'⟩ := shape'
  have steps : List.Forall₂ Eq (w.axes.zip w.outputPadding) (w.axes.zip w.outputPadding) :=
    List.forall₂_refl _
  refine Checked.forall₂_of_mapM ?_
    (forall₂_zipIdx (forall₂_zip steps (forall₂_zip inputs kernels)))
    extents extents'
  rintro ⟨⟨⟨a, outputPadding⟩, e, k⟩, axis⟩ ⟨⟨_, e', k'⟩, _⟩ x x' ⟨⟨rfl, input, kernel⟩, rfl⟩
    extent extent'
  exact a.transposedExtent_refined input kernel extent extent'

end Window

/-! ## Convolutions -/

namespace Conv

variable {w window window' : Window} {data data' kernels kernels' fact fact' : Fact}
  {input input' kernel kernel' spatial spatial' : List Extent} {type : ElementType}
  {padsKnown padsKnown' : Bool} {operands operands' : Operands}
  {requested requested' : Option (List Nat)}

theorem channelsAt_refined {second : Bool} (refined : filters.RefinedBy filters')
    (channels : t.channelsAt filters second = .ok e)
    (channels' : t.channelsAt filters' second = .ok e') :
    e.RefinedBy e' := by
  simp only [ConvTraits.channelsAt, Checked.bind_eq_ok] at channels channels'
  obtain ⟨perGroup, found, channels⟩ := channels
  obtain ⟨perGroup', found', channels'⟩ := channels'
  have refines := refined.extentAt found found'
  by_cases grouped : t.grouped = true
  · simp only [grouped, Bool.not_true, Bool.false_eq_true, if_false, Checked.bind_eq_ok]
      at channels channels'
    obtain ⟨groups, counted, channels⟩ := channels
    obtain ⟨groups', counted', channels'⟩ := channels'
    rcases refined.extentAt counted counted' with rfl | rfl
    · exact .inl (Checked.pure_eq_ok.1 channels).symm
    rcases refines with rfl | rfl
    · cases groups <;> exact .inl (Checked.pure_eq_ok.1 channels).symm
    · exact .inr (Except.ok.inj (channels.symm.trans channels'))
  · simp only [grouped, Bool.not_false, if_true, Checked.pure_eq_ok] at channels channels'
    rw [← channels, ← channels']
    exact refines

/-- The fact of an output tells no more than that of refined operands. -/
theorem outputFact_refined (datas : data.shape.RefinedBy data'.shape)
    (filters : kernels.shape.RefinedBy kernels'.shape)
    (extents : List.Forall₂ Extent.RefinedBy spatial spatial')
    (output : outputFact t type data kernels spatial = .ok fact)
    (output' : outputFact t type data' kernels' spatial' = .ok fact') : fact.RefinedBy fact' := by
  simp only [outputFact, Checked.bind_eq_ok, Checked.pure_eq_ok] at output output'
  obtain ⟨batch, batchAt, channels, channelsAt, rfl⟩ := output
  obtain ⟨batch', batchAt', channels', channelsAt', rfl⟩ := output'
  exact ⟨rfl, .cons (datas.extentAt batchAt batchAt')
    (.cons (channelsAt_refined filters channelsAt channelsAt') extents), .inl rfl⟩

theorem elementType_of_outputFact (output : outputFact t type data kernels spatial = .ok fact) :
    fact.elementType = type := by
  simp only [outputFact, Checked.bind_eq_ok, Checked.pure_eq_ok] at output
  obtain ⟨_, -, _, -, rfl⟩ := output
  rfl

theorem elementType_eq (datas : data.RefinedBy data') (filters : kernels.RefinedBy kernels') :
    elementType data kernels = elementType data' kernels' := by
  rw [elementType, elementType, datas.elementType, filters.elementType]

/-! ### The number of spatial axes -/

theorem isSome_spatialRank? (datas : data.shape.RefinedBy data'.shape)
    (filters : kernels.shape.RefinedBy kernels'.shape)
    (told : (spatialRank? t w data kernels).isSome) :
    (spatialRank? t w data' kernels').isSome := by
  simp only [spatialRank?, Option.isSome_or, Option.isSome_map, Bool.or_eq_true,
    Option.isSome_iff_exists] at told ⊢
  exact told.imp (fun ⟨count, known⟩ => ⟨count, datas.of_rank known⟩)
    (Or.imp_left fun ⟨count, known⟩ => ⟨count, filters.of_rank known⟩)

/-- A window that fits a number of axes tells that number, if it tells any. -/
theorem spatialRank_of_withDefaults (ofRank : (w.withDefaults rank').OfRank rank')
    (padding : (w.withDefaults rank').outputPadding.length = rank')
    (told : w.spatialRank? = some rank) : rank = rank' := by
  have written {α : Type} {l : List α} {a : α}
      (length : (if l.isEmpty then List.replicate rank' a else l).length =
        rank') (pos : 0 < l.length) :
      l.length = rank' := by
    cases l with
    | nil => simp at pos
    | cons => simpa using length
  obtain ⟨pos, found⟩ : 0 < rank ∧
      rank ∈ [w.strides.length, w.dilations.length, w.padsBegin.length,
      w.padsEnd.length, w.outputPadding.length] :=
    ⟨by simpa using List.find?_some told, List.mem_of_find?_eq_some told⟩
  simp only [List.mem_cons, List.not_mem_nil, or_false] at found
  obtain rfl | rfl | rfl | rfl | rfl := found
  · exact written ofRank.strides pos
  · exact written ofRank.dilations pos
  · exact written ofRank.padsBegin pos
  · exact written ofRank.padsEnd pos
  · exact written padding pos

/-- Whatever tells the number of spatial axes tells the one that fits operands of which more is
known. -/
theorem spatialRank_eq {filterRank : Nat → Cause} {channels : Extent → Extent → Cause}
    (datas : data.shape.RefinedBy data'.shape) (filters : kernels.shape.RefinedBy kernels'.shape)
    (told : spatialRank? t w data kernels = some rank)
    (checked : checkOperands t w data' kernels' rank' filterRank channels = .ok operands) :
    rank = rank' := by
  obtain ⟨fit, -, ranked⟩ := checkOperands_eq_ok_iff.1 checked
  obtain ⟨ofRank, padding, -⟩ := Window.checkRank_eq_ok_iff.1 ranked
  have dataRank : data'.rank?.all (· = 2 + rank') = true := Shape.rank?_of_tail fit.input
  have filterRank := fit.filterRank
  unfold spatialRank? at told
  cases known : data.rank? with
  | some count =>
    have known' : data'.rank? = some count := datas.of_rank known
    obtain rfl : count = 2 + rank' := by simpa [known'] using dataRank
    have same : 2 + rank' - 2 = rank := by simpa [known] using told
    omega
  | none =>
    cases known₂ : kernels.rank? with
    | some count =>
      have known' : kernels'.rank? = some count := filters.of_rank known₂
      obtain rfl : count = rank' + t.leadingFilterAxes := by simpa [known'] using filterRank
      have same : rank' + t.leadingFilterAxes - t.leadingFilterAxes = rank := by
        simpa [known, known₂] using told
      omega
    | none =>
      exact spatialRank_of_withDefaults ofRank padding (by simpa [known, known₂] using told)

/-- Operands that fit the same number of axes. -/
theorem checkOperands_refined {filterRank filterRank' : Nat → Cause}
    {channels channels' : Extent → Extent → Cause}
    (datas : data.shape.RefinedBy data'.shape) (filters : kernels.shape.RefinedBy kernels'.shape)
    (checked : checkOperands t w data kernels rank filterRank channels = .ok operands)
    (checked' : checkOperands t w data' kernels' rank filterRank' channels' = .ok operands') :
    operands.window = operands'.window ∧
      List.Forall₂ Extent.RefinedBy operands.input operands'.input ∧
      List.Forall₂ Extent.RefinedBy operands.kernel operands'.kernel := by
  obtain ⟨fit, windowEq, -⟩ := checkOperands_eq_ok_iff.1 checked
  obtain ⟨fit', windowEq', -⟩ := checkOperands_eq_ok_iff.1 checked'
  exact ⟨windowEq.trans windowEq'.symm, datas.tail fit.input fit'.input,
    filters.tail fit.kernel fit'.kernel⟩

/-- Pads that are known stay so. In a SAME mode they are known when every extent is that they hang
on, and then the extents are the same. -/
theorem forwardPads_refined (inputs : List.Forall₂ Extent.RefinedBy input input')
    (filters : List.Forall₂ Extent.RefinedBy kernel kernel')
    (pads : forwardPads w input kernel = .ok (window, true))
    (pads' : forwardPads w input' kernel' = .ok (window', padsKnown')) :
    window = window' ∧ padsKnown' = true := by
  unfold forwardPads at pads pads'
  cases mode : w.mode with
  | explicit =>
    simp only [mode, Except.ok.injEq, Prod.mk.injEq] at pads pads'
    exact ⟨pads.1.symm.trans pads'.1, pads'.2.symm⟩
  | valid =>
    simp only [mode, Except.ok.injEq, Prod.mk.injEq] at pads pads'
    exact ⟨pads.1.symm.trans pads'.1, pads'.2.symm⟩
  -- the two SAME modes
  | _ =>
    simp only [mode, forwardSamePads, Checked.bind_eq_ok, Checked.pure_eq_ok, Prod.mk.injEq]
      at pads pads'
    obtain ⟨found, each, rfl, all⟩ := pads
    obtain ⟨found', each', rfl, all'⟩ := pads'
    have axes : List.Forall₂ Eq w.axes w.axes := List.forall₂_refl _
    have same : List.Forall₂
        (fun s s' : Option Window.SameAxis => s.isSome → s = s') found found' := by
      refine Checked.forall₂_of_mapM ?_ (forall₂_zip axes (forall₂_zip inputs filters)) each each'
      rintro ⟨a, e, k⟩ ⟨_, e', k'⟩ s s' ⟨rfl, input, kernel⟩ pad pad' isSome
      cases e with
      | dynamic =>
        rw [← Except.ok.inj pad] at isSome
        simp at isSome
      | fixed i =>
        cases k with
        | dynamic =>
          rw [← Except.ok.inj pad] at isSome
          simp at isSome
        | fixed f =>
          rw [input.of_fixed, kernel.of_fixed] at pad'
          exact Except.ok.inj (pad.symm.trans pad')
    obtain rfl : found = found' := by
      rw [← List.forall₂_eq_eq_eq]
      rw [List.all_eq_true] at all
      exact ((List.forall₂_and_left _ _).2 ⟨all, same⟩).imp fun _ _ both => both.2 both.1
    exact ⟨rfl, all'.symm.trans all⟩

/-- A forward convolution tells less of its output from operands that tell less. -/
theorem resolveForward_refined {kind : ConvKind} {r r' : Resolution} {facts facts' : List Fact}
    (refined : List.Forall₂ Fact.RefinedBy facts facts')
    (resolves : resolveForward kind w facts = .ok r)
    (resolves' : resolveForward kind w facts' = .ok r') : r.fact.RefinedBy r'.fact := by
  obtain ⟨data, kernels, rfl⟩ := operands_of_resolveForward resolves
  obtain ⟨data', kernels', rfl⟩ := operands_of_resolveForward resolves'
  obtain ⟨datas, ⟨filters, -⟩⟩ := (List.forall₂_cons.1 refined).imp_right List.forall₂_cons.1
  obtain ⟨-, type, typed, cases⟩ := resolveForward_eq_ok_iff.1 resolves
  obtain ⟨-, type', typed', cases'⟩ := resolveForward_eq_ok_iff.1 resolves'
  obtain rfl : type = type' := by
    rw [elementType_eq datas filters, typed'] at typed
    exact (Except.ok.inj typed).symm
  rcases cases with ⟨-, unranked⟩ | ⟨rank, operands, spatial, told, checked, pads, shape, output⟩
  · rw [unranked]
    refine .of_unranked ?_
    rcases cases' with ⟨-, unranked'⟩ | ⟨_, _, _, -, -, -, -, output'⟩
    · rw [unranked', Fact.typed]
    · exact elementType_of_outputFact output'
  rcases cases' with
    ⟨unknown, -⟩ | ⟨rank', operands', spatial', told', checked', pads', shape', output'⟩
  · have known := isSome_spatialRank? datas.shape filters.shape (Option.isSome_of_eq_some told)
    simp [unknown] at known
  obtain rfl := spatialRank_eq datas.shape filters.shape told checked'
  obtain ⟨windowEq, inputs, spread⟩ :=
    checkOperands_refined datas.shape filters.shape checked checked'
  refine outputFact_refined datas.shape filters.shape ?_ output output'
  cases known : r.padsKnown with
  | true =>
    rw [windowEq, known] at pads
    obtain ⟨same, known'⟩ := forwardPads_refined inputs spread pads pads'
    rw [if_pos known, same] at shape
    rw [if_pos known'] at shape'
    exact Window.forwardShape_refined inputs spread shape shape'
  | false =>
    obtain rfl : spatial = List.replicate rank .dynamic := by simpa [known] using shape
    refine Extent.RefinedBy.replicate ?_
    cases known' : r'.padsKnown with
    | true =>
      rw [if_pos known'] at shape'
      rw [(Window.forwardShape_eq_ok shape').2.2.1]
      exact Shape.length_of_tail (checkOperands_eq_ok_iff.1 checked').1.input
    | false =>
      obtain rfl : spatial' = List.replicate rank .dynamic := by simpa [known'] using shape'
      rw [List.length_replicate]

/-! ### Transposed convolutions -/

/-- A shape that an input asks for stays the same. -/
theorem requestedShape?_refined {outputShape outputShape' : Option Fact}
    (shapes : Option.Rel Fact.RefinedBy outputShape outputShape')
    (asked : requestedShape? outputShape = .ok requested)
    (asked' : requestedShape? outputShape' = .ok requested') :
    requested = none ∨ requested = requested' := by
  cases shapes with
  | none => exact .inl (Except.ok.inj asked).symm
  | @some f f' refined =>
    rw [requestedShape?, requestedShape] at asked asked'
    rcases refined.value with unknown | same
    · rw [unknown] at asked
      exact .inl (Except.ok.inj asked).symm
    · rw [same] at asked
      exact .inr (Except.ok.inj (asked.symm.trans asked'))

/-- A transposed convolution that is asked for a shape has it, or as many axes of which nothing is
known. -/
theorem transposedSpatial_asked {hasOutputShape : Bool}
    (spatials : transposedSpatial operands rank hasOutputShape requested =
      .ok (window, padsKnown, spatial)) (asked : hasOutputShape = true) :
    spatial.length = rank ∧
      spatial = requested.elim (List.replicate rank .dynamic) (·.map .fixed) := by
  obtain ⟨-, lengths, -, rfl⟩ | ⟨without, -⟩ := transposedSpatial_eq_ok_iff.1 spatials
  · refine ⟨?_, rfl⟩
    cases requested with
    | none => exact List.length_replicate
    | some wanted => exact (List.length_map _).trans (lengths wanted rfl)
  · simp [without] at asked

theorem transposedSpatial_refined {hasOutputShape : Bool}
    (windowEq : operands.window = operands'.window)
    (inputs : List.Forall₂ Extent.RefinedBy operands.input operands'.input)
    (filters : List.Forall₂ Extent.RefinedBy operands.kernel operands'.kernel)
    (asks : requested = none ∨ requested = requested')
    (spatials : transposedSpatial operands rank hasOutputShape requested =
      .ok (window, padsKnown, spatial))
    (spatials' : transposedSpatial operands' rank hasOutputShape requested' =
      .ok (window', padsKnown', spatial')) : List.Forall₂ Extent.RefinedBy spatial spatial' := by
  cases hasOutputShape with
  | true =>
    obtain ⟨-, told⟩ := transposedSpatial_asked spatials rfl
    obtain ⟨length', told'⟩ := transposedSpatial_asked spatials' rfl
    rcases asks with rfl | rfl
    · rw [told]
      exact Extent.RefinedBy.replicate length'
    · rw [told, told']
      exact Extent.RefinedBy.all_refl
  | false =>
    simp only [transposedSpatial, Bool.false_eq_true, if_false, Checked.bind_eq_ok,
      Checked.pure_eq_ok, Prod.mk.injEq] at spatials spatials'
    obtain ⟨_, shape, -, -, rfl⟩ := spatials
    obtain ⟨_, shape', -, -, rfl⟩ := spatials'
    rw [windowEq] at shape
    exact Window.transposedShape_refined inputs filters shape shape'

/-- The number of spatial axes may also be that of the shape that is asked for. -/
theorem transposedRank_eq {filterRank : Nat → Cause} {channels : Extent → Extent → Cause}
    {outputShape : Option Fact} (datas : data.shape.RefinedBy data'.shape)
    (filters : kernels.shape.RefinedBy kernels'.shape)
    (asks : requested = none ∨ requested = requested')
    (told : (spatialRank? t w data kernels).or (requested.map List.length) = some rank)
    (asked : requestedShape? outputShape = .ok requested')
    (checked : checkOperands t w data' kernels' rank' filterRank channels = .ok operands)
    (spatials : transposedSpatial operands rank' outputShape.isSome requested' =
      .ok (window, padsKnown, spatial)) : rank = rank' := by
  rcases Option.or_eq_some_iff.1 told with told | ⟨-, told⟩
  · exact spatialRank_eq datas filters told checked
  · obtain ⟨wanted, rfl, rfl⟩ := Option.map_eq_some_iff.1 told
    obtain rfl : some wanted = requested' := asks.resolve_left (by simp)
    have isSome : outputShape.isSome = true := by
      cases outputShape with
      | none => simp [requestedShape?] at asked
      | some f => rfl
    obtain ⟨length, rfl⟩ := transposedSpatial_asked spatials isSome
    simpa using length

/-- A transposed convolution tells less of its output from operands that tell less. -/
theorem resolveTransposed_refined {r r' : Resolution} {outputShape outputShape' : Option Fact}
    (datas : data.RefinedBy data') (filters : kernels.RefinedBy kernels')
    (shapes : Option.Rel Fact.RefinedBy outputShape outputShape')
    (resolves : resolveTransposed t w data kernels outputShape = .ok r)
    (resolves' : resolveTransposed t w data' kernels' outputShape' = .ok r') :
    r.fact.RefinedBy r'.fact := by
  obtain ⟨type, requested, typed, asked, cases⟩ := resolveTransposed_eq_ok_iff.1 resolves
  obtain ⟨type', requested', typed', asked', cases'⟩ := resolveTransposed_eq_ok_iff.1 resolves'
  obtain rfl : type = type' := by
    rw [elementType_eq datas filters, typed'] at typed
    exact (Except.ok.inj typed).symm
  have asks := requestedShape?_refined shapes asked asked'
  rcases cases with ⟨-, unranked⟩ | ⟨rank, operands, spatial, told, checked, spatials, output⟩
  · rw [unranked]
    refine .of_unranked ?_
    rcases cases' with ⟨-, unranked'⟩ | ⟨_, _, _, -, -, -, output'⟩
    · rw [unranked', Fact.typed]
    · exact elementType_of_outputFact output'
  rcases cases' with
    ⟨unknown, -⟩ | ⟨rank', operands', spatial', told', checked', spatials', output'⟩
  · obtain ⟨unknown, unasked⟩ := Option.or_eq_none_iff.1 unknown
    rcases Option.or_eq_some_iff.1 told with told | ⟨-, told⟩
    · have known := isSome_spatialRank? datas.shape filters.shape (Option.isSome_of_eq_some told)
      simp [unknown] at known
    · rcases asks with rfl | rfl
      · simp at told
      · simp [unasked] at told
  obtain rfl := transposedRank_eq datas.shape filters.shape asks told asked' checked' spatials'
  obtain ⟨windowEq, inputs, spread⟩ :=
    checkOperands_refined datas.shape filters.shape checked checked'
  have given : outputShape.isSome = outputShape'.isSome := by
    cases shapes <;> rfl
  rw [← given] at spatials'
  have extents := transposedSpatial_refined windowEq inputs spread asks spatials spatials'
  exact outputFact_refined datas.shape filters.shape extents output output'

/-- The inputs of a transposed convolution have their roles by their positions. -/
theorem transposedInputs_eq_ok {kind : ConvKind} {facts : List Fact} {i : TransposedInputs}
    (roles : transposedInputs kind t facts = .ok i) :
    facts[0]? = some i.data ∧ facts[1]? = some i.filters ∧
      i.outputShape = if t.takesOutputShape then facts[2]? else none := by
  unfold transposedInputs at roles
  split at roles
  case h_5 => simp at roles
  all_goals
    next takes _ =>
    cases Except.ok.inj roles
    simp [takes]

theorem resolve_refined {kind : ConvKind} {facts facts' : List Fact} {i i' : TransposedInputs}
    {r r' : Resolution} (refined : List.Forall₂ Fact.RefinedBy facts facts')
    (roles : transposedInputs kind t facts = .ok i)
    (roles' : transposedInputs kind t facts' = .ok i')
    (resolves : resolveTransposed t w i.data i.filters i.outputShape = .ok r)
    (resolves' : resolveTransposed t w i'.data i'.filters i'.outputShape = .ok r') :
    r.fact.RefinedBy r'.fact := by
  obtain ⟨dataAt, filtersAt, shapeAt⟩ := transposedInputs_eq_ok roles
  obtain ⟨dataAt', filtersAt', shapeAt'⟩ := transposedInputs_eq_ok roles'
  obtain ⟨data', there, datas⟩ := forall₂_getElem? refined dataAt
  cases there.symm.trans dataAt'
  obtain ⟨filters', there, filters⟩ := forall₂_getElem? refined filtersAt
  cases there.symm.trans filtersAt'
  refine resolveTransposed_refined datas filters ?_ resolves resolves'
  rw [shapeAt, shapeAt']
  split
  · exact forall₂_getElem?_rel refined
  · exact .none

end Conv

end EvenPad
