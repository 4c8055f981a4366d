import EvenPad.Proofs.Conv.Geometry

/-!
The output shape that a transposed convolution is asked for, against the one that is inferred. The
two look for the number of spatial axes in different places, and the checks of the operands make
them agree (`Conv.Fit.asked_eq`). Main statement: wherever the convolution resolves, the output
shape can be asked for, and what is asked for agrees with what is inferred
(`Op.Resolves.exists_query`).
-/

namespace EvenPad

/-- The value of the input for the output shape, if the operator takes one and it is a
constant. -/
def Op.outputShapeValue? (op : Op) (facts : List Fact) : Option Tensor :=
  (op.traits?.bind ConvTraits.outputShapeIndex?).bind fun index => facts[index]?.bind Fact.value?

/-- The output shape that a transposed convolution is asked for. -/
inductive Op.Queries : Op → List Fact → Shape → Prop
  | deconv {kind : ConvKind} {w : Window} {takesOutputShape : Bool} {facts : List Fact}
    {query : Shape} :
    Conv.deconvQuery kind w takesOutputShape facts = .ok query →
      Queries (.deconv kind w takesOutputShape) facts query
  | fusedDeconv {w : Window} {takesOutputShape : Bool} {built : Fact} {facts : List Fact}
    {query : Shape} :
    Conv.fusedQuery w takesOutputShape facts = .ok query →
      Queries (.fusedDeconv w takesOutputShape built) facts query

namespace Conv

variable {kind : ConvKind} {t : ConvTraits} {w : Window} {data filters fact : Fact}
  {outputShape : Option Fact} {facts : List Fact} {r : Resolution} {rank asked : Nat}
  {input kernel : List Extent} {requested : Option (List Nat)} {takesOutputShape : Bool}

/-- What is asked for agrees with an output. A constant is asked for as it is, and the output has
its lengths on the spatial axes. Without one there is at most a rank, and then the output has that
many spatial axes. -/
structure QueryAgrees (query : Shape) (value? : Option Tensor) (output : Fact) : Prop where
  constant : value?.isSome = true → ∃ lengths batch channels, query = .ofLengths lengths ∧
    output.shape = .ranked (batch :: channels :: lengths.map .fixed)
  unknown : value? = none → query = .unranked ∨ ∃ rank, query = .dynamic rank ∧
    output.rank? = some (rank + 2)

/-- A shape is asked for by a constant and by nothing else. -/
theorem isSome_of_requestedShape (asks : requestedShape fact = .ok requested) :
    requested.isSome = fact.value?.isSome := by
  unfold requestedShape at asks
  split at asks
  · next unknown =>
    cases asks
    simp [unknown]
  · next value known =>
    simp only [Checked.bind_eq_ok, Checked.pure_eq_ok] at asks
    obtain ⟨_, -, _, -, lengths, -, rfl⟩ := asks
    rw [known]
    rfl

/-- The number of spatial axes that is asked for is the one for which the operands fit. -/
theorem Fit.asked_eq (fit : Fit t data filters rank input kernel)
    (ranked : (w.withDefaults rank).checkRank rank = .ok ⟨⟩)
    (asks : (data.rank?.map (· - 2)).or (if t.grouped then filters.rank?.map (· - 3)
        else w.spatialRank?) =
      some asked) : asked = rank := by
  have geometry := fit.geometry ranked
  rcases Option.or_eq_some_iff.1 asks with asks | ⟨-, asks⟩
  · obtain ⟨count, known, rfl⟩ := Option.map_eq_some_iff.1 asks
    have axes := (geometry.data count known).1
    omega
  · cases grouped : t.grouped with
    | true =>
      rw [if_pos grouped] at asks
      obtain ⟨count, known, rfl⟩ := Option.map_eq_some_iff.1 asks
      have axes := geometry.filters count known
      simp only [ConvTraits.leadingFilterAxes, grouped, Bool.toNat_true] at axes
      omega
    | false =>
      rw [if_neg (by simp [grouped])] at asks
      exact spatialRank_of_withDefaults geometry.ofRank geometry.outputPadding asks

/-- What a transposed convolution is asked for agrees with what it resolves to. -/
theorem outputShapeQuery_agrees
    (resolves : resolveTransposed t w data filters outputShape = .ok r) :
    ∃ query, outputShapeQuery t w data filters outputShape = .ok query ∧
      QueryAgrees query (outputShape.bind Fact.value?) r.fact := by
  obtain ⟨type, requested, -, asks, cases⟩ := resolveTransposed_eq_ok_iff.1 resolves
  cases outputShape with
  | some fact =>
    have asks : requestedShape fact = .ok requested := asks
    have constant := isSome_of_requestedShape asks
    cases requested with
    | none =>
      refine ⟨.unranked, by simp [outputShapeQuery, asks], fun known => ?_, fun _ => .inl rfl⟩
      simp [← constant] at known
    | some lengths =>
      refine ⟨.ofLengths lengths, by simp [outputShapeQuery, asks],
        fun _ => ?_, fun unknown => ?_⟩
      · obtain ⟨batch, channels, shape⟩ := resolveTransposed_requested resolves asks
        exact ⟨lengths, batch, channels, rfl, shape⟩
      · rw [Option.bind_some] at unknown
        simp [unknown] at constant
  | none =>
    refine ⟨_, rfl, by simp, fun _ => ?_⟩
    cases query : (data.rank?.map (· - 2)).or
        (if t.grouped then filters.rank?.map (· - 3) else w.spatialRank?) with
    | none => exact .inl rfl
    | some asked =>
      obtain ⟨untold, -⟩ | ⟨rank, operands, spatial, -, checked, spatials, output⟩ := cases
      · -- nothing that can be asked for is overlooked by the inference
        simp only [spatialRank?, Option.or_eq_none_iff, Option.map_eq_none_iff] at untold
        obtain ⟨⟨data, filters, window⟩, -⟩ := untold
        simp [data, filters, window] at query
      · obtain ⟨fit, -, ranked⟩ := checkOperands_eq_ok_iff.1 checked
        obtain rfl := fit.asked_eq ranked query
        refine .inr ⟨asked, rfl, ?_⟩
        rw [rank?_of_outputFact output,
          length_of_transposedSpatial (Shape.length_of_tail fit.input) spatials]

/-- The input for the output shape is where the traits say. -/
theorem value?_of_transposedInputs {i : TransposedInputs}
    (roles : transposedInputs kind t facts = .ok i) :
    i.outputShape.bind Fact.value? = t.outputShapeIndex?.bind fun index =>
      facts[index]?.bind Fact.value? := by
  rw [(transposedInputs_eq_ok roles).2.2, ConvTraits.outputShapeIndex?]
  split <;> rfl

theorem deconvQuery_agrees (resolves : resolveDeconv kind w takesOutputShape facts = .ok r) :
    ∃ query, deconvQuery kind w takesOutputShape facts = .ok query ∧
      QueryAgrees query ((Op.deconv kind w takesOutputShape).outputShapeValue? facts) r.fact := by
  simp only [resolveDeconv, Checked.bind_eq_ok] at resolves
  obtain ⟨i, roles, resolves⟩ := resolves
  obtain ⟨query, asks, agrees⟩ := outputShapeQuery_agrees resolves
  refine ⟨query, Checked.bind_eq_ok.2 ⟨i, roles, asks⟩, ?_⟩
  simp only [deconvInputs, Checked.bind_eq_ok] at roles
  obtain ⟨_, -, roles⟩ := roles
  rwa [value?_of_transposedInputs roles] at agrees

theorem fusedQuery_agrees (resolves : resolveFused w takesOutputShape facts = .ok r) :
    ∃ query, fusedQuery w takesOutputShape facts = .ok query ∧
      ∀ built, QueryAgrees query
        ((Op.fusedDeconv w takesOutputShape built).outputShapeValue? facts) r.fact := by
  simp only [resolveFused, Checked.bind_eq_ok] at resolves
  obtain ⟨i, roles, resolves⟩ := resolves
  obtain ⟨query, asks, agrees⟩ := outputShapeQuery_agrees resolves
  refine ⟨query, Checked.bind_eq_ok.2 ⟨i, roles, asks⟩, fun built => ?_⟩
  rwa [value?_of_transposedInputs roles] at agrees

end Conv

/-- The output shape can be asked for wherever a transposed convolution resolves. A constant for
it is a shape with the extents of the resolved fact on the spatial axes. Otherwise what is asked
for is a rank at most, and two less than that of the resolved fact. -/
theorem Op.Resolves.exists_query {op : Op} {facts : List Fact} {r : Resolution}
    (resolves : op.Resolves facts r) (transposed : op.isTransposed = true) :
    ∃ query, op.Queries facts query ∧
      Conv.QueryAgrees query (op.outputShapeValue? facts) r.fact := by
  cases resolves with
  | conv resolves => simp [isTransposed] at transposed
  | deconv resolves =>
    obtain ⟨query, asks, agrees⟩ := Conv.deconvQuery_agrees resolves
    exact ⟨query, .deconv asks, agrees⟩
  | fusedDeconv resolves =>
    obtain ⟨query, asks, agrees⟩ := Conv.fusedQuery_agrees resolves
    exact ⟨query, .fusedDeconv asks, agrees _⟩

/-- Where nothing but the constant tells the number of spatial axes, the output has the length
that it asks for. -/
theorem Op.Resolves.exists_query_unranked :
    ∃ r, (Op.fusedDeconv ⟨[], [], [], [], .sameUpper, []⟩ true (.typed .f32 .unranked)).Resolves
        [.typed .f32 .unranked, .typed .f32 .unranked, .constant (.vector [10]),
          .typed .f32 .unranked] r ∧
      r.fact.shape = .ranked [.dynamic, .dynamic, .fixed 10] ∧
      (Op.fusedDeconv ⟨[], [], [], [], .sameUpper, []⟩ true (.typed .f32 .unranked)).Queries
        [.typed .f32 .unranked, .typed .f32 .unranked, .constant (.vector [10]),
          .typed .f32 .unranked]
        (.ofLengths [10]) := by
  have resolves :
      (Op.fusedDeconv ⟨[], [], [], [], .sameUpper, []⟩ true (.typed .f32 .unranked)).Resolves
      [.typed .f32 .unranked, .typed .f32 .unranked, .constant (.vector [10]),
        .typed .f32 .unranked]
      ⟨⟨[1], [1], [0], [0], .sameUpper, [0]⟩, false,
        .typed .f32 (.ranked [.dynamic, .dynamic, .fixed 10])⟩ :=
    .fusedDeconv (by decide +kernel)
  obtain ⟨query, asks, agrees⟩ := resolves.exists_query rfl
  obtain ⟨lengths, batch, channels, rfl, shape⟩ := agrees.constant rfl
  obtain ⟨-, -, same⟩ : .dynamic = batch ∧ .dynamic = channels ∧
      [Extent.fixed 10] = lengths.map .fixed := by
    simpa [Fact.typed] using shape
  cases Extent.mapM_length?_eq_some.2 same
  exact ⟨_, resolves, rfl, asks⟩

end EvenPad
