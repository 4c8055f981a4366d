import EvenPad.Proofs.Conv
import EvenPad.Proofs.Patch.Draft
import EvenPad.Proofs.Slice
import EvenPad.Unpad.Transposed

/-!
Transposed convolutions and what takes their place. Main statements: `cropDeconv_eq_ok` and
`cropFused_eq_ok`, the contents of the patches, and `deconv_keeps_sums`, that each element of the
slice has the sum of the convolution that it replaces.
-/

namespace EvenPad

/-! ## Cutting back -/

/-- The draft with a slice that cuts the output of one of its nodes back and takes over that of a
node of the target. Both nodes take over the notes. -/
def Draft.cutBack (d : Draft) (node : Node) (plan : Unpad.Plan) (k : Nat)
    (cropped : Fact) : Draft :=
  let begins := Tensor.vector plan.sliceBegins
  let ends := Tensor.vector plan.sliceEnds
  let strides := Tensor.vector (List.replicate (plan.inflated.length + 2) 1)
  let n := d.nodes.length
  let sliced :=
    (((d.push fun id => .fresh id (node.name ++ ".slice_begin") (.const begins) []
      (.constant begins)).push fun id =>
      .fresh id (node.name ++ ".slice_end") (.const ends) [] (.constant ends)).push fun id =>
      .fresh id (node.name ++ ".slice_strides") (.const strides) []
        (.constant strides)).push fun id =>
      .fresh id node.name (.stridedSlice Unpad.wholeAxes Unpad.wholeAxes)
        [d.wire k, d.wire n, d.wire (n + 1), d.wire (n + 2)] cropped
  { (sliced.note k node.provenance).note (n + 3) node.provenance with
    shunts := [(⟨node.id, 0⟩, d.wire (n + 3))] }

namespace Unpad

variable {g : Graph} {node : Node} {kind : ConvKind} {w : Window} {takesOutputShape : Bool}
  {plan : Plan} {p p' patch : Patch} {d : Draft} {log log' : Log} {u : Unit} {k : Nat}
  {inflated : Fact} {n : Node}

/-- What is asked of a cut: it changes the type of the output without pads, arrives at the type
that a node of the target has, and can take over its output. -/
structure Cuts (g : Graph) (node : Node) (plan : Plan)
    (inflated wanted cropped : Fact) : Prop where
  produced : node.facts[0]? = some wanted
  differs : inflated.sameType wanted = false
  sliced : StridedSlice.outputFact wholeAxes wholeAxes inflated
    (.constant (.vector plan.sliceBegins)) (.constant (.vector plan.sliceEnds))
    (some (.constant (.vector (List.replicate (plan.inflated.length + 2) 1)))) = .ok cropped
  arrives : cropped.sameType wanted = true
  replaces : ∃ current, g.fact? ⟨node.id, 0⟩ = some current ∧ current.sameType cropped = true

/-- What cutting back asks for and what it adds to a patch. -/
theorem cutBack_eq_ok (described : d.Describes g p) (first : d.shunts = [])
    (unpadded : d.nodes[k]? = some n) (facts : n.facts = [inflated])
    (run : cutBack g node plan (d.wire k) p = .ok u p') :
    ∃ wanted cropped, Cuts g node plan inflated wanted cropped ∧
      (d.cutBack node plan k cropped).Describes g p' := by
  simp only [cutBack, Edit.get_bind_apply, Edit.bind_eq_ok, Edit.lift_eq_ok, Patch.onGraph,
    Edit.onPart_eq_ok, Checked.ofPresent_eq_ok, Checked.require_eq_ok,
    Graph.outletFact_eq_ok] at run
  obtain ⟨output, _, ⟨produced, rfl⟩, fact, _, ⟨known, rfl⟩, _, _, ⟨differs, rfl⟩, _, p₁,
    ⟨g₁, ⟨begins, g₂, addBegins, ends, g₃, addEnds, strides, g₄, addStrides, wireSlice⟩, rfl⟩,
    cropped, _, ⟨croppedKnown, rfl⟩, _, _, ⟨same, rfl⟩, _, p₂, copied, _, p₃,
    copied', shunted⟩ := run
  rw [described.fact?_wire unpadded facts, Option.some.injEq] at known
  subst known
  obtain ⟨rfl, described⟩ := described.addConst addBegins
  obtain ⟨rfl, described⟩ := described.addConst addEnds
  obtain ⟨rfl, described⟩ := described.addConst addStrides
  -- what the slice reads
  have unpaddedFact := described.fact?_wire (Draft.push_getElem?_of_some
    (Draft.push_getElem?_of_some (Draft.push_getElem?_of_some unpadded))) facts
  have beginsFact := described.fact?_wire (Draft.push_getElem?_of_some
    (Draft.push_getElem?_of_some Draft.push_getElem?_last)) rfl
  have endsFact := described.fact?_wire (Draft.push_getElem?_of_some Draft.push_getElem?_last) rfl
  have stridesFact := described.fact?_wire Draft.push_getElem?_last rfl
  obtain ⟨rfl, _, fact, known, inferred, described⟩ := described.wiring rfl wireSlice
  obtain rfl := Graph.facts_unique known (.cons unpaddedFact (.cons beginsFact
    (.cons endsFact (.cons stridesFact .nil))))
  -- what comes out
  have croppedFact := described.fact?_wire Draft.push_getElem?_last rfl
  obtain rfl := Option.some.inj (croppedKnown.symm.trans croppedFact)
  simp only [Draft.length_push, Draft.wire_push] at croppedKnown copied' shunted described
  have described := (described.copyProvenance (k := k) copied).copyProvenance
    (k := d.nodes.length + 3) copied'
  obtain ⟨current, substitute, there, substituted, same', described⟩ :=
    described.shunt first shunted
  rw [Draft.fact?_copyProvenance copied', Draft.fact?_copyProvenance copied, croppedKnown,
    Option.some.injEq] at substituted
  subst substituted
  refine ⟨output.fact, cropped, ?_, described⟩
  exact {
    produced := by rw [Node.facts, List.getElem?_map, produced, Option.map_some]
    differs := by simpa using differs
    sliced := inferred
    arrives := same
    replaces := ⟨current, there, same'⟩ }

/-! ## The patches -/

theorem inputOf_eq_ok {slot : Nat} {o : Outlet} :
    inputOf node slot = .ok o ↔ node.inputs[slot]? = some o := by
  rw [inputOf, Checked.ofPresent_eq_ok]

/-- The nodes of a transposed convolution without pads, after `t` taps: the output shape that it
is asked for and the convolution. -/
def unpaddedDeconv (node : Node) (kind : ConvKind) (plan : Plan) (inflated : Fact)
    (t dataTap filtersTap : Nat) : List Node :=
  [.fresh t (node.name ++ ".unpadded.output_shape") (.const plan.outputShape) []
      (.constant plan.outputShape),
    .fresh (t + 1) (node.name ++ ".unpadded") (.deconv kind plan.window.unpadded true)
      [⟨dataTap, 0⟩, ⟨filtersTap, 0⟩, ⟨t, 0⟩] inflated]

/-- The contents of the patch for a transposed convolution. -/
theorem cropDeconv_eq_ok {label : String}
    (run : cropDeconv g node kind plan (.labelled label) = .ok u p) :
    ∃ data filters tapped dataTap dataFact filtersTap filtersFact inflated wanted cropped,
      node.inputs[0]? = some data ∧ node.inputs[1]? = some filters ∧
      tapped[dataTap]? = some (data, dataFact) ∧
      tapped[filtersTap]? = some (filters, filtersFact) ∧ tapped.map Prod.fst ⊆ [filters, data] ∧
      (Op.deconv kind plan.window.unpadded true).outputFact
        [dataFact, filtersFact, .constant plan.outputShape] = .ok inflated ∧
      Cuts g node plan inflated wanted cropped ∧
      (Draft.cutBack ⟨[label], tapped,
        unpaddedDeconv node kind plan inflated tapped.length dataTap filtersTap, []⟩ node plan 1
        cropped).Describes g p := by
  simp only [cropDeconv, Edit.bind_eq_ok, Edit.lift_eq_ok, Patch.onGraph, Edit.onPart_eq_ok,
    inputOf_eq_ok] at run
  obtain ⟨data, _, ⟨dataInput, rfl⟩, tappedData, p₁, tapData, filters, _, ⟨filtersInput, rfl⟩,
    tappedFilters, p₂, tapFilters, unpadded, _,
    ⟨g₁, ⟨shape, g₂, addShape, wireDeconv⟩, rfl⟩, cut⟩ :=
    run
  -- the taps
  obtain ⟨before, dataTap, dataFact, rfl, dataAt, -, onlyData, described⟩ :=
    Draft.describes_labelled.tap rfl tapData
  obtain ⟨tapped, filtersTap, filtersFact, rfl, filtersAt, stays, onlyFilters, described⟩ :=
    described.tap rfl tapFilters
  have dataAt := stays dataAt
  have only : tapped.map Prod.fst ⊆ [filters, data] :=
    List.Subset.trans onlyFilters (List.cons_subset_cons _ onlyData)
  -- the nodes
  obtain ⟨rfl, described⟩ := described.addConst addShape
  have dataTapped := described.fact?_tap dataAt
  have filtersTapped := described.fact?_tap filtersAt
  have shapeFact := described.fact?_wire Draft.push_getElem?_last rfl
  obtain ⟨rfl, _, inflated, known, inferred, described⟩ := described.wiring rfl wireDeconv
  obtain rfl := Graph.facts_unique known (.cons dataTapped (.cons filtersTapped
    (.cons shapeFact .nil)))
  obtain ⟨wanted, cropped, cuts, described⟩ := cutBack_eq_ok described rfl
    Draft.push_getElem?_last rfl cut
  exact ⟨data, filters, tapped, dataTap, dataFact, filtersTap, filtersFact, inflated, wanted,
    cropped, dataInput, filtersInput, dataAt, filtersAt, only, inferred, cuts, described⟩

/-- The nodes of a transposed convolution with an addend without pads, after `t` taps: the output
shape if it is asked for one, and the convolution. -/
def unpaddedFused (node : Node) (takesOutputShape : Bool) (plan : Plan) (built inflated : Fact)
    (t dataTap filtersTap addendTap : Nat) : List Node :=
  if takesOutputShape then
    [.fresh t (node.name ++ ".unpadded.output_shape") (.const plan.outputShape) []
        (.constant plan.outputShape),
      .fresh (t + 1) (node.name ++ ".unpadded") (.fusedDeconv plan.window.unpadded true built)
        [⟨dataTap, 0⟩, ⟨filtersTap, 0⟩, ⟨t, 0⟩, ⟨addendTap, 0⟩] inflated]
  else
    [.fresh t (node.name ++ ".unpadded") (.fusedDeconv plan.window.unpadded false built)
      [⟨dataTap, 0⟩, ⟨filtersTap, 0⟩, ⟨addendTap, 0⟩] inflated]

/-- The facts of the inputs of a transposed convolution with an addend. -/
def fusedFacts (takesOutputShape : Bool) (data filters shape addend : Fact) : List Fact :=
  if takesOutputShape then [data, filters, shape, addend] else [data, filters, addend]

/-- The convolution without pads comes after the taps, and after its output shape if it has
one. -/
theorem wireUnpaddedFused_eq_ok {label : String} {tapped : List (Outlet × Fact)}
    {data filters addend x : Outlet} {dataTap filtersTap addendTap : Nat}
    {dataFact filtersFact addendFact : Fact} {g' : Graph}
    (described : Draft.Describes ⟨[label], tapped, [], []⟩ g p)
    (dataAt : tapped[dataTap]? = some (data, dataFact))
    (filtersAt : tapped[filtersTap]? = some (filters, filtersFact))
    (addendAt : tapped[addendTap]? = some (addend, addendFact))
    (made : (do
      let shape ←
        if takesOutputShape then
          some <$> Graph.addConst (node.name ++ ".unpadded.output_shape") plan.outputShape
        else pure none
      Graph.wireFused (node.name ++ ".unpadded") ⟨dataTap, 0⟩ ⟨filtersTap, 0⟩ shape ⟨addendTap, 0⟩
        plan.window.unpadded) p.graph = .ok x g') :
    ∃ inflated d n, d = (⟨[label], tapped, unpaddedFused node takesOutputShape plan
        addendFact.withoutValue inflated tapped.length dataTap filtersTap addendTap,
        []⟩ : Draft) ∧
      (Op.fusedDeconv plan.window.unpadded takesOutputShape addendFact.withoutValue).outputFact
        (fusedFacts takesOutputShape dataFact filtersFact
          (.constant plan.outputShape) addendFact) =
          .ok inflated ∧
      d.nodes[takesOutputShape.toNat]? = some n ∧ n.facts = [inflated] ∧
      x = d.wire takesOutputShape.toNat ∧ d.Describes g { p with graph := g' } := by
  cases takesOutputShape with
  | false =>
    simp only [Bool.false_eq_true, if_false, Edit.bind_eq_ok, Edit.pure_eq_ok] at made
    obtain ⟨_, _, ⟨rfl, rfl⟩, wired⟩ := made
    obtain ⟨_, addendKnown, wire⟩ := Graph.wireFused_eq_ok wired
    have dataTapped := described.fact?_tap dataAt
    have filtersTapped := described.fact?_tap filtersAt
    have addendTapped := described.fact?_tap addendAt
    cases addendKnown.symm.trans addendTapped
    obtain ⟨rfl, _, inflated, known, inferred, described⟩ := described.wiring rfl wire
    cases Graph.facts_unique known (.cons dataTapped (.cons filtersTapped
      (.cons addendTapped .nil)))
    exact ⟨inflated, _, _, rfl, inferred, rfl, rfl, rfl, described⟩
  | true =>
    simp only [if_true, Edit.bind_eq_ok, Edit.map_eq_ok] at made
    obtain ⟨_, _, ⟨_, addShape, rfl⟩, wired⟩ := made
    obtain ⟨rfl, described⟩ := described.addConst addShape
    obtain ⟨_, addendKnown, wire⟩ := Graph.wireFused_eq_ok wired
    have dataTapped := described.fact?_tap dataAt
    have filtersTapped := described.fact?_tap filtersAt
    have addendTapped := described.fact?_tap addendAt
    have shapeFact := described.fact?_wire Draft.push_getElem?_last rfl
    cases addendKnown.symm.trans addendTapped
    obtain ⟨rfl, _, inflated, known, inferred, described⟩ := described.wiring rfl wire
    cases Graph.facts_unique known (.cons dataTapped (.cons filtersTapped
      (.cons shapeFact (.cons addendTapped .nil))))
    exact ⟨inflated, _, _, rfl, inferred, rfl, rfl, rfl, described⟩

/-- The contents of the patch for a transposed convolution with an addend. -/
theorem cropFused_eq_ok {label : String}
    (run : cropFused g node takesOutputShape plan (.labelled label) = .ok u p) :
    ∃ data filters addend tapped dataTap dataFact filtersTap filtersFact addendTap addendFact
        inflated wanted cropped,
      node.inputs[0]? = some data ∧ node.inputs[1]? = some filters ∧
      node.inputs[2 + takesOutputShape.toNat]? = some addend ∧
      tapped[dataTap]? = some (data, dataFact) ∧
      tapped[filtersTap]? = some (filters, filtersFact) ∧
      tapped[addendTap]? = some (addend, addendFact) ∧
      tapped.map Prod.fst ⊆ [addend, filters, data] ∧
      (Op.fusedDeconv plan.window.unpadded takesOutputShape addendFact.withoutValue).outputFact
        (fusedFacts takesOutputShape dataFact filtersFact (.constant plan.outputShape)
          addendFact) = .ok inflated ∧
      Cuts g node plan inflated wanted cropped ∧
      (Draft.cutBack ⟨[label], tapped,
        unpaddedFused node takesOutputShape plan addendFact.withoutValue inflated tapped.length
          dataTap filtersTap addendTap,
          []⟩ node plan takesOutputShape.toNat cropped).Describes g p := by
  simp only [cropFused, Edit.bind_eq_ok, Edit.lift_eq_ok, Patch.onGraph, Edit.onPart_eq_ok,
    inputOf_eq_ok] at run
  obtain ⟨data, _, ⟨dataInput, rfl⟩, tappedData, p₁, tapData, filters, _, ⟨filtersInput, rfl⟩,
    tappedFilters, p₂, tapFilters, addend, _, ⟨addendInput, rfl⟩, tappedAddend, p₃, tapAddend,
    unpadded, _, ⟨g₁, made, rfl⟩, cut⟩ := run
  -- the taps
  obtain ⟨first, dataTap, dataFact, rfl, dataAt, -, onlyData, described⟩ :=
    Draft.describes_labelled.tap rfl tapData
  obtain ⟨second, filtersTap, filtersFact, rfl, filtersAt, stays, onlyFilters, described⟩ :=
    described.tap rfl tapFilters
  obtain ⟨tapped, addendTap, addendFact, rfl, addendAt, stays', onlyAddend, described⟩ :=
    described.tap rfl tapAddend
  have dataAt := stays' (stays dataAt)
  have filtersAt := stays' filtersAt
  have only : tapped.map Prod.fst ⊆ [addend, filters, data] :=
    List.Subset.trans onlyAddend (List.cons_subset_cons _
      (List.Subset.trans onlyFilters (List.cons_subset_cons _ onlyData)))
  obtain ⟨inflated, d, n, rfl, inferred, here, facts, rfl, described⟩ :=
    wireUnpaddedFused_eq_ok described dataAt filtersAt addendAt made
  obtain ⟨wanted, cropped, cuts, described⟩ := cutBack_eq_ok described rfl here facts cut
  exact ⟨data, filters, addend, tapped, dataTap, dataFact, filtersTap, filtersFact, addendTap,
    addendFact, inflated, wanted, cropped, dataInput, filtersInput, addendInput, dataAt,
    filtersAt, addendAt, only, inferred, cuts, described⟩

/-! ## Plans -/

/-- The lengths that a node has to produce are as many as they should be. -/
theorem length_of_targetLengths {requested : Shape} {rank : Nat} {lengths : List Nat}
    (told : targetLengths node requested rank = .ok (some lengths)) : lengths.length = rank := by
  unfold targetLengths at told
  cases asked : requested.lengths?.filter (·.length = rank) with
  | some found =>
    simp only [asked] at told
    cases Checked.pure_eq_ok.1 told
    simpa using (Option.filter_eq_some_iff.1 asked).2
  | none =>
    simp only [asked, Checked.bind_eq_ok, Checked.pure_eq_ok] at told
    obtain ⟨output, -, extents, tail, told⟩ := told
    have length : extents.length = rank := by
      unfold Shape.tail at tail
      split at tail
      · rw [← Except.ok.inj tail, List.length_replicate]
      · split at tail
        · rw [← Except.ok.inj tail, List.length_drop]
          omega
        · split at tail <;> simp at tail
    rw [Extent.mapM_length?_eq_some] at told
    rw [← length, told, List.length_map]

/-- A plan is for pads that are known, uneven and not negative, and for an output of known
lengths: what the pads would cut off is added to those. -/
theorem plan_eq_some {resolved : Resolution} {requested : Shape}
    (run : Unpad.plan node resolved requested log = .ok (some plan) log') :
    resolved.padsKnown = true ∧ plan.window = resolved.window ∧
      plan.window.isAsymmetric = true ∧
      (∀ pad ∈ plan.window.padsBegin ++ plan.window.padsEnd, 0 ≤ pad) ∧
      plan.window.padsBegin.length = plan.window.padsEnd.length ∧
      ∃ target, targetLengths node requested plan.window.padsBegin.length = .ok (some target) ∧
        plan.inflated = target.zipWith (· + ·)
          (plan.window.padsBegin.zipWith (fun b e => Word.unsigned (b + e))
            plan.window.padsEnd) := by
  unfold Unpad.plan at run
  dsimp only at run
  split at run
  · simp at run
  · next padsKnown =>
    split at run
    · simp at run
    · next uneven =>
      split at run
      · simp at run
      · next nonneg =>
        simp only [Edit.bind_eq_ok, Edit.lift_eq_ok, Checked.require_eq_ok,
          decide_eq_true_eq] at run
        obtain ⟨_, _, ⟨lengths, rfl⟩, target, _, ⟨told, rfl⟩, run⟩ := run
        cases target with
        | none => simp at run
        | some target =>
          simp only [Edit.pure_eq_ok, Option.some.injEq] at run
          obtain ⟨rfl, -⟩ := run
          refine ⟨by simpa using padsKnown, rfl, by simpa using uneven, ?_,
            lengths, target, told, rfl⟩
          intro pad mem
          simp only [List.any_eq_true, decide_eq_true_eq, not_exists, not_and, Int.not_lt]
            at nonneg
          exact nonneg pad mem

/-- A rule for transposed convolutions proposes its patch when there is a plan. -/
theorem deconv_eq_some (run : deconv kind w takesOutputShape g node log = .ok (some patch) log') :
    ∃ facts resolved requested plan label, g.inputFacts node.id = .ok facts ∧
      Conv.resolveDeconv kind w takesOutputShape facts = .ok resolved ∧
      Conv.deconvQuery kind w takesOutputShape facts = .ok requested ∧
      Unpad.plan node resolved requested log = .ok (some plan) log' ∧
      cropDeconv g node kind plan (.labelled label) = .ok ⟨⟩ patch := by
  simp only [deconv, Edit.bind_eq_ok, Edit.lift_eq_ok] at run
  obtain ⟨facts, _, ⟨known, rfl⟩, resolved, _, ⟨resolves, rfl⟩, requested, _, ⟨query, rfl⟩, plan,
      _, planned, run⟩ := run
  cases plan with
  | none => simp at run
  | some plan =>
    simp only [Edit.bind_eq_ok, Edit.lift_eq_ok, Edit.pure_eq_ok, Option.some.injEq] at run
    obtain ⟨⟨_, _⟩, _, ⟨crop, rfl⟩, rfl, rfl⟩ := run
    exact ⟨facts, resolved, requested, plan, _, known, resolves, query, planned,
      Edit.runFrom_eq_ok.1 crop⟩

theorem fused_eq_some (run : fused w takesOutputShape g node log = .ok (some patch) log') :
    ∃ facts resolved requested plan label, g.inputFacts node.id = .ok facts ∧
      Conv.resolveFused w takesOutputShape facts = .ok resolved ∧
      Conv.fusedQuery w takesOutputShape facts = .ok requested ∧
      Unpad.plan node resolved requested log = .ok (some plan) log' ∧
      cropFused g node takesOutputShape plan (.labelled label) = .ok ⟨⟩ patch := by
  simp only [fused, Edit.bind_eq_ok, Edit.lift_eq_ok] at run
  obtain ⟨facts, _, ⟨known, rfl⟩, resolved, _, ⟨resolves, rfl⟩, requested, _, ⟨query, rfl⟩, plan,
      _, planned, run⟩ := run
  cases plan with
  | none => simp at run
  | some plan =>
    simp only [Edit.bind_eq_ok, Edit.lift_eq_ok, Edit.pure_eq_ok, Option.some.injEq] at run
    obtain ⟨⟨_, _⟩, _, ⟨crop, rfl⟩, rfl, rfl⟩ := run
    exact ⟨facts, resolved, requested, plan, _, known, resolves, query, planned,
      Edit.runFrom_eq_ok.1 crop⟩

/-! ## The sums -/

/-- The patch computes a transposed convolution without pads, for an output shape that it gives,
and a slice of the outcome, with constant bounds, takes over the output of a node. -/
def CutsBack (p : Patch) (node : Node) (data filters : Outlet) (kind : ConvKind) (window : Window)
    (unpaddedLengths : List Nat) (begins ends strides : List Int) (beginMask endMask : AxisMask) :
    Prop :=
  ∃ tappedData tappedFilters shape shapeAt unpadded beginsAt endsAt stridesAt wire,
    (tappedData, data) ∈ p.incoming ∧ (tappedFilters, filters) ∈ p.incoming ∧
    p.graph.Makes shapeAt (.const shape) [] ∧
    p.graph.Makes unpadded (.deconv kind window true) [tappedData, tappedFilters, shapeAt] ∧
    (∃ fact batch channels, p.graph.fact? unpadded = some fact ∧
      fact.shape = .ranked (batch :: channels :: unpaddedLengths.map .fixed)) ∧
    p.graph.Makes beginsAt (.const (.vector begins)) [] ∧
    p.graph.Makes endsAt (.const (.vector ends)) [] ∧
    p.graph.Makes stridesAt (.const (.vector strides)) [] ∧
    p.graph.Makes wire (.stridedSlice beginMask endMask)
      [unpadded, beginsAt, endsAt, stridesAt] ∧
    p.shunts = [(⟨node.id, 0⟩, wire)]

/-- Where the slice selects anything, it takes from as much later as the convolution was padded at
the beginning. -/
theorem Cuts.origins {rank : Nat} {wanted cropped : Fact} {batch channels : Extent} {m : List Nat}
    (cuts : Cuts g node plan inflated wanted cropped) (ofRank : plan.window.OfRank rank)
    (inflatedLength : plan.inflated.length = rank) (length : m.length = rank)
    (nonneg : ∀ pad ∈ plan.window.padsBegin ++ plan.window.padsEnd, 0 ≤ pad)
    (shape : inflated.shape = .ranked (batch :: channels :: m.map .fixed)) :
    ∃ batch' channels', ∃ T : List Nat,
      wanted.shape = .ranked (batch' :: channels' :: T.map .fixed) ∧ T.length = rank ∧
      ∀ batches channels position, Inside T position →
        StridedSlice.starts wholeAxes wholeAxes (batches :: channels :: m) plan.sliceBegins
          plan.sliceEnds (List.replicate (plan.inflated.length + 2) 1) = .ok plan.sliceBegins ∧
        Inside m (position.zipWith (· + ·) plan.window.padsBegin) := by
  obtain ⟨s, selected, rfl⟩ := StridedSlice.outputFact_vectors cuts.sliced
  have arrives := cuts.arrives
  simp only [Fact.sameType, Fact.typed, Bool.and_eq_true, beq_iff_eq] at arrives
  rw [shape, inflatedLength, ← length] at selected
  have strides : plan.inflated.length = m.length := inflatedLength.trans length.symm
  rw [strides]
  obtain ⟨batch', channels', T, rfl, length_T, origins⟩ := StridedSlice.shape_whole
    (ofRank.padsBegin.trans length.symm) (by simp [inflatedLength, ofRank.padsEnd, length])
    (fun pad mem => nonneg pad (List.mem_append_left _ mem)) selected
  exact ⟨batch', channels', T, arrives.2.symm, length_T.trans length, origins⟩

theorem cutsBack {label : String}
    (run : cropDeconv g node kind plan (.labelled label) = .ok u p) :
    ∃ data filters inflated wanted cropped batch channels, ∃ m : List Nat,
      node.inputs[0]? = some data ∧ node.inputs[1]? = some filters ∧
      Cuts g node plan inflated wanted cropped ∧ m.length = plan.inflated.length ∧
      inflated.shape = .ranked (batch :: channels :: m.map .fixed) ∧
      CutsBack p node data filters kind plan.window.unpadded m plan.sliceBegins plan.sliceEnds
        (List.replicate (plan.inflated.length + 2) 1) wholeAxes wholeAxes := by
  obtain ⟨data, filters, tapped, dataTap, dataFact, filtersTap, filtersFact, inflated, wanted,
      cropped, dataInput, filtersInput, dataAt, filtersAt, -, inferred, cuts, described⟩ :=
    cropDeconv_eq_ok run
  obtain ⟨batch, channels, shape⟩ := outputFact_deconv_vector inferred
  refine ⟨data, filters, inflated, wanted, cropped, batch, channels, _, dataInput, filtersInput,
    cuts, by simp, shape, ?_⟩
  exact ⟨⟨dataTap, 0⟩, ⟨filtersTap, 0⟩, plan.outputShape, _, _, _, _, _, _,
    described.mem_incoming dataAt, described.mem_incoming filtersAt,
    described.makes (k := 0) rfl, described.makes (k := 1) rfl,
    ⟨inflated, batch, channels, described.fact?_wire (k := 1) rfl rfl, shape⟩,
    described.makes (k := 2) rfl, described.makes (k := 3) rfl, described.makes (k := 4) rfl,
    described.makes (k := 5) rfl, described.shunts⟩

/-- What takes the place of a transposed convolution has its sums. The patch computes the
convolution without pads, for a larger output, and slices that. Whatever the lengths of input and
filter, each element of the slice comes from within the larger output, and the sum there is the
one that the convolution with pads has for that element. -/
theorem deconv_keeps_sums
    (run : deconv kind w takesOutputShape g node log = .ok (some patch) log') :
    ∃ data filters facts resolved replacement begins ends strides beginMask endMask wanted
        batchExtent channelExtent, ∃ unpaddedLengths lengths : List Nat,
      node.inputs[0]? = some data ∧ node.inputs[1]? = some filters ∧
      g.inputFacts node.id = .ok facts ∧
      Conv.resolveDeconv kind w takesOutputShape facts = .ok resolved ∧
      CutsBack patch node data filters kind replacement unpaddedLengths begins ends strides
        beginMask endMask ∧
      node.facts[0]? = some wanted ∧
      wanted.shape = .ranked (batchExtent :: channelExtent :: lengths.map .fixed) ∧
      ∀ {input filter : List Nat} {batches channels : Nat} {batch channel : Int}
        {position : List Int} (W X : Volume),
        Inside [batches, channels] [batch, channel] → Inside lengths position →
        ∃ starts source,
          StridedSlice.starts beginMask endMask (batches :: channels :: unpaddedLengths)
            begins ends strides = .ok starts ∧
          StridedSlice.origin starts strides (batch :: channel :: position) =
            batch :: channel :: source ∧
          Inside (batches :: channels :: unpaddedLengths) (batch :: channel :: source) ∧
          replacement.scattered input filter W X source =
            resolved.window.scattered input filter W X position := by
  obtain ⟨facts, resolved, requested, plan, label, known, resolves, -, planned, crop⟩ :=
    deconv_eq_some run
  obtain ⟨-, window, uneven, nonneg, -, target, told, inflatedLengths⟩ := plan_eq_some planned
  obtain ⟨data, filters, inflated, wanted, cropped, _, _, m, dataInput, filtersInput, cuts,
      length, shape, patched⟩ := cutsBack crop
  -- one entry for each spatial axis
  obtain ⟨rank, ofRank⟩ : ∃ rank, plan.window.OfRank rank := by
    rw [window] at uneven ⊢
    simp only [Conv.resolveDeconv, Checked.bind_eq_ok] at resolves
    obtain ⟨_, -, resolves⟩ := resolves
    exact Conv.resolveTransposed_ofRank resolves uneven
  have inflatedLength : plan.inflated.length = rank := by
    rw [inflatedLengths, List.length_zipWith, List.length_zipWith, length_of_targetLengths told,
      ofRank.padsBegin, ofRank.padsEnd]
    omega
  obtain ⟨batch', channels', T, wantedShape, length_T, origins⟩ :=
    cuts.origins ofRank inflatedLength (length.trans inflatedLength) nonneg shape
  refine ⟨data, filters, facts, resolved, _, _, _, _, _, _, wanted, batch', channels', m, T,
    dataInput, filtersInput, known, resolves, patched, cuts.produced, wantedShape, ?_⟩
  intro input filter batches channels batch channel position W X lead inside
  obtain ⟨starts, within⟩ := origins batches channels position inside
  have positionLength : position.length = rank :=
    (List.Forall₂.length_eq inside).symm.trans length_T
  refine ⟨plan.sliceBegins, position.zipWith (· + ·) plan.window.padsBegin, starts, ?_, ?_, ?_⟩
  · rw [inflatedLength, ← ofRank.padsBegin]
    exact StridedSlice.origin_whole (positionLength.trans ofRank.padsBegin.symm)
  · simp only [Inside, List.forall₂_cons] at lead
    exact .cons lead.1 (.cons lead.2.1 within)
  · rw [← window]
    exact ofRank.scattered_unpadded positionLength

/-! ## One transposed convolution -/

/-- A graph that convolves one input with another, transposed. -/
def oneDeconv (w : Window) (data filters : List Nat) : Edit Graph Unit := do
  let data ← Graph.addSource "data" (.typed .f32 (.ofLengths data))
  let filters ← Graph.addSource "filters" (.typed .f32 (.ofLengths filters))
  let out ← Graph.wire "deconv" (.deconv .convolutionBackpropData w false) [data, filters]
  Graph.setOutputs [out]

theorem built_oneDeconv {u : Unit} {data filters : List Nat}
    (run : oneDeconv w data filters .empty = .ok u g) : g.Built := by
  simp only [oneDeconv, Edit.bind_eq_ok] at run
  obtain ⟨_, _, addData, _, _, addFilters, out, wired, wire, answer⟩ := run
  exact .answerLast (.source (.source .empty addData) addFilters) wire answer

/-- Four elements spread over six, of which the first is cut off. -/
theorem deconv_keeps_sums_oneDeconv :
    ∃ g node patch data filters replacement begins ends strides beginMask endMask,
      ∃ unpaddedLengths : List Nat,
      oneDeconv ⟨[], [], [1], [0], .explicit, []⟩ [1, 1, 4] [1, 1, 3] .empty = .ok ⟨⟩ g ∧
      g.nodes[2]? = some node ∧
      deconv .convolutionBackpropData ⟨[], [], [1], [0], .explicit, []⟩ false g node [] =
        .ok (some patch) [] ∧
      CutsBack patch node data filters .convolutionBackpropData replacement unpaddedLengths begins
        ends strides beginMask endMask ∧
      ∀ W X : Volume, ∃ starts source,
        StridedSlice.starts beginMask endMask (1 :: 1 :: unpaddedLengths) begins ends strides =
          .ok starts ∧
        StridedSlice.origin starts strides (0 :: 0 :: [4]) = 0 :: 0 :: source ∧
        Inside (1 :: 1 :: unpaddedLengths) (0 :: 0 :: source) ∧
        replacement.scattered [4] [3] W X source =
          (Window.mk [1] [1] [1] [0] .explicit [0]).scattered [4] [3] W X [4] := by
  obtain ⟨g, node, patch, made, there, run, facts, produced⟩ : ∃ g node patch,
      oneDeconv ⟨[], [], [1], [0], .explicit, []⟩ [1, 1, 4] [1, 1, 3] .empty = .ok ⟨⟩ g ∧
      g.nodes[2]? = some node ∧
      deconv .convolutionBackpropData ⟨[], [], [1], [0], .explicit, []⟩ false g node [] =
        .ok (some patch) [] ∧
      g.inputFacts node.id =
        .ok [.typed .f32 (.ofLengths [1, 1, 4]), .typed .f32 (.ofLengths [1, 1, 3])] ∧
      node.facts = [.typed .f32 (.ofLengths [1, 1, 5])] :=
    ⟨_, _, _, rfl, rfl, rfl, rfl, rfl⟩
  obtain ⟨data, filters, _, resolved, replacement, begins, ends, strides, beginMask, endMask,
      wanted, _, _, unpaddedLengths, lengths, -, -, facts', resolves, patched, wantedFact,
      wantedShape, sums⟩ :=
    deconv_keeps_sums run
  rw [facts, Except.ok.injEq] at facts'
  subst facts'
  rw [produced] at wantedFact
  cases Option.some.inj wantedFact
  obtain rfl : lengths = [5] := by
    have same := (List.cons.inj (List.cons.inj (Shape.ranked.inj wantedShape)).2).2
    exact (List.map_injective_iff.2 (fun _ _ => Extent.fixed.inj) same).symm
  have window : resolved.window = ⟨[1], [1], [1], [0], .explicit, [0]⟩ := by
    rw [← Except.ok.inj resolves]
    rfl
  rw [window] at sums
  exact ⟨g, node, patch, data, filters, replacement, begins, ends, strides, beginMask, endMask,
    unpaddedLengths, made, there, run, patched, fun W X => sums W X (by decide) (by decide)⟩

end Unpad

end EvenPad
