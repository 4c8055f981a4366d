import EvenPad.Proofs.Patch.Draft
import EvenPad.Proofs.Volume
import EvenPad.Unpad.Forward

/-!
Forward convolutions and what takes their place. Main statements: `padAhead_eq_ok`, the contents
of the patch, and `forward_keeps_sums`, that the convolution of the padded data has the sums of
the convolution that it replaces.
-/

namespace EvenPad

namespace Unpad

variable {g : Graph} {node : Node} {kind : ConvKind} {w resolved : Window} {data filters : Outlet}
  {p patch : Patch} {log log' : Log} {u : Unit}

/-- The nodes that pad the data of a forward convolution and convolve what comes out, after `t`
taps of which one has the data and one the filters. -/
def padAheadNodes (node : Node) (kind : ConvKind) (resolved : Window) (type : ElementType)
    (padded made : Fact) (t dataTap filtersTap : Nat) : List Node :=
  let begins := Tensor.vector (Window.fullPads resolved.padsBegin)
  let ends := Tensor.vector (Window.fullPads resolved.padsEnd)
  let value := Tensor.zeroScalar type
  [.fresh t (node.name ++ ".pads_begin") (.const begins) [] (.constant begins),
    .fresh (t + 1) (node.name ++ ".pads_end") (.const ends) [] (.constant ends),
    .fresh (t + 2) (node.name ++ ".pad_value") (.const value) [] (.constant value),
    .fresh (t + 3) (node.name ++ ".pad") .pad
      [⟨dataTap, 0⟩, ⟨t, 0⟩, ⟨t + 1, 0⟩, ⟨t + 2, 0⟩] padded,
    { Node.fresh (t + 4) node.name (.conv kind resolved.unpadded)
        [⟨t + 3, 0⟩, ⟨filtersTap, 0⟩] made with provenance := node.provenance }]

/-- The contents of the patch for a forward convolution. -/
theorem padAhead_eq_ok {label : String}
    (run : padAhead g node kind resolved data filters (.labelled label) = .ok u p) :
    ∃ tapped dataTap dataFact filtersTap filtersFact padded made current,
      tapped[dataTap]? = some (data, dataFact) ∧
      tapped[filtersTap]? = some (filters, filtersFact) ∧
      tapped.map Prod.fst ⊆ [filters, data] ∧
      g.fact? ⟨node.id, 0⟩ = some current ∧ current.sameType made = true ∧
      Draft.Describes ⟨[label], tapped,
        padAheadNodes node kind resolved dataFact.elementType padded made tapped.length dataTap
          filtersTap,
        [(⟨node.id, 0⟩, ⟨tapped.length + 4, 0⟩)]⟩ g p := by
  simp only [padAhead, Edit.bind_eq_ok, Edit.lift_eq_ok, Patch.onGraph, Edit.onPart_eq_ok,
    Graph.outletFact_eq_ok] at run
  obtain ⟨tappedData, p₁, tapData, tappedFilters, p₂, tapFilters, dataFact, _, ⟨known, rfl⟩,
    padded, p₃, ⟨g₃, ⟨begins, g₄, addBegins, ends, g₅, addEnds, value, g₆, addValue, wirePad⟩,
      rfl⟩, wire, p₄, ⟨g₇, wireConv, rfl⟩, _, p₅, copied, shunted⟩ := run
  -- the taps
  obtain ⟨before, dataTap, dataFact', rfl, dataAt, -, onlyData, described⟩ :=
    Draft.describes_labelled.tap rfl tapData
  obtain ⟨tapped, filtersTap, filtersFact, rfl, filtersAt, stays, onlyFilters, described⟩ :=
    described.tap rfl tapFilters
  have dataAt := stays dataAt
  have only : tapped.map Prod.fst ⊆ [filters, data] :=
    List.Subset.trans onlyFilters (List.cons_subset_cons _ onlyData)
  obtain rfl : dataFact = dataFact' :=
    Option.some.inj (known.symm.trans (described.known (List.mem_of_getElem? dataAt)))
  -- the nodes
  obtain ⟨rfl, described⟩ := described.addConst addBegins
  obtain ⟨rfl, described⟩ := described.addConst addEnds
  obtain ⟨rfl, described⟩ := described.addConst addValue
  obtain ⟨rfl, _, paddedFact, -, -, described⟩ := described.wiring rfl wirePad
  obtain ⟨rfl, _, made, -, -, described⟩ := described.wiring rfl wireConv
  have described := described.copyProvenance (k := 4) copied
  have produced : _ = some made := described.fact?_wire (k := 4) rfl rfl
  obtain ⟨current, substitute, there, substituted, same, described⟩ := described.shunt rfl shunted
  obtain rfl : made = substitute := Option.some.inj (produced.symm.trans substituted)
  refine ⟨tapped, dataTap, dataFact, filtersTap, filtersFact, paddedFact, made, current, dataAt,
    filtersAt, only, there, same, ?_⟩
  simpa [Draft.note, Draft.push, Draft.wire, padAheadNodes, Node.fresh] using described

/-- A rule for forward convolutions proposes its patch for pads that are known and uneven. -/
theorem forward_eq_some (run : forward kind w g node log = .ok (some patch) log') :
    ∃ data filters facts resolved label, node.inputs = [data, filters] ∧
      g.inputFacts node.id = .ok facts ∧ Conv.resolveForward kind w facts = .ok resolved ∧
      resolved.padsKnown = true ∧ resolved.window.isAsymmetric = true ∧
      resolved.window.padsBegin.length = resolved.window.padsEnd.length ∧
      (padAhead g node kind resolved.window data filters (.labelled label) = .ok ⟨⟩ patch) := by
  rcases inputs : node.inputs with _ | ⟨data, _ | ⟨filters, _ | _⟩⟩
  case cons.cons.nil =>
    simp only [forward, inputs, Edit.lift_eq_ok, Edit.bind_eq_ok] at run
    obtain ⟨facts, _, ⟨known, rfl⟩, resolved, _, ⟨resolves, rfl⟩, run⟩ := run
    split at run
    · simp at run
    · next padsKnown =>
      split at run
      · simp at run
      · next uneven =>
        simp only [Edit.lift_eq_ok, Edit.bind_eq_ok, Checked.require_eq_ok, decide_eq_true_eq,
          Edit.pure_eq_ok, Option.some.injEq] at run
        obtain ⟨_, _, ⟨lengths, rfl⟩, ⟨_, _⟩, _, ⟨run, rfl⟩, rfl, -⟩ := run
        exact ⟨data, filters, facts, resolved, _, rfl, known, resolves, by simpa using padsKnown,
          by simpa using uneven, lengths, Edit.runFrom_eq_ok.1 run⟩
  all_goals simp [forward, inputs] at run

/-- The patch pads data at both ends of each axis, with constants, and a convolution of the
outcome takes over the output of a node. -/
def PadsAhead (p : Patch) (node : Node) (data filters : Outlet) (begins ends : List Int)
    (value : Tensor) (kind : ConvKind) (window : Window) : Prop :=
  ∃ tappedData tappedFilters beginsAt endsAt valueAt padded wire,
    (tappedData, data) ∈ p.incoming ∧ (tappedFilters, filters) ∈ p.incoming ∧
    p.graph.Makes beginsAt (.const (.vector begins)) [] ∧
    p.graph.Makes endsAt (.const (.vector ends)) [] ∧
    p.graph.Makes valueAt (.const value) [] ∧
    p.graph.Makes padded .pad [tappedData, beginsAt, endsAt, valueAt] ∧
    p.graph.Makes wire (.conv kind window) [padded, tappedFilters] ∧
    p.shunts = [(⟨node.id, 0⟩, wire)]

theorem padsAhead {label : String}
    (run : padAhead g node kind resolved data filters (.labelled label) = .ok u p) :
    ∃ dataFact, g.fact? data = some dataFact ∧
      PadsAhead p node data filters (Window.fullPads resolved.padsBegin)
        (Window.fullPads resolved.padsEnd) (.zeroScalar dataFact.elementType) kind
        resolved.unpadded := by
  obtain ⟨tapped, dataTap, dataFact, filtersTap, filtersFact, padded, made, current, dataAt,
    filtersAt, -, -, -, described⟩ := padAhead_eq_ok run
  refine ⟨dataFact, described.known (List.mem_of_getElem? dataAt), ⟨dataTap, 0⟩, ⟨filtersTap, 0⟩,
    _, _, _, _, _, described.mem_incoming dataAt, described.mem_incoming filtersAt,
    described.makes (k := 0) rfl, described.makes (k := 1) rfl, described.makes (k := 2) rfl,
    described.makes (k := 3) rfl, described.makes (k := 4) rfl, described.shunts⟩

/-- What takes the place of a forward convolution has its sums. The patch pads the data with zeros
and convolves the outcome without pads. Whatever the lengths of input and filter, as long as the
convolution has an output and its strides and dilated filters are the same with a sign, the sum at
each position of the output is the same as before, and every number that it reads lies within the
padded data. -/
theorem forward_keeps_sums (run : forward kind w g node log = .ok (some patch) log') :
    ∃ data filters facts resolved dataFact begins ends replacement,
      node.inputs = [data, filters] ∧ g.inputFacts node.id = .ok facts ∧
      Conv.resolveForward kind w facts = .ok resolved ∧ g.fact? data = some dataFact ∧
      PadsAhead patch node data filters begins ends (.zeroScalar dataFact.elementType) kind
        replacement ∧
      ∀ {input filter output : List Nat} {batches channels : Nat} {batch channel : Int}
        {position : List Int} (W X : Volume),
        resolved.window.forwardShape (input.map .fixed) (filter.map .fixed) =
          .ok (output.map .fixed) →
        resolved.window.SignFree filter →
        Inside [batches, channels] [batch, channel] →
        Inside output position →
        resolved.window.gathered filter W
            (fun x => X.within (batches :: channels :: input) (batch :: channel :: x)) position =
          replacement.gathered filter W
            (fun x => X.padded begins ends (batches :: channels :: input) (batch :: channel :: x))
            position ∧
        ∀ k ∈ box filter,
          Inside (Volume.paddedLengths begins ends (batches :: channels :: input))
            (batch :: channel :: replacement.reads position k) := by
  obtain ⟨data, filters, facts, resolved, label, inputs, known, resolves, -, -, -, run⟩ :=
    forward_eq_some run
  obtain ⟨dataFact, dataKnown, ahead⟩ := padsAhead run
  refine ⟨data, filters, facts, resolved, dataFact, _, _, _, inputs, known, resolves, dataKnown,
    ahead, ?_⟩
  intro input filter output batches channels batch channel position W X shape signFree lead inside
  have reads (k : List Int) (mem : k ∈ box filter) :=
    Window.inside_of_forwardShape shape signFree inside (mem_box.1 mem)
  have ofRank := (Window.forwardShape_eq_ok shape).1
  refine ⟨ofRank.gathered_padded lead reads, ?_⟩
  intro k mem
  rw [Volume.paddedLengths_fullPads]
  simp only [Inside, List.forall₂_cons] at lead
  exact .cons lead.1 (.cons lead.2.1 (reads k mem))

/-! ## One convolution -/

/-- A graph that convolves one input with another. -/
def oneConv (w : Window) (data filters : List Nat) : Edit Graph Unit := do
  let data ← Graph.addSource "data" (.typed .f32 (.ofLengths data))
  let filters ← Graph.addSource "filters" (.typed .f32 (.ofLengths filters))
  let out ← Graph.wire "conv" (.conv .convolution w) [data, filters]
  Graph.setOutputs [out]

theorem built_oneConv {data filters : List Nat} (run : oneConv w data filters .empty = .ok u g) :
    g.Built := by
  simp only [oneConv, Edit.bind_eq_ok] at run
  obtain ⟨_, _, addData, _, _, addFilters, out, wired, wire, answer⟩ := run
  exact .answerLast (.source (.source .empty addData) addFilters) wire answer

/-- Three elements, with a zero after them, two at a time. -/
theorem forward_keeps_sums_oneConv :
    ∃ g node patch begins ends replacement,
      oneConv ⟨[2], [], [0], [1], .explicit, []⟩ [1, 1, 3] [1, 1, 2] .empty = .ok ⟨⟩ g ∧
      g.nodes[2]? = some node ∧
      forward .convolution ⟨[2], [], [0], [1], .explicit, []⟩ g node [] = .ok (some patch) [] ∧
      PadsAhead patch node ⟨0, 0⟩ ⟨1, 0⟩ begins ends (.zeroScalar .f32) .convolution replacement ∧
      ∀ W X : Volume,
        (Window.mk [2] [1] [0] [1] .explicit [0]).gathered [2] W
            (fun x => X.within [1, 1, 3] (0 :: 0 :: x)) [1] =
          replacement.gathered [2] W
            (fun x => X.padded begins ends [1, 1, 3] (0 :: 0 :: x)) [1] := by
  obtain ⟨g, node, patch, made, there, run, inputs, facts, fact⟩ : ∃ g node patch,
      oneConv ⟨[2], [], [0], [1], .explicit, []⟩ [1, 1, 3] [1, 1, 2] .empty = .ok ⟨⟩ g ∧
      g.nodes[2]? = some node ∧
      forward .convolution ⟨[2], [], [0], [1], .explicit, []⟩ g node [] = .ok (some patch) [] ∧
      node.inputs = [⟨0, 0⟩, ⟨1, 0⟩] ∧
      g.inputFacts node.id =
        .ok [.typed .f32 (.ofLengths [1, 1, 3]), .typed .f32 (.ofLengths [1, 1, 2])] ∧
      g.fact? ⟨0, 0⟩ = some (.typed .f32 (.ofLengths [1, 1, 3])) :=
    ⟨_, _, _, rfl, rfl, rfl, rfl, rfl, rfl⟩
  obtain ⟨data, filters, _, resolved, _, begins, ends, replacement, inputs', facts', resolves,
      fact', ahead, sums⟩ := forward_keeps_sums run
  rw [inputs, List.cons.injEq, List.cons.injEq] at inputs'
  obtain ⟨rfl, rfl, -⟩ := inputs'
  rw [facts, Except.ok.injEq] at facts'
  subst facts'
  rw [fact, Option.some.injEq] at fact'
  subst fact'
  have window : resolved.window = ⟨[2], [1], [0], [1], .explicit, [0]⟩ := by
    rw [← Except.ok.inj resolves]
    rfl
  rw [window] at sums
  refine ⟨g, node, patch, begins, ends, replacement, made, there, run, ahead, fun W X => ?_⟩
  have shape : (Window.mk [2] [1] [0] [1] .explicit [0]).forwardShape ([3].map .fixed)
      ([2].map .fixed) = .ok ([2].map .fixed) := rfl
  refine (sums W X shape ?_ ?_ ?_).1
  · decide
  · decide
  · decide

/-- A stride of `2 ^ 64 - 1` is minus one with a sign, and the output that is told from that is
longer than the padded data reaches: its second position reads past the end. -/
theorem forward_reads_past_end :
    ∃ g node facts resolved patch begins ends replacement,
      g.Built ∧ g.nodes[2]? = some node ∧
      node.op = .conv .convolution ⟨[18446744073709551615], [], [0], [1], .explicit, []⟩ ∧
      g.inputFacts 2 = .ok facts ∧
      Conv.resolveForward .convolution
        ⟨[18446744073709551615], [], [0], [1], .explicit, []⟩ facts = .ok resolved ∧
      forward .convolution ⟨[18446744073709551615], [], [0], [1], .explicit, []⟩ g node [] =
        .ok (some patch) [] ∧
      PadsAhead patch node ⟨0, 0⟩ ⟨1, 0⟩ begins ends (.zeroScalar .f32) .convolution replacement ∧
      resolved.window.forwardShape [.fixed 3] [.fixed 1] = .ok [.fixed 18446744073709551614] ∧
      Inside [18446744073709551614] [1] ∧ [0] ∈ box [1] ∧
      ¬ Inside (Volume.paddedLengths begins ends [1, 1, 3])
        (0 :: 0 :: replacement.reads [1] [0]) := by
  obtain ⟨g, node, facts, resolved, patch, made, there, op, known, id, inputs, resolves, run,
      fact, window⟩ : ∃ g node facts resolved patch,
      oneConv ⟨[18446744073709551615], [], [0], [1], .explicit, []⟩ [1, 1, 3] [1, 1, 1] .empty =
        .ok ⟨⟩ g ∧
      g.nodes[2]? = some node ∧
      node.op = .conv .convolution ⟨[18446744073709551615], [], [0], [1], .explicit, []⟩ ∧
      g.inputFacts 2 = .ok facts ∧ node.id = 2 ∧ node.inputs = [⟨0, 0⟩, ⟨1, 0⟩] ∧
      Conv.resolveForward .convolution
        ⟨[18446744073709551615], [], [0], [1], .explicit, []⟩ facts = .ok resolved ∧
      forward .convolution ⟨[18446744073709551615], [], [0], [1], .explicit, []⟩ g node [] =
        .ok (some patch) [] ∧
      g.fact? ⟨0, 0⟩ = some (.typed .f32 (.ofLengths [1, 1, 3])) ∧
      resolved.window = ⟨[18446744073709551615], [1], [0], [1], .explicit, [0]⟩ :=
    ⟨_, _, _, _, _, rfl, rfl, rfl, rfl, rfl, rfl, rfl, rfl, rfl, rfl⟩
  obtain ⟨_, _, _, resolved', _, inputs', known', resolves', -, -, -, ahead⟩ :=
    forward_eq_some run
  rw [inputs, List.cons.injEq, List.cons.injEq] at inputs'
  obtain ⟨rfl, rfl, -⟩ := inputs'
  rw [id, known, Except.ok.injEq] at known'
  subst known'
  rw [resolves, Except.ok.injEq] at resolves'
  subst resolves'
  obtain ⟨_, fact', ahead⟩ := padsAhead ahead
  rw [fact, Option.some.injEq] at fact'
  subst fact'
  rw [window] at ahead
  refine ⟨g, node, facts, resolved, patch, _, _, _, built_oneConv made, there, op, known,
    resolves, run, ahead, ?_, ?_, ?_, ?_⟩
  · rw [window]
    rfl
  · decide
  · decide
  · decide

end Unpad

end EvenPad
