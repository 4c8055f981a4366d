import EvenPad.Proofs.Patch.Progress
import EvenPad.Proofs.Unpad.Forward
import EvenPad.Proofs.Unpad.Target

/-!
The nodes that a rule puts in the place of one, wherever they will be. A `Part` reads other parts,
and what the replaced node read in its slots. Main statements: what the patches of the rules bring
into a graph are such parts (`placed_padAhead`, `placed_cropDeconv`, `placed_cropFused`).
-/

namespace EvenPad

/-- What a part reads: another part, or what the replaced node reads in a slot. -/
inductive Port where
  | part (j : Nat)
  | slot (i : Nat)
  deriving DecidableEq

/-- A node among those that replace one. The part that takes over comes last. -/
structure Part where
  name : String
  op : Op
  ports : List Port
  fact : Fact
  provenance : Provenance

/-- The outlet that a part reads, if the parts are appended to a table of some size and the
replaced node has some inputs. -/
def Port.outlet (size : Nat) (inputs : List Outlet) : Port → Outlet
  | .part j => ⟨size + j, 0⟩
  | .slot i => inputs.getD i default

/-- The port leads to another part, or to one of so many inputs. -/
def Port.Within (count : Nat) : Port → Prop
  | .part _ => True
  | .slot i => i < count

namespace Part

def const (name : String) (value : Tensor) : Part :=
  ⟨name, .const value, [], .constant value, .empty⟩

/-- The part as a node that no one reads yet. -/
def node (size : Nat) (inputs : List Outlet) (p : Part) (j : Nat) : Node :=
  ⟨size + j, p.name, p.op, p.ports.map (·.outlet size inputs), [⟨p.fact, []⟩], p.provenance⟩

/-- The parts as nodes that are appended to a table. -/
def nodes (size : Nat) (inputs : List Outlet) (parts : List Part) : List Node :=
  parts.zipIdx.map fun (p, j) => p.node size inputs j

theorem nodes_getElem? {size j : Nat} {inputs : List Outlet} {parts : List Part} :
    (nodes size inputs parts)[j]? = parts[j]?.map (·.node size inputs j) := by
  simp [nodes, List.getElem?_zipIdx, Function.comp_def]

theorem op_of_mem_nodes {size : Nat} {inputs : List Outlet} {parts : List Part} {n : Node}
    (mem : n ∈ nodes size inputs parts) : ∃ part ∈ parts, n.op = part.op := by
  obtain ⟨⟨part, j⟩, among, rfl⟩ := List.mem_map.1 mem
  exact ⟨part, List.fst_mem_of_mem_zipIdx among, rfl⟩

end Part

/-- The facts that a rule looks up are the operands. -/
theorem Graph.inputFacts_eq_ok {g : Graph} {n : Node} {facts : List Fact}
    (there : g.nodes[n.id]? = some n) : g.inputFacts n.id = .ok facts ↔
      List.Forall₂ (fun o f => g.fact? o = some f) n.inputs facts := by
  simp only [inputFacts, Checked.bind_eq_ok, nodeAt, Checked.ofPresent_eq_ok,
    Checked.mapM_eq_ok_iff, outletFact_eq_ok]
  constructor
  · rintro ⟨m, here, known⟩
    cases there.symm.trans here
    exact known
  · intro known
    exact ⟨n, there, known⟩

theorem Graph.Signed.operands_eq {g : Graph} {n : Node} {σ : Signature} {facts : List Fact}
    (signed : g.Signed n σ) (there : g.nodes[n.id]? = some n)
    (known : g.inputFacts n.id = .ok facts) : facts = σ.operands :=
  facts_unique ((inputFacts_eq_ok there).1 known) signed.operands

/-- An operand is the fact of an input. -/
theorem Graph.Signed.operand {g : Graph} {n : Node} {σ : Signature} {i : Nat}
    {o : Outlet} {fact : Fact} (signed : g.Signed n σ) (input : n.inputs[i]? = some o)
    (known : g.fact? o = some fact) :
    σ.operands[i]? = some fact := by
  obtain ⟨lt, rfl⟩ := List.getElem?_eq_some_iff.1 input
  have lt' : i < σ.operands.length := signed.operands.length_eq ▸ lt
  have same := (List.forall₂_iff_get.1 signed.operands).2 i lt lt'
  rw [List.get_eq_getElem, known] at same
  rw [List.getElem?_eq_getElem lt', Option.some.inj same]
  rfl

theorem Graph.Signed.operands_cons {g : Graph} {n : Node} {σ : Signature} {data filters : Outlet}
    {dataFact filtersFact : Fact} (signed : g.Signed n σ) (dataInput : n.inputs[0]? = some data)
    (filtersInput : n.inputs[1]? = some filters) (dataKnown : g.fact? data = some dataFact)
    (filtersKnown : g.fact? filters = some filtersFact) :
    ∃ rest, σ.operands = dataFact :: filtersFact :: rest := by
  have first := signed.operand dataInput dataKnown
  have second := signed.operand filtersInput filtersKnown
  rcases operands : σ.operands with _ | ⟨a, _ | ⟨b, rest⟩⟩
  · simp [operands] at first
  · simp [operands] at second
  · rw [operands] at first second
    cases Option.some.inj first
    cases Option.some.inj second
    exact ⟨rest, rfl⟩

namespace Unpad

variable {g : Graph} {node : Node} {kind : ConvKind} {w : Window} {takesOutputShape : Bool}
  {plan : Plan} {cropped : Fact} {p : Patch} {d : Draft} {k : Nat}
  {type : ElementType} {label : String} {data filters addend : Outlet}
  {tapped : List (Outlet × Fact)} {dataTap filtersTap addendTap size : Nat}

/-! ## The parts -/

/-- What pads the data of a forward convolution and convolves what comes out. -/
def forwardParts (name : String) (notes : Provenance) (kind : ConvKind) (resolved : Window)
    (type : ElementType) (padded made : Fact) : List Part :=
  [.const (name ++ ".pads_begin") (.vector (Window.fullPads resolved.padsBegin)),
    .const (name ++ ".pads_end") (.vector (Window.fullPads resolved.padsEnd)),
    .const (name ++ ".pad_value") (.zeroScalar type),
    ⟨name ++ ".pad", .pad, [.slot 0, .part 0, .part 1, .part 2], padded, .empty⟩,
    ⟨name, .conv kind resolved.unpadded, [.part 3, .slot 1], made, notes⟩]

/-- What cuts the output of a part back. It comes after some other parts. -/
def cutParts (name : String) (notes : Provenance) (plan : Plan) (k start : Nat) (cropped : Fact) :
    List Part :=
  [.const (name ++ ".slice_begin") (.vector plan.sliceBegins),
    .const (name ++ ".slice_end") (.vector plan.sliceEnds),
    .const (name ++ ".slice_strides") (.vector (List.replicate (plan.inflated.length + 2) 1)),
    ⟨name, .stridedSlice wholeAxes wholeAxes,
      [.part k, .part start, .part (start + 1), .part (start + 2)], cropped, notes⟩]

/-- A transposed convolution without pads that is asked for a larger output, and what cuts that
back. -/
def deconvParts (name : String) (notes : Provenance) (kind : ConvKind) (plan : Plan)
    (inflated cropped : Fact) : List Part :=
  [.const (name ++ ".unpadded.output_shape") plan.outputShape,
    ⟨name ++ ".unpadded", .deconv kind plan.window.unpadded true, [.slot 0, .slot 1, .part 0],
      inflated, notes⟩] ++ cutParts name notes plan 1 2 cropped

/-- The same with an addend. It is asked for an output if the replaced node was. -/
def fusedParts (name : String) (notes : Provenance) (takesOutputShape : Bool) (plan : Plan)
    (built inflated cropped : Fact) : List Part :=
  if takesOutputShape then
    [.const (name ++ ".unpadded.output_shape") plan.outputShape,
      ⟨name ++ ".unpadded", .fusedDeconv plan.window.unpadded true built,
        [.slot 0, .slot 1, .part 0, .slot 3], inflated,
        notes⟩] ++ cutParts name notes plan 1 2 cropped
  else
    [⟨name ++ ".unpadded", .fusedDeconv plan.window.unpadded false built,
        [.slot 0, .slot 1, .slot 2], inflated, notes⟩] ++ cutParts name notes plan 0 1 cropped

/-- The slice of a plan changes the type of a fact, to a given one. -/
structure Slices (plan : Plan) (inflated fact : Fact) : Prop where
  differs : inflated.sameType fact = false
  sliced : StridedSlice.outputFact wholeAxes wholeAxes inflated
    (.constant (.vector plan.sliceBegins)) (.constant (.vector plan.sliceEnds))
    (some (.constant (.vector (List.replicate (plan.inflated.length + 2) 1)))) = .ok fact

/-- The parts that a rule puts in the place of a node with a signature and notes. Each infers its
fact from those of the parts and the operands that it reads. -/
inductive Replaces : Signature → Provenance → List Part → Prop
  | forward {name : String} {notes : Provenance} {kind : ConvKind} {w : Window}
      {data filters fact padded : Fact} {r : Resolution} :
    Conv.resolveForward kind w [data, filters] = .ok r → r.padsKnown = true →
      r.window.isAsymmetric = true →
      Op.pad.outputFact [data, .constant (.vector (Window.fullPads r.window.padsBegin)),
        .constant (.vector (Window.fullPads r.window.padsEnd)),
        .constant (.zeroScalar data.elementType)] = .ok padded →
      (Op.conv kind r.window.unpadded).outputFact [padded, filters] = .ok fact →
      Replaces ⟨name, .conv kind w, [data, filters], fact⟩ notes
        (forwardParts name notes kind r.window data.elementType padded fact)
  | deconv {name : String} {notes : Provenance} {kind : ConvKind} {w : Window}
      {takesOutputShape : Bool} {data filters fact inflated : Fact} {rest : List Fact}
      {r : Resolution} {plan : Plan} :
    Conv.resolveDeconv kind w takesOutputShape (data :: filters :: rest) = .ok r →
      Plans r fact plan →
      (Op.deconv kind plan.window.unpadded true).outputFact
        [data, filters, .constant plan.outputShape] = .ok inflated →
      Slices plan inflated fact →
      Replaces ⟨name, .deconv kind w takesOutputShape, data :: filters :: rest, fact⟩ notes
        (deconvParts name notes kind plan inflated fact)
  | fusedDeconv {name : String} {notes : Provenance} {w : Window} {takesOutputShape : Bool}
      {built data filters addend fact inflated : Fact} {rest : List Fact} {r : Resolution}
      {plan : Plan} :
    Conv.resolveFused w takesOutputShape (data :: filters :: rest) = .ok r →
      rest[takesOutputShape.toNat]? = some addend → Plans r fact plan →
      (Op.fusedDeconv plan.window.unpadded takesOutputShape addend.withoutValue).outputFact
        (fusedFacts takesOutputShape data filters (.constant plan.outputShape) addend) =
          .ok inflated →
      Slices plan inflated fact →
      Replaces ⟨name, .fusedDeconv w takesOutputShape built, data :: filters :: rest, fact⟩ notes
        (fusedParts name notes takesOutputShape plan addend.withoutValue inflated fact)

/-- A signature and its notes tell the parts. -/
theorem Replaces.unique {σ : Signature} {notes : Provenance} {parts parts' : List Part}
    (replaces : Replaces σ notes parts) (replaces' : Replaces σ notes parts') :
    parts = parts' := by
  cases replaces with
  | forward resolves _ _ pads convolves =>
    cases replaces' with
    | forward resolves' _ _ pads' _ =>
      cases resolves.symm.trans resolves'
      cases pads.symm.trans pads'
      rfl
  | deconv resolves plans convolves slices =>
    cases replaces' with
    | deconv resolves' plans' convolves' slices' =>
      cases resolves.symm.trans resolves'
      cases plans.unique plans'
      cases convolves.symm.trans convolves'
      rfl
  | fusedDeconv resolves adds plans convolves slices =>
    cases replaces' with
    | fusedDeconv resolves' adds' plans' convolves' slices' =>
      cases resolves.symm.trans resolves'
      cases adds.symm.trans adds'
      cases plans.unique plans'
      cases convolves.symm.trans convolves'
      rfl

/-! ## Where they are placed -/

/-- A node of a draft is a part: what it reads in the patch stands for what the part reads. -/
structure IsPart (w : Wires) (size : Nat) (inputs : List Outlet) (n : Node)
    (part : Part) : Prop where
  name : n.name = part.name
  op : n.op = part.op
  facts : n.facts = [part.fact]
  provenance : n.provenance = part.provenance
  reads : List.Forall₂ (fun o port => w.place o = port.outlet size inputs) n.inputs part.ports

theorem placed_eq_nodes {inputs : List Outlet} {parts : List Part}
    (areParts : List.Forall₂ (IsPart (d.wires size) size inputs) d.nodes parts) :
    d.placed size = Part.nodes size inputs parts := by
  apply List.ext_getElem?
  intro j
  rw [Draft.placed_getElem?, Part.nodes_getElem?]
  by_cases lt : j < d.nodes.length
  · have lt' : j < parts.length := areParts.length_eq ▸ lt
    have isPart : IsPart (d.wires size) size inputs d.nodes[j] parts[j] :=
      (List.forall₂_iff_get.1 areParts).2 j lt lt'
    have reads : d.nodes[j].inputs.map (d.wires size).place =
        parts[j].ports.map (·.outlet size inputs) := by
      rw [← List.forall₂_eq_eq_eq, List.forall₂_map_left_iff, List.forall₂_map_right_iff]
      exact isPart.reads
    rw [List.getElem?_eq_getElem lt, List.getElem?_eq_getElem lt', Option.map_some,
      Option.map_some, Node.placed, Part.node, isPart.name, isPart.op,
      isPart.facts, isPart.provenance]
    simp only [reads, List.map_cons, List.map_nil]
  · rw [List.getElem?_eq_none (by omega),
      List.getElem?_eq_none (by rw [← areParts.length_eq]; omega)]
    rfl

/-- A tap stands for an input of the replaced node. -/
theorem place_slot {o : Outlet} {fact : Fact} {inputs : List Outlet} {i t : Nat}
    (described : d.Describes g p) (tap : d.tapped[t]? = some (o, fact))
    (input : inputs[i]? = some o) :
    (d.wires size).place ⟨t, 0⟩ = Port.outlet size inputs (.slot i) := by
  rw [Wires.place_of_find? (described.find?_tap tap), Port.outlet, List.getD_eq_getElem?_getD,
    input, Option.getD_some]

/-- The patch for a forward convolution brings in its parts. -/
theorem placed_padAhead {padded made : Fact} {dataFact filtersFact : Fact}
    {shunts : List (Outlet × Outlet)}
    (described : Draft.Describes ⟨[label], tapped,
      padAheadNodes node kind w type padded made tapped.length dataTap filtersTap, shunts⟩ g p)
    (inputs : node.inputs = [data, filters])
    (dataAt : tapped[dataTap]? = some (data, dataFact))
    (filtersAt : tapped[filtersTap]? = some (filters, filtersFact)) :
    Draft.placed ⟨[label], tapped,
        padAheadNodes node kind w type padded made tapped.length dataTap filtersTap,
        shunts⟩ size =
      Part.nodes size node.inputs
        (forwardParts node.name node.provenance kind w type padded made) := by
  have dataInput : node.inputs[0]? = some data := by
    rw [inputs]
    rfl
  have filtersInput : node.inputs[1]? = some filters := by
    rw [inputs]
    rfl
  refine placed_eq_nodes ?_
  refine .cons ⟨rfl, rfl, rfl, rfl, .nil⟩ (.cons ⟨rfl, rfl, rfl, rfl, .nil⟩
    (.cons ⟨rfl, rfl, rfl, rfl, .nil⟩ (.cons ⟨rfl, rfl, rfl, rfl, ?_⟩
      (.cons ⟨rfl, rfl, rfl, rfl, ?_⟩ .nil))))
  · exact .cons (place_slot described dataAt dataInput)
      (.cons (described.place_wire (k := 0) rfl) (.cons (described.place_wire (k := 1) rfl)
        (.cons (described.place_wire (k := 2) rfl) .nil)))
  · exact .cons (described.place_wire (k := 3) rfl)
      (.cons (place_slot described filtersAt filtersInput) .nil)

/-- The nodes that cut the output of a node without pads back, the first of them at a position. -/
def sliceNodes (node : Node) (plan : Plan) (unpadded : Outlet) (t : Nat) (cropped : Fact) :
    List Node :=
  let begins := Tensor.vector plan.sliceBegins
  let ends := Tensor.vector plan.sliceEnds
  let strides := Tensor.vector (List.replicate (plan.inflated.length + 2) 1)
  [.fresh t (node.name ++ ".slice_begin") (.const begins) [] (.constant begins),
    .fresh (t + 1) (node.name ++ ".slice_end") (.const ends) [] (.constant ends),
    .fresh (t + 2) (node.name ++ ".slice_strides") (.const strides) [] (.constant strides),
    { Node.fresh (t + 3) node.name (.stridedSlice wholeAxes wholeAxes)
        [unpadded, ⟨t, 0⟩, ⟨t + 1, 0⟩, ⟨t + 2, 0⟩] cropped with provenance := node.provenance }]

/-- The nodes of a draft that is cut back. -/
theorem nodes_cutBack (here : k < d.nodes.length) :
    (d.cutBack node plan k cropped).nodes =
      d.nodes.modify k (fun n => { n with provenance := n.provenance.merge node.provenance }) ++
        sliceNodes node plan (d.wire k) (d.tapped.length + d.nodes.length) cropped := by
  have sliced (a b c s : Node) : d.nodes ++ [a] ++ [b] ++ [c] ++ [s] =
      d.nodes ++ [a, b, c, s] := by
    simp
  simp only [Draft.cutBack, Draft.note, Draft.push, sliced]
  rw [modify_append_left here]
  have length : d.nodes.length + 3 = (d.nodes.modify k fun n =>
      { n with provenance := n.provenance.merge node.provenance }).length + 3 := by simp
  rw [length, modify_append_right]
  simp [sliceNodes, Draft.wire, Node.fresh, Nat.add_assoc]

theorem cutBack_getElem? {n : Node} (here : d.nodes[k]? = some n) :
    (d.cutBack node plan k cropped).nodes[k]? =
      some { n with provenance := n.provenance.merge node.provenance } := by
  have lt : k < d.nodes.length := (List.getElem?_eq_some_iff.1 here).1
  rw [nodes_cutBack lt, List.getElem?_append_left (by simpa using lt), List.getElem?_modify, here]
  simp

/-- The slice comes last. -/
theorem cutBack_getElem?_last (here : k < d.nodes.length) :
    (d.cutBack node plan k cropped).nodes[d.nodes.length + 3]? =
      some { Node.fresh (d.tapped.length + d.nodes.length + 3) node.name
        (.stridedSlice wholeAxes wholeAxes)
        [d.wire k, ⟨d.tapped.length + d.nodes.length, 0⟩,
          ⟨d.tapped.length + d.nodes.length + 1, 0⟩,
          ⟨d.tapped.length + d.nodes.length + 2, 0⟩] cropped with
        provenance := node.provenance } := by
  rw [nodes_cutBack here, List.getElem?_append_right (by simp)]
  simp [sliceNodes]

/-- Cutting back adds the parts of a cut to those of the draft. -/
theorem placed_cutBack {inputs : List Outlet} {parts : List Part} {n : Node}
    (described : (d.cutBack node plan k cropped).Describes g p) (here : d.nodes[k]? = some n)
    (areParts : List.Forall₂ (IsPart ((d.cutBack node plan k cropped).wires size) size inputs)
      (d.nodes.modify k fun n =>
        { n with provenance := n.provenance.merge node.provenance }) parts) :
    (d.cutBack node plan k cropped).placed size =
      Part.nodes size inputs
        (parts ++ cutParts node.name node.provenance plan k d.nodes.length cropped) := by
  have lt : k < d.nodes.length := (List.getElem?_eq_some_iff.1 here).1
  have nodes : (d.cutBack node plan k cropped).nodes = _ := nodes_cutBack lt
  have later {j : Nat} {m : Node} (slice : (sliceNodes node plan (d.wire k)
      (d.tapped.length + d.nodes.length) cropped)[j]? = some m) :
      ((d.cutBack node plan k cropped).wires size).place
          ⟨d.tapped.length + (d.nodes.length + j), 0⟩ =
        ⟨size + (d.nodes.length + j), 0⟩ := by
    refine described.place_wire (k := d.nodes.length + j) (n := m) ?_
    rw [nodes, List.getElem?_append_right (by simp), List.length_modify,
      Nat.add_sub_cancel_left, slice]
  have earlier : ((d.cutBack node plan k cropped).wires size).place ⟨d.tapped.length + k, 0⟩ =
      ⟨size + k, 0⟩ := described.place_wire (cutBack_getElem? here)
  refine placed_eq_nodes ?_
  rw [nodes]
  refine List.rel_append areParts ?_
  refine .cons ⟨rfl, rfl, rfl, rfl, .nil⟩ (.cons ⟨rfl, rfl, rfl, rfl, .nil⟩
    (.cons ⟨rfl, rfl, rfl, rfl, .nil⟩ (.cons ⟨rfl, rfl, rfl, rfl, ?_⟩ .nil)))
  exact .cons earlier (.cons (later (j := 0) rfl)
    (.cons (later (j := 1) rfl) (.cons (later (j := 2) rfl) .nil)))

/-- The patch for a transposed convolution brings in its parts. -/
theorem placed_cropDeconv {inflated dataFact filtersFact : Fact}
    (described : (Draft.cutBack ⟨[label], tapped,
      unpaddedDeconv node kind plan inflated tapped.length dataTap filtersTap, []⟩ node plan 1
      cropped).Describes g p)
    (dataInput : node.inputs[0]? = some data) (filtersInput : node.inputs[1]? = some filters)
    (dataAt : tapped[dataTap]? = some (data, dataFact))
    (filtersAt : tapped[filtersTap]? = some (filters, filtersFact)) :
    (Draft.cutBack ⟨[label], tapped,
        unpaddedDeconv node kind plan inflated tapped.length dataTap filtersTap, []⟩ node plan 1
        cropped).placed size =
      Part.nodes size node.inputs
        (deconvParts node.name node.provenance kind plan inflated cropped) := by
  refine placed_cutBack described rfl ?_
  refine .cons ⟨rfl, rfl, rfl, rfl, .nil⟩ (.cons ⟨rfl, rfl, rfl, Provenance.empty_merge, ?_⟩ .nil)
  exact .cons (place_slot described dataAt dataInput) (.cons
    (place_slot described filtersAt filtersInput) (.cons
      (described.place_wire (k := 0) rfl) .nil))

/-- The patch for a transposed convolution with an addend brings in its parts. -/
theorem placed_cropFused {built inflated dataFact filtersFact addendFact : Fact}
    (described : (Draft.cutBack ⟨[label], tapped,
          unpaddedFused node takesOutputShape plan built inflated
      tapped.length dataTap filtersTap addendTap, []⟩ node plan takesOutputShape.toNat
      cropped).Describes g p)
    (dataInput : node.inputs[0]? = some data) (filtersInput : node.inputs[1]? = some filters)
    (addendInput : node.inputs[2 + takesOutputShape.toNat]? = some addend)
    (dataAt : tapped[dataTap]? = some (data, dataFact))
    (filtersAt : tapped[filtersTap]? = some (filters, filtersFact))
    (addendAt : tapped[addendTap]? = some (addend, addendFact)) :
    (Draft.cutBack ⟨[label], tapped, unpaddedFused node takesOutputShape plan built inflated
        tapped.length dataTap filtersTap addendTap, []⟩ node plan takesOutputShape.toNat
        cropped).placed size =
      Part.nodes size node.inputs
        (fusedParts node.name node.provenance takesOutputShape plan built inflated cropped) := by
  cases takesOutputShape with
  | false =>
    refine placed_cutBack described rfl ?_
    refine .cons ⟨rfl, rfl, rfl, Provenance.empty_merge, ?_⟩ .nil
    exact .cons (place_slot described dataAt dataInput)
      (.cons (place_slot described filtersAt filtersInput)
        (.cons (place_slot described addendAt addendInput) .nil))
  | true =>
    refine placed_cutBack described rfl ?_
    refine .cons ⟨rfl, rfl, rfl, rfl, .nil⟩
      (.cons ⟨rfl, rfl, rfl, Provenance.empty_merge, ?_⟩ .nil)
    exact .cons (place_slot described dataAt dataInput)
      (.cons (place_slot described filtersAt filtersInput)
        (.cons (described.place_wire (k := 0) rfl)
          (.cons (place_slot described addendAt addendInput) .nil)))

end Unpad

end EvenPad
