import EvenPad.Proofs.Graph.Progress
import EvenPad.Proofs.Strict.Op

/-!
What wiring a node does to the rest of a graph. A new node reads outlets, some of them perhaps
more than once, and each of these lists the slots that read it behind its other readers
(`readings`); nothing else that was there changes. Main statement: `wire_exact`, a node is wired
in this way as soon as its operator infers a fact from those of its inputs, and otherwise the
graph is what it was.
-/

namespace EvenPad

variable {n n' : Node} {added : Nat → List Inlet}

/-- The inlets that read an outlet, when the slots of a node from a first one on read some
outlets. -/
def readings (id first : Nat) (outlets : List Outlet) (o : Outlet) : List Inlet :=
  ((outlets.zipIdx first).filter fun (source, _) => source = o).map fun (_, slot) => ⟨id, slot⟩

theorem readings_cons (id first : Nat) (source : Outlet) (rest : List Outlet) (o : Outlet) :
    readings id first (source :: rest) o =
      (if o = source then [⟨id, first⟩] else []) ++ readings id (first + 1) rest o := by
  simp only [readings, List.zipIdx_cons, List.filter_cons, decide_eq_true_eq, eq_comm (a := o)]
  split <;> rfl

/-- An outlet that is not among those that are read has no readings. -/
theorem readings_eq_nil {id first : Nat} {outlets : List Outlet} {o : Outlet}
    (unread : o ∉ outlets) :
    readings id first outlets o = [] := by
  rw [readings, List.map_eq_nil_iff, List.filter_eq_nil_iff]
  intro pair mem
  obtain ⟨source, slot⟩ := pair
  have other : source ≠ o := fun same => unread (same ▸ List.fst_mem_of_mem_zipIdx mem)
  simpa using other

/-- The node with more readers behind those that each of its outlets has. -/
def Node.gaining (added : Nat → List Inlet) (n : Node) : Node :=
  { n with
    outputs := n.outputs.mapIdx fun slot out =>
      { out with successors := out.successors ++ added slot } }

/-- A node is known by its facts and readers, and what it has besides. -/
theorem Node.eq_gaining (bare : n'.bare = n.bare)
    (readers : ∀ slot : Nat, (n'.outputs[slot]?).elim [] Output.successors =
      (n.outputs[slot]?).elim [] Output.successors ++ added slot) : n' = n.gaining added := by
  have facts : n'.facts = n.facts := by rw [← Node.facts_bare, bare, Node.facts_bare]
  have outputs : n'.outputs = (n.gaining added).outputs := by
    refine List.ext_getElem? fun slot => ?_
    have fact : (n'.outputs[slot]?).map Output.fact = (n.outputs[slot]?).map Output.fact := by
      rw [← List.getElem?_map, ← List.getElem?_map]
      exact congrArg (·[slot]?) facts
    have read := readers slot
    rw [Node.gaining, List.getElem?_mapIdx]
    cases before : n.outputs[slot]? with
    | none =>
      rw [before, Option.map_none, Option.map_eq_none_iff] at fact
      rw [fact, Option.map_none]
    | some out =>
      rw [before, Option.map_some, Option.map_eq_some_iff] at fact
      obtain ⟨out', after, fact⟩ := fact
      rw [before, after] at read
      obtain ⟨fact', successors⟩ := out'
      obtain rfl : fact' = out.fact := fact
      obtain rfl : successors = out.successors ++ added slot := read
      rw [after, Option.map_some]
  obtain ⟨id, name, op, inputs, outs, provenance⟩ := n'
  simp only [Node.bare, Node.mk.injEq] at bare
  obtain ⟨rfl, rfl, rfl, rfl, -, rfl⟩ := bare
  dsimp only at outputs
  rw [outputs]
  rfl

namespace Graph

variable {g g' : Graph} {o : Outlet} {id : Nat} {name : String} {op : Op} {fact : Fact}
  {inputs outlets : List Outlet} {failure : Failure} {u : Unit}

/-! ## Readers -/

/-- When the next slots of a node are linked, each outlet lists those that read it, in their
order. -/
theorem readers_linkSlots {n : Node} (node : g.nodes[id]? = some n)
    (read_there : ∀ {i o}, g.source? i = some o → (g.output? o).isSome)
    (run : (forM (outlets.zipIdx n.inputs.length) fun (o, slot) => connect o ⟨id, slot⟩ :
      Edit Graph Unit) g = .ok u g') :
    g'.readers o = g.readers o ++ readings id n.inputs.length outlets o := by
  induction outlets generalizing g n with
  | nil =>
    obtain ⟨-, rfl⟩ := Edit.pure_eq_ok.1 run
    exact (List.append_nil _).symm
  | cons source rest ih =>
    rw [List.zipIdx_cons, List.forM_cons] at run
    obtain ⟨_, g₁, head, tail⟩ := Edit.bind_eq_ok.1 run
    obtain ⟨there, -, rfl⟩ := connect_eq_ok head
    obtain ⟨n₁, node₁, inputs₁⟩ := node_link_next (o := source) node
    have length₁ : n₁.inputs.length = n.inputs.length + 1 := by
      rw [inputs₁, List.length_append, List.length_singleton]
    have nothing : g.source? ⟨id, n.inputs.length⟩ = none := by simp [source?, node]
    rw [← length₁] at tail
    rw [ih node₁ (there_link there node (Nat.le_refl _) read_there) tail,
      readers_link read_there there, nothing, if_neg (by simp), List.append_assoc,
      length₁, readings_cons]

theorem readers_wire (symmetric : g.Symmetric) {x : Outlet}
    (run : wire name op inputs g = .ok x g') :
    g'.readers o = g.readers o ++ readings g.size 0 inputs o := by
  simp only [wire, Edit.within_eq_ok, Edit.get_bind_apply, Edit.bind_eq_ok, Edit.lift_eq_ok,
    addNode, Edit.set_bind_apply, Edit.pure_eq_ok] at run
  obtain ⟨_, _, ⟨-, rfl⟩, fact, _, ⟨-, rfl⟩, _, _, ⟨rfl, rfl⟩, _, _, linked, -, rfl⟩ := run
  have fresh : ∀ out ∈ (Node.fresh g.size name op [] fact).outputs, out.successors = [] := by
    simp [Node.fresh]
  have appended : (g.append name op [fact]).Symmetric :=
    (keepsEdges_push rfl fresh).symmetric symmetric
  have node : (g.append name op [fact]).nodes[g.size]? = some (.fresh g.size name op [] fact) :=
    push_getElem?_size
  rw [readers_linkSlots node appended.there linked]
  congr 1
  exact readers_push fresh

/-! ## The graph with one node more -/

/-- The graph has one node more, and what is read by it lists that. -/
structure Grows (g : Graph) (n : Node) (g' : Graph) : Prop where
  size : g'.size = g.size + 1
  last : g'.nodes[g.size]? = some n
  kept : ∀ {k : Nat} {m : Node}, g.nodes[k]? = some m →
    g'.nodes[k]? = some (m.gaining fun slot => readings g.size 0 n.inputs ⟨k, slot⟩)
  inputs : g'.inputs = g.inputs
  outputs : g'.outputs = g.outputs

theorem Grows.ids {n : Node} (grows : g.Grows n g') (id : n.id = g.size)
    (ids : ∀ {k : Nat} {m : Node}, g.nodes[k]? = some m → m.id = k) {k : Nat} {m : Node}
    (there : g'.nodes[k]? = some m) : m.id = k := by
  have lt : k < g'.size := (List.getElem?_eq_some_iff.1 there).1
  rw [grows.size] at lt
  rcases Nat.lt_succ_iff_lt_or_eq.1 lt with old | rfl
  · have before := List.getElem?_eq_getElem (show k < g.nodes.length from old)
    have position := ids before
    cases there.symm.trans (grows.kept before)
    exact position
  · cases there.symm.trans grows.last
    exact id

theorem wire_grows (symmetric : g.Symmetric) (run : wire name op inputs g = .ok o g') :
    ∃ facts fact, List.Forall₂ (fun o f => g.fact? o = some f) inputs facts ∧
      op.outputFact facts = .ok fact ∧ o = ⟨g.size, 0⟩ ∧
      g.Grows (.fresh g.size name op inputs fact) g' ∧ g'.Symmetric := by
  obtain ⟨rfl, facts, fact, known, inferred, bare, keeps⟩ := wire_eq_ok run
  have nodes {k : Nat} : g'.nodes[k]?.map Node.bare =
      if k = g.size then some (.fresh g.size name op inputs fact)
        else g.nodes[k]?.map Node.bare := by
    rw [← bare_getElem?, bare, push_getElem?, bare_size, bare_getElem?]
  have grown {k : Nat} {m m' : Node} (there' : g'.nodes[k]? = some m') (same : m'.bare = m.bare)
      (readers : ∀ slot, (m.outputs[slot]?).elim [] Output.successors = g.readers ⟨k, slot⟩) :
      m' = m.gaining fun slot => readings g.size 0 inputs ⟨k, slot⟩ := by
    refine Node.eq_gaining same fun slot => ?_
    have read := readers_wire (o := ⟨k, slot⟩) symmetric run
    rw [← readers slot] at read
    rw [← read, Graph.readers, output?, there']
    rfl
  refine ⟨facts, fact, known, inferred, rfl, ⟨?_, ?_, ?_, ?_, ?_⟩, keeps.symmetric symmetric⟩
  · rw [← bare_size, bare, push, size, List.length_append, List.length_singleton]
    exact congrArg (· + 1) bare_size
  · obtain ⟨m', there', same⟩ := Option.map_eq_some_iff.1 (nodes.trans (if_pos rfl))
    have past : g.nodes[g.size]? = none := List.getElem?_eq_none (Nat.le_refl _)
    have unread (slot : Nat) : readings g.size 0 inputs ⟨g.size, slot⟩ = [] := by
      refine readings_eq_nil fun mem => ?_
      obtain ⟨f, -, found⟩ := forall₂_of_mem known mem
      exact Nat.lt_irrefl _ (lt_size_of_isSome (isSome_output?_iff_fact?.2 ⟨f, found⟩))
    rw [there', grown there' (m := .fresh g.size name op inputs fact) same fun slot => ?_]
    · simp [Node.gaining, Node.fresh, unread]
    · cases slot <;> simp [Graph.readers, output?, past, Node.fresh]
  · intro k m there
    have old : k ≠ g.size := Nat.ne_of_lt (List.getElem?_eq_some_iff.1 there).1
    have same := (nodes (k := k)).trans (if_neg old)
    rw [there, Option.map_some, Option.map_eq_some_iff] at same
    obtain ⟨m', there', same⟩ := same
    rw [there', grown there' same fun slot => by rw [Graph.readers, output?, there]; rfl]
    rfl
  · have same : g'.bare.inputs = g.bare.inputs := by rw [bare, push]
    exact same
  · have same : g'.bare.outputs = g.bare.outputs := by rw [bare, push]
    exact same

/-! ## Refusals -/

theorem outletFact_faultless : (g.outletFact o).Faultless :=
  Checked.faultless_ofOption.bind fun _ _ => Checked.faultless_ofOption.bind fun _ _ =>
    Checked.faultless_pure

open Strict in
/-- An operator refuses the facts that it does not accept, as long as strides are words and
extents are numbers with a sign. -/
theorem outputFact_faultless {facts : List Fact} (words : op.WordStrides)
    (small : ∀ f ∈ facts, f.shape.Small) : (op.outputFact facts).Faultless := by
  cases op with
  | conv kind w => exact (gives_resolveForward words).map.faultless
  | deconv kind w takes => exact gives_resolveDeconv.map.faultless
  | fusedDeconv w takes built => exact gives_fusedFact.faultless
  | pad => exact gives_pad.faultless
  | stridedSlice beginMask endMask => exact (gives_slice small).faultless
  | const value => exact Checked.faultless_pure
  | source fact =>
    cases facts with
    | nil => exact Checked.faultless_pure
    | cons => exact Checked.faultless_refuse

theorem wire_refused (words : op.WordStrides)
    (small : ∀ o ∈ inputs, ∀ f, g.fact? o = some f → f.shape.Small)
    (run : wire name op inputs g = .error failure g') :
    ∃ places cause, failure = .refused (.wiring name op :: places) cause := by
  obtain ⟨-, cause, rfl, cases⟩ := wire_error_cases run
  have told : ∀ fault, cause ≠ .faulty fault := by
    rintro fault rfl
    rcases cases with unknown | ⟨facts, known, rejected⟩
    · exact Checked.faultless_mapM (fun _ _ => outletFact_faultless) fault unknown
    · have small : ∀ f ∈ facts, f.shape.Small := by
        intro f mem
        obtain ⟨o, read, found⟩ := forall₂_of_mem known.flip mem
        exact small o read f found
      exact (outputFact_faultless words small).within fault rejected
  cases cause with
  | refused places cause => exact ⟨places, cause, rfl⟩
  | faulty fault => exact absurd rfl (told fault)

/-- In a graph whose edges are known at both ends a node is wired if its operator infers a fact
from those of its inputs. It comes last and takes the fact, the outlets that it reads list it, and
nothing else changes. Otherwise wiring fails, with a refusal that names the node unless numbers
are too large, and leaves the graph as it was. -/
theorem wire_exact (ids : ∀ {k : Nat} {n : Node}, g.nodes[k]? = some n → n.id = k)
    (symmetric : g.Symmetric) (name : String) (op : Op) (inputs : List Outlet) :
    (∃ facts fact g', List.Forall₂ (fun o f => g.fact? o = some f) inputs facts ∧
      op.outputFact facts = .ok fact ∧ wire name op inputs g = .ok ⟨g.size, 0⟩ g' ∧
      g.Grows (.fresh g.size name op inputs fact) g' ∧ g'.Symmetric ∧
      ∀ {k : Nat} {n : Node}, g'.nodes[k]? = some n → n.id = k) ∨
    (¬ ∃ facts fact, List.Forall₂ (fun o f => g.fact? o = some f) inputs facts ∧
      op.outputFact facts = .ok fact) ∧
    ∃ failure, wire name op inputs g = .error failure g ∧
      (op.WordStrides → (∀ o ∈ inputs, ∀ f, g.fact? o = some f → f.shape.Small) →
        ∃ places cause, failure = .refused (.wiring name op :: places) cause) := by
  cases run : wire name op inputs g with
  | ok o g' =>
    obtain ⟨facts, fact, known, inferred, rfl, grows, symmetric'⟩ := wire_grows symmetric run
    exact .inl ⟨facts, fact, g', known, inferred, rfl, grows, symmetric', grows.ids rfl ids⟩
  | error failure g' =>
    have untouched := wire_eq_error run
    refine .inr ⟨?_, failure, by rw [untouched], fun words small => wire_refused words small run⟩
    intro ⟨facts, fact, known, inferred⟩
    obtain ⟨o, g'', made⟩ := wire_ok name known inferred
    rw [made] at run
    cases run

/-- A source and a constant that it can be padded with. -/
def paddable : Edit Graph Unit := do
  let _ ← addSource "x" (.typed .f32 (.ofLengths [2]))
  let _ ← addConst "pads" (.vector [1])

/-- The constant gives the pads on both sides, and a pad without pads is refused. -/
theorem wire_exact_paddable : ∃ g, paddable .empty = .ok ⟨⟩ g ∧
    (∀ {k : Nat} {n : Node}, g.nodes[k]? = some n → n.id = k) ∧ g.Symmetric ∧
    (∃ g', wire "pad" .pad [⟨0, 0⟩, ⟨1, 0⟩, ⟨1, 0⟩] g = .ok ⟨2, 0⟩ g' ∧
      g.Grows (.fresh 2 "pad" .pad [⟨0, 0⟩, ⟨1, 0⟩, ⟨1, 0⟩] (.typed .f32 (.ofLengths [4]))) g') ∧
    ∃ failure, wire "bad" .pad [⟨0, 0⟩] g = .error failure g := by
  obtain ⟨g, g₁, made, source, const, size, known, inferred, rejected⟩ : ∃ g g₁,
      paddable .empty = .ok ⟨⟩ g ∧
      addSource "x" (.typed .f32 (.ofLengths [2])) .empty = .ok ⟨0, 0⟩ g₁ ∧
      addConst "pads" (.vector [1]) g₁ = .ok ⟨1, 0⟩ g ∧ g.size = 2 ∧
      List.Forall₂ (fun o f => g.fact? o = some f) [⟨0, 0⟩, ⟨1, 0⟩, ⟨1, 0⟩]
        [.typed .f32 (.ofLengths [2]), .constant (.vector [1]), .constant (.vector [1])] ∧
      Op.pad.outputFact [.typed .f32 (.ofLengths [2]), .constant (.vector [1]),
        .constant (.vector [1])] =
        .ok (.typed .f32 (.ofLengths [4])) ∧
      ∀ fact, Op.pad.outputFact [.typed .f32 (.ofLengths [2])] ≠ .ok fact :=
    ⟨_, _, rfl, rfl, rfl, rfl, .cons rfl (.cons rfl (.cons rfl .nil)), by decide,
      fun _ told => by cases told⟩
  have wf : g.WellFormed := (Built.const (.source .empty source) const).wellFormed
  refine ⟨g, made, wf.id_eq, wf.linked.symmetric, ?_, ?_⟩
  · rcases wire_exact wf.id_eq wf.linked.symmetric "pad" .pad [⟨0, 0⟩, ⟨1, 0⟩, ⟨1, 0⟩] with
      ⟨facts, fact, g', known', inferred', run, grows, -⟩ | ⟨none, -⟩
    · obtain rfl := facts_unique known known'
      cases inferred.symm.trans inferred'
      rw [size] at run grows
      exact ⟨g', run, grows⟩
    · exact absurd ⟨_, _, known, inferred⟩ none
  · rcases wire_exact wf.id_eq wf.linked.symmetric "bad" .pad [⟨0, 0⟩] with
      ⟨facts, fact, g', known', inferred', -⟩ | ⟨-, failure, run, -⟩
    · have first :
          List.Forall₂ (fun o f => g.fact? o = some f) [⟨0, 0⟩] [.typed .f32 (.ofLengths [2])] :=
        .cons (List.forall₂_cons.1 known).1 .nil
      obtain rfl := facts_unique first known'
      exact absurd inferred' (rejected fact)
    · exact ⟨failure, run⟩

end Graph

end EvenPad
