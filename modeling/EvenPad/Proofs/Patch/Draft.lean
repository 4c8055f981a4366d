import EvenPad.Patch
import EvenPad.Proofs.Graph.Built
import EvenPad.Proofs.Provenance

/-!
Patches while they are built. A `Draft` is a patch without the lists of readers: first the outlets
of the target that were tapped, each once, and then the nodes of the patch's own. Each operation
that builds a patch is described by what it appends to the draft.
-/

namespace EvenPad

/-- An outlet is the one that a node with an operator and some inputs has. -/
def Graph.Makes (g : Graph) (o : Outlet) (op : Op) (inputs : List Outlet) : Prop :=
  o.slot = 0 ∧ ∃ n, g.nodes[o.node]? = some n ∧ n.op = op ∧ n.inputs = inputs

/-! ## Drafts -/

/-- The contents of a patch apart from the lists of readers. -/
structure Draft where
  context : List String
  /-- The outlets of the target that are tapped, each with its fact. -/
  tapped : List (Outlet × Fact)
  /-- The nodes that come after the taps. -/
  nodes : List Node
  shunts : List (Outlet × Outlet)

namespace Draft

variable {d : Draft} {target g : Graph} {p p' : Patch} {o x : Outlet} {fact : Fact} {n : Node}
  {k j : Nat} {name : String} {u : Unit}

/-- The node that stands for an outlet of the target. -/
def tapNode (o : Outlet) (fact : Fact) (k : Nat) : Node :=
  .fresh k ("incoming-" ++ toString o.node ++ "/" ++ toString o.slot) (.source fact) [] fact

def taps (d : Draft) : List Node := d.tapped.zipIdx.map fun ((o, fact), k) => tapNode o fact k

/-- The outlet of a node that comes after the taps. -/
def wire (d : Draft) (k : Nat) : Outlet := ⟨d.tapped.length + k, 0⟩

/-- The draft with one more node, at the position that it is given. -/
def push (d : Draft) (n : Nat → Node) : Draft :=
  { d with nodes := d.nodes ++ [n (d.tapped.length + d.nodes.length)] }

/-- The draft with notes joined to those of one of its nodes. -/
def note (d : Draft) (k : Nat) (notes : Provenance) : Draft :=
  { d with
    nodes := d.nodes.modify k fun n => { n with provenance := n.provenance.merge notes } }

/-- The draft lists the contents of a patch for a target. -/
structure Describes (d : Draft) (target : Graph) (p : Patch) : Prop where
  context : p.context = d.context
  nodes : p.graph.bare.nodes = d.taps ++ d.nodes
  incoming : p.incoming = d.tapped.zipIdx.map fun ((o, _), k) => (⟨k, 0⟩, o)
  shunts : p.shunts = d.shunts
  known : ∀ {o fact}, (o, fact) ∈ d.tapped → target.fact? o = some fact
  distinct : (d.tapped.map Prod.fst).Nodup
  ids : ∀ {k : Nat} {n : Node}, d.nodes[k]? = some n → n.id = d.tapped.length + k
  inner : ∀ {n}, n ∈ d.nodes → n.op.isSource = false
  infers : ∀ {n}, n ∈ d.nodes → p.graph.Infers n
  earlier : ∀ {k : Nat} {n : Node} {o : Outlet}, d.nodes[k]? = some n → o ∈ n.inputs →
    o.node < d.tapped.length + k

@[simp] theorem length_taps : d.taps.length = d.tapped.length := by simp [taps]

@[simp] theorem length_push {n : Nat → Node} :
    (d.push n).nodes.length = d.nodes.length + 1 := by simp [push]

@[simp] theorem wire_push {n : Nat → Node} : (d.push n).wire k = d.wire k := rfl

/-- A new node leaves the others where they are. -/
theorem push_getElem?_of_some {m : Nat → Node} (node : d.nodes[k]? = some n) :
    (d.push m).nodes[k]? = some n := by
  rw [push, List.getElem?_append_left (List.getElem?_eq_some_iff.1 node).1, node]

theorem push_getElem?_last {n : Nat → Node} :
    (d.push n).nodes[d.nodes.length]? = some (n (d.tapped.length + d.nodes.length)) := by
  simp [push]

theorem taps_getElem? : d.taps[k]? = d.tapped[k]?.map fun (o, fact) => tapNode o fact k := by
  simp [taps, List.getElem?_map, List.getElem?_zipIdx, Function.comp_def]

theorem describes_labelled {label : String} :
    Describes ⟨[label], [], [], []⟩ target (.labelled label) where
  context := rfl
  nodes := rfl
  incoming := rfl
  shunts := rfl
  known := by simp
  distinct := by simp
  ids := by simp
  inner := by simp
  infers := by simp
  earlier := by simp

theorem Describes.size (describes : d.Describes target p) :
    p.graph.size = d.tapped.length + d.nodes.length := by
  rw [← Graph.bare_size, Graph.size, describes.nodes, List.length_append, length_taps]

/-- A tap has the fact of the outlet that it stands for. -/
theorem Describes.fact?_tap (describes : d.Describes target p)
    (tapped : d.tapped[k]? = some (o, fact)) : p.graph.fact? ⟨k, 0⟩ = some fact := by
  have lt : k < d.taps.length := by
    rw [length_taps]
    exact (List.getElem?_eq_some_iff.1 tapped).1
  rw [← Graph.fact?_bare, Graph.fact?_eq_some, describes.nodes, List.getElem?_append_left lt,
    taps_getElem?, tapped]
  exact ⟨_, rfl, rfl⟩

theorem Describes.fact?_wire (describes : d.Describes target p) (node : d.nodes[k]? = some n)
    (facts : n.facts = [fact]) : p.graph.fact? (d.wire k) = some fact := by
  rw [← Graph.fact?_bare, Graph.fact?_eq_some, describes.nodes, wire,
    List.getElem?_append_right (by simp), length_taps]
  exact ⟨n, by simpa using node, by simp [facts]⟩

/-- What a draft lists for a node is what the patch makes there. -/
theorem Describes.makes (describes : d.Describes target p) (node : d.nodes[k]? = some n) :
    p.graph.Makes (d.wire k) n.op n.inputs := by
  refine ⟨rfl, ?_⟩
  have bare : p.graph.bare.nodes[d.tapped.length + k]? = some n := by
    rw [describes.nodes, List.getElem?_append_right (by simp), length_taps,
      Nat.add_sub_cancel_left, node]
  rw [Graph.bare_getElem?, Option.map_eq_some_iff] at bare
  rcases bare with ⟨m, found, rfl⟩
  exact ⟨m, found, rfl, rfl⟩

theorem Describes.mem_incoming (describes : d.Describes target p)
    (tapped : d.tapped[k]? = some (o, fact)) : (⟨k, 0⟩, o) ∈ p.incoming := by
  rw [describes.incoming, List.mem_map]
  exact ⟨((o, fact), k), List.mem_zipIdx_iff_getElem?.2 tapped, rfl⟩

/-! ## Building step by step -/

/-- A patch whose graph got one more node. -/
theorem Describes.push {n : Nat → Node} (describes : d.Describes target p)
    (graph : g.bare = p.graph.bare.push (n p.graph.size)) (id : ∀ id, (n id).id = id)
    (inner : ∀ id, (n id).op.isSource = false) (infers : p.graph.Infers (n p.graph.size)) :
    (d.push n).Describes target { p with graph := g } where
  context := describes.context
  nodes := by
    rw [graph, Graph.push, describes.nodes, describes.size, List.append_assoc]
    rfl
  incoming := describes.incoming
  shunts := describes.shunts
  known := describes.known
  distinct := describes.distinct
  ids := by
    intro k m node
    rw [Draft.push, List.getElem?_append] at node
    split at node
    · exact describes.ids node
    · rw [List.getElem?_singleton, Option.ite_none_right_eq_some, Option.some.injEq] at node
      rcases node with ⟨last, rfl⟩
      rw [id]
      change _ = d.tapped.length + k
      omega
  inner := by
    intro m mem
    rcases List.mem_append.1 mem with mem | mem
    · exact describes.inner mem
    · rw [List.mem_singleton.1 mem]
      exact inner _
  infers := by
    intro m mem
    rw [← Graph.infers_bare]
    rcases List.mem_append.1 mem with mem | mem
    · exact graph ▸ (Graph.infers_bare.2 (describes.infers mem)).push
    · rw [List.mem_singleton.1 mem, ← describes.size]
      exact graph ▸ (Graph.infers_bare.2 infers).push
  earlier := by
    intro k m o node read
    rw [Draft.push, List.getElem?_append] at node
    split at node
    · exact describes.earlier node read
    · rw [List.getElem?_singleton, Option.ite_none_right_eq_some, Option.some.injEq] at node
      rcases node with ⟨last, rfl⟩
      rw [← describes.size] at read
      have lt := infers.lt_size read
      rw [describes.size] at lt
      change _ < d.tapped.length + k
      omega

/-- Before there are other nodes, a source is appended for an outlet that is not tapped yet. -/
theorem Describes.addTap {g : Graph} (describes : d.Describes target p) (first : d.nodes = [])
    (known : target.fact? o = some fact) (fresh : o ∉ d.tapped.map Prod.fst)
    (nodes : g.bare.nodes = p.graph.bare.nodes ++ [tapNode o fact p.graph.size]) :
    Describes { d with tapped := d.tapped ++ [(o, fact)] } target
      { p with graph := g, incoming := p.incoming ++ [(⟨p.graph.size, 0⟩, o)] } := by
  have size : p.graph.size = d.tapped.length := by
    rw [describes.size, first, List.length_nil, Nat.add_zero]
  exact {
    context := describes.context
    nodes := by
      have taps : taps { d with tapped := d.tapped ++ [(o, fact)] } =
          d.taps ++ [tapNode o fact d.tapped.length] := by
        simp [Draft.taps, List.zipIdx_append]
      have before := describes.nodes
      rw [first, List.append_nil] at before
      rw [taps, first, List.append_nil, nodes, before, size]
    incoming := by simp [describes.incoming, List.zipIdx_append, size]
    shunts := describes.shunts
    known := by
      intro outlet fact' mem
      rcases List.mem_append.1 mem with mem | mem
      · exact describes.known mem
      · rcases Prod.mk.inj (List.mem_singleton.1 mem) with ⟨rfl, rfl⟩
        exact known
    distinct := by
      rw [List.map_append, List.map_singleton, List.nodup_append]
      refine ⟨describes.distinct, List.pairwise_singleton _ _, ?_⟩
      intro a mem b single
      cases List.mem_singleton.1 single
      exact ne_of_mem_of_not_mem mem fresh
    ids := by simp [first]
    inner := by simp [first]
    infers := by simp [first]
    earlier := by simp [first] }

/-- Before there are other nodes, tapping an outlet finds its tap or appends it. The other taps
stay where they are. -/
theorem Describes.tap (describes : d.Describes target p) (first : d.nodes = [])
    (run : Patch.tap target o p = .ok x p') :
    ∃ tapped k fact, x = ⟨k, 0⟩ ∧ tapped[k]? = some (o, fact) ∧
      (∀ {j : Nat} {tap : Outlet × Fact}, d.tapped[j]? = some tap → tapped[j]? = some tap) ∧
      tapped.map Prod.fst ⊆ o :: d.tapped.map Prod.fst ∧
      Describes { d with tapped := tapped } target p' := by
  simp only [Patch.tap, Edit.get_bind_apply] at run
  cases found : p.incoming.find? (·.2 = o) with
  | some pair =>
    rcases pair with ⟨known, stands⟩
    simp only [found] at run
    rcases Edit.pure_eq_ok.1 run with ⟨rfl, rfl⟩
    have mem := List.mem_of_find?_eq_some found
    have same : stands = o := by simpa using List.find?_some found
    rw [describes.incoming, List.mem_map] at mem
    rcases mem with ⟨⟨⟨outlet, fact⟩, k⟩, mem, eq⟩
    rw [Prod.mk.injEq] at eq
    rcases eq with ⟨rfl, rfl⟩
    rw [List.mem_zipIdx_iff_getElem?] at mem
    refine ⟨d.tapped, k, fact, rfl, ?_, id, List.subset_cons_self _ _, describes⟩
    rw [mem, same]
  | none =>
    simp only [found, Edit.lift_eq_ok, Graph.outletFact_eq_ok, Edit.bind_eq_ok, Patch.onGraph,
      Edit.onPart_eq_ok, Edit.modify_bind_apply, Edit.pure_eq_ok] at run
    rcases run with ⟨fact, _, ⟨known, rfl⟩, new, p₁, ⟨g₁, added, rfl⟩, rfl, rfl⟩
    rcases Graph.addSource_eq_ok added with ⟨rfl, rfl⟩
    have size : p.graph.size = d.tapped.length := by
      rw [describes.size, first, List.length_nil, Nat.add_zero]
    have fresh : o ∉ d.tapped.map Prod.fst := by
      rw [List.find?_eq_none] at found
      intro mem
      rcases List.mem_map.1 mem with ⟨⟨outlet, before⟩, tapped, rfl⟩
      rcases List.mem_iff_getElem?.1 tapped with ⟨k, position⟩
      refine found (⟨k, 0⟩, outlet) ?_ (by simp)
      rw [describes.incoming, List.mem_map]
      exact ⟨((outlet, before), k), List.mem_zipIdx_iff_getElem?.2 position, rfl⟩
    refine ⟨d.tapped ++ [(o, fact)], p.graph.size, fact, rfl, by simp [size], ?_, by simp,
      describes.addTap first known fresh (by simp [Graph.push, Graph.bare, tapNode])⟩
    intro j tap before
    rw [List.getElem?_append_left (List.getElem?_eq_some_iff.1 before).1, before]

theorem Describes.addConst {value : Tensor} (describes : d.Describes target p)
    (run : Graph.addConst name value p.graph = .ok x g) :
    x = d.wire d.nodes.length ∧
      (d.push fun id => .fresh id name (.const value) [] (.constant value)).Describes target
        { p with graph := g } := by
  rcases Graph.addConst_eq_ok run with ⟨rfl, rfl⟩
  refine ⟨by rw [describes.size]; rfl, describes.push ?_ (fun _ => rfl) (fun _ => rfl) ?_⟩
  · rw [Graph.bare_push, Node.bare_fresh]
  · exact ⟨[], .constant value, .nil, rfl, rfl⟩

theorem Describes.wiring {op : Op} {inputs : List Outlet} (describes : d.Describes target p)
    (inner : op.isSource = false) (run : Graph.wire name op inputs p.graph = .ok x g) :
    x = d.wire d.nodes.length ∧ ∃ facts fact,
      List.Forall₂ (fun o f => p.graph.fact? o = some f) inputs facts ∧
      op.outputFact facts = .ok fact ∧
      (d.push fun id => .fresh id name op inputs fact).Describes target
        { p with graph := g } := by
  rcases Graph.wire_eq_ok run with ⟨rfl, facts, fact, known, inferred, bare, -⟩
  refine ⟨by rw [describes.size]; rfl, facts, fact, known, inferred,
    describes.push (n := fun id => .fresh id name op inputs fact) bare (fun _ => rfl)
      (fun _ => inner) ?_⟩
  exact ⟨facts, fact, known, inferred, rfl⟩

/-- Notes change nothing else of a node. -/
theorem note_getElem? {notes : Provenance} {i : Nat} {m : Node}
    (node : (d.note k notes).nodes[i]? = some m) :
    ∃ n, d.nodes[i]? = some n ∧ m.id = n.id ∧ m.op = n.op ∧ m.inputs = n.inputs ∧
      m.facts = n.facts := by
  rw [note, List.getElem?_modify] at node
  rcases Option.map_eq_some_iff.1 node with ⟨n, before, rfl⟩
  refine ⟨n, before, ?_⟩
  split <;> exact ⟨rfl, rfl, rfl, rfl⟩

/-- Notes change no facts. -/
theorem fact?_copyProvenance {source : Node} (run : Patch.copyProvenance source k p = .ok u p') :
    p'.graph.fact? = p.graph.fact? := by
  simp only [Patch.copyProvenance, Edit.get_bind_apply, Edit.lift_bind_eq_ok, Edit.modify_apply,
    EStateM.Result.ok.injEq] at run
  rcases run with ⟨_, -, -, rfl⟩
  funext o
  simp only [Graph.fact?, Graph.output?, Graph.modifyNode_getElem?]
  split
  · cases p.graph.nodes[o.node]? <;> rfl
  · rfl

/-- The notes of a node of the target, joined to those of a node of the patch's own. -/
theorem Describes.copyProvenance {source : Node} (describes : d.Describes target p)
    (run : Patch.copyProvenance source (d.tapped.length + k) p = .ok u p') :
    (d.note k source.provenance).Describes target p' := by
  have facts := fact?_copyProvenance run
  simp only [Patch.copyProvenance, Edit.get_bind_apply, Edit.lift_bind_eq_ok, Edit.modify_apply,
    EStateM.Result.ok.injEq] at run
  rcases run with ⟨_, -, -, rfl⟩
  refine ⟨describes.context, ?_, describes.incoming, describes.shunts, describes.known,
    describes.distinct, ?_, ?_, ?_, ?_⟩
  rotate_left
  · intro i m node
    rcases note_getElem? node with ⟨n, before, id, -⟩
    rw [id]
    exact describes.ids before
  · intro m mem
    rcases List.mem_iff_getElem?.1 mem with ⟨i, node⟩
    rcases note_getElem? node with ⟨n, before, -, op, -⟩
    rw [op]
    exact describes.inner (List.mem_of_getElem? before)
  · intro m mem
    rcases List.mem_iff_getElem?.1 mem with ⟨i, node⟩
    rcases note_getElem? node with ⟨n, before, -, op, inputs, produced⟩
    have infers := describes.infers (List.mem_of_getElem? before)
    simp only [Graph.Infers] at infers ⊢
    rw [op, inputs, produced, facts]
    exact infers
  · intro i m o node read
    rcases note_getElem? node with ⟨n, before, -, -, inputs, -⟩
    rw [inputs] at read
    exact describes.earlier before read
  apply List.ext_getElem?
  intro i
  have before : p.graph.bare.nodes[i]? = (d.taps ++ d.nodes)[i]? := by rw [describes.nodes]
  change _ = (d.taps ++ (d.note k source.provenance).nodes)[i]?
  rw [Graph.bare_getElem?] at before ⊢
  rw [Graph.modifyNode_getElem?]
  by_cases tap : i < d.taps.length
  · rw [List.getElem?_append_left tap] at before ⊢
    rw [length_taps] at tap
    rw [if_neg (by omega), before]
  · rw [List.getElem?_append_right (by omega), length_taps] at before ⊢
    rw [length_taps] at tap
    rw [note, List.getElem?_modify, ← before]
    by_cases here : d.tapped.length + k = i
    · rw [if_pos here]
      simp only [if_pos (show k = i - d.tapped.length by omega)]
      cases p.graph.nodes[i]? <;> rfl
    · rw [if_neg here]
      simp only [if_neg (show k ≠ i - d.tapped.length by omega)]
      cases p.graph.nodes[i]? <;> rfl

/-- The first shunt of a patch, from one outlet of the target to a wire of the same type. -/
theorem Describes.shunt (describes : d.Describes target p) (first : d.shunts = [])
    (run : Patch.shunt target o x p = .ok u p') :
    ∃ current substitute, target.fact? o = some current ∧ p.graph.fact? x = some substitute ∧
      current.sameType substitute = true ∧
      Describes { d with shunts := [(o, x)] } target p' := by
  simp only [Patch.shunt, Edit.get_bind_apply, Edit.lift_bind_eq_ok, Graph.outletFact_eq_ok,
    Checked.require_eq_ok, Edit.modify_apply, EStateM.Result.ok.injEq] at run
  rcases run with ⟨current, known, substitute, made, _, same, -, rfl⟩
  refine ⟨current, substitute, known, made, same, ?_⟩
  exact {
    context := describes.context
    nodes := describes.nodes
    incoming := describes.incoming
    shunts := by simp [describes.shunts, first]
    known := describes.known
    distinct := describes.distinct
    ids := describes.ids
    inner := describes.inner
    infers := describes.infers
    earlier := describes.earlier }

end Draft

end EvenPad
