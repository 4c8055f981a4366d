import EvenPad.Patch
import EvenPad.Proofs.Graph.Built
import EvenPad.Proofs.Graph.Wires

/-!
What applying a patch does to a symmetric graph, apart from the lists of readers. `Patch.applied`
says it without steps: the outlets that are taken over are replaced wherever they are read, and
the nodes of the patch are appended. Main statement: `apply_eq_ok`, a successful `apply` ends
there and keeps edges known at both ends.
-/

namespace EvenPad

/-- The outlet that is read once one has taken over another. -/
def Outlet.redirect (taken taker o : Outlet) : Outlet := if o = taken then taker else o

/-- Other outlets are read where they were. -/
theorem Outlet.mem_map_redirect {taken taker o : Outlet}
    {outlets : List Outlet} (kept : o ≠ taken) (old : o ≠ taker) :
    o ∈ outlets.map (Outlet.redirect taken taker) ↔ o ∈ outlets := by
  rw [List.mem_map]
  constructor
  · rintro ⟨source, mem, same⟩
    rw [Outlet.redirect] at same
    split at same
    · exact absurd same.symm old
    · exact same ▸ mem
  · exact fun mem => ⟨o, mem, by rw [Outlet.redirect, if_neg kept]⟩

/-- What is taken over is not read any more. -/
theorem Outlet.not_mem_map_redirect {taken taker : Outlet} {outlets : List Outlet}
    (other : taker ≠ taken) : taken ∉ outlets.map (Outlet.redirect taken taker) := by
  rw [List.mem_map]
  rintro ⟨source, -, same⟩
  rw [Outlet.redirect] at same
  split at same
  · exact other same
  · next kept => exact kept same

/-- The node reading what has taken over an outlet. -/
def Node.redirect (taken taker : Outlet) (n : Node) : Node :=
  { n with inputs := n.inputs.map (Outlet.redirect taken taker) }

/-- The node without its edges. -/
def Node.frame (n : Node) : Node := { n.bare with inputs := [] }

namespace Graph

variable {g g' : Graph} {o taken taker : Outlet} {i j : Inlet} {k : Nat} {n : Node}

/-- The graph without its edges. -/
def frame (g : Graph) : Graph := { g with nodes := g.nodes.map Node.frame }

/-- The graph in which an outlet has taken over another. -/
def redirect (g : Graph) (taken taker : Outlet) : Graph where
  nodes := g.nodes.map (Node.redirect taken taker)
  inputs := g.inputs
  outputs := g.outputs.map (Outlet.redirect taken taker)

/-- The graph in which wires have taken over some outlets, one after the other. -/
def shunted (g : Graph) (w : Wires) (shunts : List (Outlet × Outlet)) : Graph :=
  shunts.foldl (fun g shunt => g.redirect shunt.1 (w.place shunt.2)) g

/-! ## Nodes and edges -/

theorem frame_getElem? : g.frame.nodes[k]? = g.nodes[k]?.map Node.frame := by
  simp [frame]

/-- Two graphs are the same apart from the lists of readers when they are without edges, and each
inlet reads the same. -/
theorem bare_eq_iff :
    g.bare = g'.bare ↔ g.frame = g'.frame ∧ ∀ i, g.source? i = g'.source? i := by
  constructor
  · intro same
    refine ⟨?_, fun i => by rw [← source?_bare, same, source?_bare]⟩
    have frames : g.bare.nodes.map (fun n => { n with inputs := [] }) =
        g'.bare.nodes.map (fun n => { n with inputs := [] }) := by rw [same]
    have inputs : g.bare.inputs = g'.bare.inputs := by rw [same]
    have outputs : g.bare.outputs = g'.bare.outputs := by rw [same]
    simp only [bare, List.map_map] at frames
    simp only [frame, Graph.mk.injEq]
    exact ⟨frames, inputs, outputs⟩
  · intro same
    rcases same with ⟨frames, sources⟩
    have inputs : g.frame.inputs = g'.frame.inputs := by rw [frames]
    have outputs : g.frame.outputs = g'.frame.outputs := by rw [frames]
    refine eq_of_getElem?_eq (fun k => ?_) inputs outputs
    have frame : g.frame.nodes[k]? = g'.frame.nodes[k]? := by rw [frames]
    rw [frame_getElem?, frame_getElem?] at frame
    rw [bare_getElem?, bare_getElem?]
    cases node : g.nodes[k]? with
    | none =>
      rw [node, Option.map_none, eq_comm, Option.map_eq_none_iff] at frame
      rw [frame]
    | some n =>
      rw [node, Option.map_some, eq_comm, Option.map_eq_some_iff] at frame
      rcases frame with ⟨n', node', frame⟩
      have inputs : n'.inputs = n.inputs := by
        apply List.ext_getElem?
        intro slot
        have source := sources ⟨k, slot⟩
        simp only [source?, node, node', Option.bind_eq_bind, Option.bind_some] at source
        exact source.symm
      rw [node', Option.map_some, Option.map_some]
      have bare : n.bare = { n.frame with inputs := n.inputs } := rfl
      rw [bare, ← frame, ← inputs]
      rfl

theorem source?_redirect :
    (g.redirect taken taker).source? i = (g.source? i).map (Outlet.redirect taken taker) := by
  simp only [source?, redirect, List.getElem?_map, Option.bind_eq_bind, Option.bind_map,
    Option.map_bind]
  congr 1
  funext n
  simp [Node.redirect]

theorem frame_redirect : (g.redirect taken taker).frame =
    { g.frame with outputs := g.outputs.map (Outlet.redirect taken taker) } := by
  simp only [redirect, frame, List.map_map]
  rfl

theorem bare_redirect : (g.redirect taken taker).bare = g.bare.redirect taken taker := by
  simp only [redirect, bare, List.map_map]
  rfl

theorem bare_shunted {w : Wires} {shunts : List (Outlet × Outlet)} :
    (g.shunted w shunts).bare = g.bare.shunted w shunts := by
  induction shunts generalizing g with
  | nil => rfl
  | cons shunt rest ih =>
    unfold shunted at ih ⊢
    rw [List.foldl_cons, List.foldl_cons, ih, bare_redirect]

theorem frame_link : (g.link o i).frame = g.frame := by
  have bare : (g.link o i).bare.frame =
      (g.bare.modifyNode i.node (Node.reading i.slot o)).frame := by
    rw [bare_link]
  have idem (h : Graph) : h.bare.frame = h.frame := by
    simp only [Graph.bare, frame, List.map_map]
    congr 2
    funext n
    simp [Node.frame, Node.bare, Node.facts, Function.comp_def]
  rw [idem] at bare
  rw [bare, ← idem g]
  refine eq_of_getElem?_eq (fun k => ?_) rfl rfl
  rw [frame_getElem?, modifyNode_getElem?, frame_getElem?]
  split
  · cases g.bare.nodes[k]? <;> rfl
  · rfl

end Graph

/-! ## Taking over an outlet -/

namespace Patch

variable {g g' : Graph} {taken taker wire : Outlet} {w : Wires} {context : List String}
  {touched touched' : List Nat} {u : Unit} {p : Patch}

/-- Rewiring some readers, one after the other. -/
theorem redirectAll_eq_ok {readers : List Inlet}
    (run : readers.foldlM (redirect taker) touched g = .ok touched' g') :
    g.KeepsEdges g' ∧ g'.frame = g.frame ∧
      ∀ j, g'.source? j = if j ∈ readers then some taker else g.source? j := by
  induction readers generalizing g touched with
  | nil =>
    rcases Edit.pure_eq_ok.1 run with ⟨-, rfl⟩
    exact ⟨.refl, rfl, fun j => by simp⟩
  | cons reader rest ih =>
    rw [List.foldlM_cons] at run
    rcases Edit.bind_eq_ok.1 run with ⟨_, g₁, head, tail⟩
    simp only [redirect, Edit.bind_eq_ok, Edit.pure_eq_ok] at head
    rcases head with ⟨_, _, connected, -, rfl⟩
    rcases Graph.connect_eq_ok connected with ⟨there, ⟨n, node, slot⟩, rfl⟩
    rcases ih tail with ⟨keeps, frame, sources⟩
    refine ⟨(Graph.keepsEdges_link there node slot).trans keeps, frame.trans Graph.frame_link, ?_⟩
    intro j
    rw [sources, Graph.source?_link node slot]
    by_cases first : j = reader
    · simp [first]
    · simp [first]

/-- Taking over an outlet replaces it wherever it is read. -/
theorem takeOver_eq_ok (symmetric : g.Symmetric)
    (run : takeOver context w touched (taken, wire) g = .ok touched' g') :
    (w.find? wire).isSome ∧ (g.output? taken).isSome ∧ g.KeepsEdges g' ∧
      g'.bare = (g.redirect taken (w.place wire)).bare := by
  simp only [takeOver, Edit.lift_bind_eq_ok, Checked.ofOption_eq_ok, Edit.get_bind_apply,
    Graph.successorsOf_eq_ok] at run
  rcases run with ⟨mapped, found, readers, ⟨there, rfl⟩, run⟩
  rcases Edit.bind_eq_ok.1 run with ⟨touched₁, g₁, redirected, run⟩
  rw [Edit.modify_bind_apply, Edit.pure_eq_ok] at run
  rcases run with ⟨-, rfl⟩
  rcases redirectAll_eq_ok redirected with ⟨keeps, frame, sources⟩
  have place : w.place wire = mapped := Wires.place_of_find? found
  refine ⟨by rw [found]; rfl, there,
    keeps.trans (.of_eq (fun _ => rfl) (fun _ => rfl) fun _ there => there), ?_⟩
  rw [place, Graph.bare_eq_iff]
  have nodes : g₁.frame.nodes = g.frame.nodes := by rw [frame]
  have inputs : g₁.frame.inputs = g.frame.inputs := by rw [frame]
  have outputs : g₁.frame.outputs = g.frame.outputs := by rw [frame]
  constructor
  · rw [Graph.frame_redirect]
    simp only [Graph.frame, Graph.mk.injEq]
    refine ⟨nodes, inputs, ?_⟩
    rw [show g₁.outputs = g.outputs from outputs]
    rfl
  · intro j
    rw [Graph.source?_redirect]
    change g₁.source? j = _
    simp only [sources, symmetric.mem_readers]
    cases read : g.source? j with
    | none => simp
    | some o =>
      by_cases same : o = taken
      · simp [same, Outlet.redirect]
      · simp [same, Outlet.redirect]

theorem takeOverAll_eq_ok {shunts : List (Outlet × Outlet)} (symmetric : g.Symmetric)
    (run : shunts.foldlM (takeOver context w) touched g = .ok touched' g') :
    (∀ shunt ∈ shunts, (w.find? shunt.2).isSome) ∧ g.KeepsEdges g' ∧
      g'.bare = (g.shunted w shunts).bare := by
  induction shunts generalizing g touched with
  | nil =>
    rcases Edit.pure_eq_ok.1 run with ⟨-, rfl⟩
    exact ⟨by simp, .refl, rfl⟩
  | cons shunt rest ih =>
    rw [List.foldlM_cons] at run
    rcases Edit.bind_eq_ok.1 run with ⟨_, g₁, head, tail⟩
    rcases takeOver_eq_ok symmetric head with ⟨mapped, -, keeps, bare₁⟩
    rcases ih (keeps.symmetric symmetric) tail with ⟨allMapped, keeps', bare'⟩
    refine ⟨List.forall_mem_cons.2 ⟨mapped, allMapped⟩, keeps.trans keeps', ?_⟩
    rw [bare', Graph.bare_shunted, bare₁, ← Graph.bare_shunted]
    rfl

/-! ## Bringing in nodes -/

/-- The nodes that come into a target: all but the taps. -/
def fresh (p : Patch) : List Node := p.graph.nodes.filter fun n => !n.op.isSource

/-- Where the outlets of a patch are in a target of a size. -/
def wires (p : Patch) (size : Nat) : Wires := Wires.addNodes p.incoming.reverse p.fresh size

/-- The graph with nodes of another one after its last, which do not read anything yet. -/
def landed (g : Graph) (nodes : List Node) : Graph :=
  { g with nodes := g.nodes ++ (nodes.zipIdx g.size).map fun (n, id) => n.landing id }

theorem insertNode_eq_ok {i i' : Insertion} {n : Node}
    (run : insertNode context i n g = .ok i' g') :
    (n.op.isSource = true ∧ i' = i ∧ g' = g) ∨
      (n.op.isSource = false ∧ g' = g.push (n.landing g.size) ∧
        i' = ⟨i.wires.addNode n.outputs.length n.id g.size,
          i.added ++ [(g.size, n.inputs)]⟩) := by
  unfold insertNode at run
  split at run
  · next source =>
    simp only [Edit.bind_eq_ok, Edit.lift_eq_ok, Edit.pure_eq_ok] at run
    rcases run with ⟨_, _, ⟨-, rfl⟩, rfl, rfl⟩
    exact .inl ⟨source, rfl, rfl⟩
  · next inner =>
    simp only [Graph.addNode, Edit.bind_eq_ok, Edit.get_bind_apply, Edit.set_bind_apply,
      Edit.pure_eq_ok, Edit.modify_bind_apply] at run
    rcases run with ⟨_, _, ⟨rfl, rfl⟩, rfl, rfl⟩
    refine .inr ⟨by simpa using inner, ?_, rfl⟩
    exact Graph.modifyNode_push

/-- Bringing in the nodes of a patch appends them, and tells where their outlets are. -/
theorem insertAll_eq_ok {nodes : List Node} {i i' : Insertion}
    (run : nodes.foldlM (insertNode context) i g = .ok i' g') :
    g' = landed g (nodes.filter fun n => !n.op.isSource) ∧
      i'.wires = i.wires.addNodes (nodes.filter fun n => !n.op.isSource) g.size ∧
      i'.added = i.added ++ ((nodes.filter fun n => !n.op.isSource).zipIdx g.size).map
        (fun (n, id) => (id, n.inputs)) ∧
      g.KeepsEdges g' := by
  induction nodes generalizing g i with
  | nil =>
    rcases Edit.pure_eq_ok.1 run with ⟨rfl, rfl⟩
    simp [landed, Wires.addNodes, Graph.KeepsEdges.refl]
  | cons n rest ih =>
    rw [List.foldlM_cons] at run
    rcases Edit.bind_eq_ok.1 run with ⟨i₁, g₁, head, tail⟩
    rcases ih tail with ⟨graph, wires, added, keeps⟩
    rcases insertNode_eq_ok head with ⟨source, rfl, rfl⟩ | ⟨inner, rfl, rfl⟩
    · rw [List.filter_cons_of_neg (by simp [source])]
      exact ⟨graph, wires, added, keeps⟩
    · have size : (g.push (n.landing g.size)).size = g.size + 1 := by
        simp [Graph.push, Graph.size]
      rw [size] at wires added
      rw [List.filter_cons_of_pos (by simp [inner]), List.zipIdx_cons, List.map_cons]
      refine ⟨?_, ?_, ?_, (Graph.keepsEdges_push rfl (by simp [Node.landing])).trans keeps⟩
      · rw [graph, landed, landed, size, List.zipIdx_cons, List.map_cons]
        simp [Graph.push]
      · rw [wires, Wires.addNodes, Wires.addNodes, List.zipIdx_cons, List.foldl_cons]
      · rw [added, List.append_assoc]
        rfl

theorem shunted_landed {nodes : List Node} {shunts : List (Outlet × Outlet)} :
    (landed g nodes).shunted w shunts = landed (g.shunted w shunts) nodes := by
  induction shunts generalizing g with
  | nil => rfl
  | cons shunt rest ih =>
    have redirect : (landed g nodes).redirect shunt.1 (w.place shunt.2) =
        landed (g.redirect shunt.1 (w.place shunt.2)) nodes := by
      simp [landed, Graph.redirect, Node.landing, Node.redirect, Graph.size]
    unfold Graph.shunted at ih ⊢
    rw [List.foldl_cons, List.foldl_cons, redirect, ih]

theorem size_shunted {shunts : List (Outlet × Outlet)} : (g.shunted w shunts).size = g.size := by
  induction shunts generalizing g with
  | nil => rfl
  | cons shunt rest ih =>
    unfold Graph.shunted at ih ⊢
    rw [List.foldl_cons, ih]
    simp [Graph.redirect, Graph.size]

/-! ## The inputs of nodes that came in -/

/-- Connecting the nodes at the end of a table, one after the other. -/
theorem connectAll_eq_ok {nodes front : List Node}
    (bare : g.bare.nodes =
      front ++ (nodes.zipIdx front.length).map fun (n, id) => n.landing id)
    (run : forM ((nodes.zipIdx front.length).map fun (n, id) => (id, n.inputs))
      (connectAdded context w) g = .ok u g') :
    (∀ n ∈ nodes, ∀ o ∈ n.inputs, (w.find? o).isSome) ∧ g.KeepsEdges g' ∧
      g'.bare = { g.bare with
        nodes := front ++ (nodes.zipIdx front.length).map fun (n, id) => n.placed w id } := by
  induction nodes generalizing g front with
  | nil =>
    rcases Edit.pure_eq_ok.1 run with ⟨-, rfl⟩
    refine ⟨by simp, .refl, ?_⟩
    rw [List.zipIdx_nil, List.map_nil] at bare ⊢
    rw [← bare]
  | cons n rest ih =>
    rw [List.zipIdx_cons, List.map_cons] at bare run
    rw [List.forM_cons] at run
    rcases Edit.bind_eq_ok.1 run with ⟨v, g₁, head, tail⟩
    have there : g.bare.nodes[front.length]? = some (n.landing front.length) := by
      rw [bare, List.getElem?_append_right (Nat.le_refl _), Nat.sub_self]
      rfl
    rw [Graph.bare_getElem?, Option.map_eq_some_iff] at there
    rcases there with ⟨m, node, landed⟩
    have nothing : m.inputs = [] := congrArg Node.inputs landed
    have start : n.inputs.zipIdx = n.inputs.zipIdx m.inputs.length := by rw [nothing]; rfl
    simp only [connectAdded, start] at head
    obtain ⟨outlets, founds, -, bare₁, keeps⟩ := Graph.linkSlots_eq_ok
      (fun source => Checked.ofOption (.inputNotMapped context source) (w.find? source))
        n.inputs node
      head
    simp only [Checked.ofOption_eq_ok] at founds
    rcases Wires.map_place_of_find? founds with ⟨mapped, rfl⟩
    have placed : g₁.bare.nodes = (front ++ [n.placed w front.length]) ++
        (rest.zipIdx (front.length + 1)).map fun (n, id) => n.landing id := by
      rw [bare₁, Graph.modifyNode, bare, ← Nat.add_zero front.length, modify_append_right,
        List.append_assoc]
      rfl
    have length : (front ++ [n.placed w front.length]).length = front.length + 1 := by simp
    rw [← length] at placed tail
    rcases ih placed tail with ⟨allMapped, keeps', bare'⟩
    refine ⟨List.forall_mem_cons.2 ⟨mapped, allMapped⟩, keeps.trans keeps', ?_⟩
    rw [bare', bare₁, length, List.zipIdx_cons, List.map_cons, List.append_assoc]
    rfl

/-! ## The whole patch -/

/-- The target after a patch is applied, apart from the lists of readers. -/
def applied (p : Patch) (g : Graph) : Graph :=
  (g.shunted (p.wires g.size) p.shunts).land (p.wires g.size) p.fresh

/-- What applying a patch to a symmetric graph does. Everything that the patch names is mapped. -/
theorem apply_eq_ok (symmetric : g.Symmetric) (run : p.apply g = .ok touched g') :
    (∀ shunt ∈ p.shunts, ((p.wires g.size).find? shunt.2).isSome) ∧
      (∀ n ∈ p.fresh, ∀ o ∈ n.inputs, ((p.wires g.size).find? o).isSome) ∧
      g.KeepsEdges g' ∧ g'.bare = (p.applied g).bare := by
  simp only [apply, Edit.bind_eq_ok, Edit.pure_eq_ok] at run
  rcases run with ⟨i, g₁, inserted, _, g₂, shunted, _, _, connected, -, rfl⟩
  rcases insertAll_eq_ok inserted with ⟨graph, wires, added, keeps₁⟩
  have graph : g₁ = landed g p.fresh := graph
  have wires : i.wires = p.wires g.size := wires
  have added : i.added = (p.fresh.zipIdx g.size).map fun (n, id) => (id, n.inputs) := added
  rw [wires] at shunted connected
  rw [added] at connected
  unfold applied
  generalize p.wires g.size = w at *
  rcases takeOverAll_eq_ok (keeps₁.symmetric symmetric) shunted with ⟨shuntsMapped, keeps₂, bare₂⟩
  rw [graph, shunted_landed] at bare₂
  -- the nodes that came in stand at the end of the table
  have size : (g.shunted w p.shunts).size = g.size := size_shunted
  have length : (g.shunted w p.shunts).bare.nodes.length = g.size := Graph.bare_size.trans size
  have nodes : g₂.bare.nodes = (g.shunted w p.shunts).bare.nodes ++
      (p.fresh.zipIdx g.size).map fun (n, id) => n.landing id := by
    rw [bare₂, landed, size]
    simp [Graph.bare, Node.landing, Node.bare, Node.facts]
  rw [← length] at connected nodes
  rcases connectAll_eq_ok nodes connected with ⟨inputsMapped, keeps₃, bare'⟩
  refine ⟨shuntsMapped, inputsMapped, keeps₁.trans (keeps₂.trans keeps₃), ?_⟩
  rw [bare', bare₂, length, Graph.land, size]
  simp [Graph.bare, landed, Node.placed, Node.bare, Node.facts]

end Patch

end EvenPad
