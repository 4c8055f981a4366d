import EvenPad.Proofs.Graph.Compact.Dataflow
import EvenPad.Proofs.Patch.Rewrite

/-!
Which inputs of a graph an outlet depends on. A path of reads leads to the input, and stops at the
first input that it comes to, whatever the operator of that is. Main statement:
`Carrying.drawsOn_iff`, in a compaction the outputs depend on the inputs that they did.
-/

namespace EvenPad.Graph

variable {g g' : Graph} {order : List Nat} {kept unused : List Node} {r : Renumbering} {n : Node}
  {o o' : Outlet} {id source k k' i : Nat} {stops : Node → Prop}

/-- A node depends on those that it reads, unless it is an input of the graph. The nodes that stop
depend on what they need only. -/
def DependsBut (g : Graph) (stops : Node → Prop) (id source : Nat) : Prop :=
  ⟨id, 0⟩ ∉ g.inputs ∧ ∃ n o, g.nodes[id]? = some n ∧ o ∈ n.inputs ∧ (stops n → o ∈ n.needs) ∧
    o.node = source

/-- The outputs depend on the node, when the nodes that stop read what they need only. -/
def DemandedBut (g : Graph) (stops : Node → Prop) (id : Nat) : Prop :=
  ∃ o ∈ g.outputs, Relation.ReflTransGen (g.DependsBut stops) o.node id

/-- The outlet depends on the input at a position, when the nodes that stop read what they need
only. -/
def DrawsBut (g : Graph) (stops : Node → Prop) (o : Outlet) (i : Nat) : Prop :=
  ∃ input, g.inputs[i]? = some input ∧
    Relation.ReflTransGen (g.DependsBut stops) o.node input.node

/-- The outlet depends on the input at a position. -/
def DrawsOn (g : Graph) (o : Outlet) (i : Nat) : Prop :=
  ∃ input, g.inputs[i]? = some input ∧ Relation.ReflTransGen g.DependsOn o.node input.node

theorem DependsBut.dependsOn (depends : g.DependsBut stops id source) :
    g.DependsOn id source := by
  obtain ⟨inner, n, o, there, read, -, rfl⟩ := depends
  exact ⟨inner, n, o, there, read, rfl⟩

theorem DemandedBut.demanded (demanded : g.DemandedBut stops id) : g.Demanded id := by
  obtain ⟨o, answer, path⟩ := demanded
  exact ⟨o, answer, Relation.ReflTransGen.mono (fun _ _ => DependsBut.dependsOn) _ _ path⟩

/-- If no node on the way stops, a node depends on what it reads. -/
theorem DependsOn.but (depends : g.DependsOn id source)
    (goesOn : ∀ n, g.nodes[id]? = some n → ¬ stops n) : g.DependsBut stops id source := by
  obtain ⟨inner, n, o, there, read, rfl⟩ := depends
  exact ⟨inner, n, o, there, read, fun stop => absurd stop (goesOn n there), rfl⟩

/-- If no node stops that the outputs depend on, the outputs depend on the inputs that they are
said to. -/
theorem drawsBut_iff (answer : o ∈ g.outputs)
    (goesOn : ∀ id n, g.DemandedBut stops id → g.nodes[id]? = some n → ¬ stops n) :
    g.DrawsBut stops o i ↔ g.DrawsOn o i := by
  have walked {id : Nat} (path : Relation.ReflTransGen g.DependsOn o.node id) :
      Relation.ReflTransGen (g.DependsBut stops) o.node id := by
    induction path with
    | refl => exact .refl
    | tail _ depends ih =>
      exact ih.tail (depends.but fun n there => goesOn _ n ⟨o, answer, ih⟩ there)
  refine exists_congr fun input => and_congr_right fun _ => ⟨?_, walked⟩
  exact Relation.ReflTransGen.mono (fun _ _ => DependsBut.dependsOn) _ _

/-- A node that does not stop needs all that it reads. -/
theorem drawsBut_of_needs (whole : ∀ n ∈ g.nodes, stops n → n.op.takesOutputShape = false) :
    g.DrawsBut stops o i ↔ g.DrawsOn o i := by
  have same : g.DependsBut stops = g.DependsOn := by
    funext id source
    refine propext ⟨DependsBut.dependsOn, ?_⟩
    rintro ⟨inner, n, o, there, read, rfl⟩
    refine ⟨inner, n, o, there, read, fun stop => ?_, rfl⟩
    rw [Node.needs, whole n (List.mem_of_getElem? there) stop]
    exact read
  rw [DrawsBut, DrawsOn, same]

/-- The evaluation order lists what the outputs depend on. -/
theorem Referenced.mem_evalOrder_of_demanded (referenced : g.Referenced)
    (ordered : g.evalOrder = .ok order) (demanded : g.Demanded id) : id ∈ order := by
  obtain ⟨sorted, -, answers⟩ := evalOrder_eq_ok ordered
  obtain ⟨o, answer, path⟩ := demanded
  induction path with
  | refl => exact answers o answer
  | tail _ depends ih =>
    obtain ⟨inner, n, o, there, read, rfl⟩ := depends
    obtain ⟨m, there', before⟩ := (sorted.closed ih).resolve_left fun listed =>
      inner (referenced.mem_inputs_of_listed listed)
    cases there.symm.trans there'
    exact before o read

/-- It lists nothing else. -/
theorem Referenced.mem_evalOrder (referenced : g.Referenced) (ordered : g.evalOrder = .ok order) :
    id ∈ order ↔ g.Demanded id := by
  refine ⟨?_, referenced.mem_evalOrder_of_demanded ordered⟩
  simp only [evalOrder, orderFor, Checked.bind_eq_ok] at ordered
  obtain ⟨-, -, run⟩ := ordered
  refine place_closed run
    (P := g.Demanded) (fun {id n o} demanded inner there read => ?_) (by simp)
    (fun id mem => ?_) id
  · exact demanded.dependsOn ⟨fun input => inner (List.mem_map_of_mem input), n,
      o, there, read, rfl⟩
  · obtain ⟨o, answer, rfl⟩ := List.mem_map.1 (List.mem_reverse.1 mem)
    exact ⟨o, answer, .refl⟩

/-! ## Compactions -/

/-- A node is carried over to a position. -/
def Renumbering.Places (r : Renumbering) (id k : Nat) : Prop :=
  ∃ slot, r.wires.find? ⟨id, slot⟩ = some ⟨k, slot⟩

namespace Carrying

variable (carrying : g.Carrying order kept unused r g')
include carrying

theorem places (found : r.wires.find? o = some o') : r.Places o.node o'.node := by
  obtain ⟨j, n, -, -, -, rfl⟩ := carrying.carries.find?_eq_some found
  exact ⟨o.slot, found⟩

theorem node_of_places (places : r.Places id k) :
    ∃ n, (kept.map g.cut ++ unused.map stub)[k]? = some n ∧ n.id = id := by
  obtain ⟨slot, found⟩ := places
  obtain ⟨j, n, at_j, node, -, same⟩ := carrying.carries.find?_eq_some found
  obtain rfl : k = j := congrArg Outlet.node same
  exact ⟨n, at_j, node.symm⟩

theorem places_unique (places : r.Places id k) (places' : r.Places id k') : k = k' := by
  obtain ⟨n, at_k, node⟩ := carrying.node_of_places places
  obtain ⟨n', at_k', node'⟩ := carrying.node_of_places places'
  exact carrying.carries.position_eq at_k at_k' (node.trans node'.symm)

theorem places_injective (places : r.Places id k)
    (places' : r.Places source k) : id = source := by
  obtain ⟨n, at_k, rfl⟩ := carrying.node_of_places places
  obtain ⟨n', at_k', rfl⟩ := carrying.node_of_places places'
  cases at_k.symm.trans at_k'
  rfl

variable (referenced : g.Referenced)
include referenced

/-- A node that the outputs depend on stays an input or none, and reads what stands for what it
read unless it is an input. -/
theorem copy_of_places (mem : id ∈ order) (places : r.Places id k) :
    ∃ n m, g.nodes[id]? = some n ∧ g'.nodes[k]? = some m ∧
      ((⟨id, 0⟩ : Outlet) ∈ g.inputs ↔ (⟨k, 0⟩ : Outlet) ∈ g'.inputs) ∧
      (⟨id, 0⟩ ∉ g.inputs → n.Copies r.wires m) := by
  obtain ⟨j, placed⟩ := List.mem_iff_getElem?.1 mem
  obtain ⟨n, there, at_j⟩ := carrying.carried_of_placed placed
  have id_eq := referenced.ids there
  obtain ⟨c, at_k, node⟩ := carrying.node_of_places places
  obtain rfl : k = j := carrying.carries.position_eq at_k at_j (by rw [node, id_cut, id_eq])
  have listed := carrying.mem_inputs_iff at_j
  obtain ⟨m, here, copies, -⟩ := carrying.here at_j
  rw [id_cut, id_eq] at listed
  refine ⟨n, m, there, here, listed, fun inner => ?_⟩
  rwa [cut_of_not_mem (by rwa [id_eq])] at copies

/-- What a node depends on is carried over to what its copy depends on. -/
theorem dependsOn_copy (mem : id ∈ order) (places : r.Places id k)
    (depends : g.DependsOn id source) :
    ∃ k', r.Places source k' ∧ g'.DependsOn k k' := by
  obtain ⟨inner, n, o, there, read, rfl⟩ := depends
  obtain ⟨n', m, there', here, listed, copies⟩ := carrying.copy_of_places referenced mem places
  cases there.symm.trans there'
  obtain ⟨o', read', found⟩ := forall₂_of_mem (copies inner).inputs read
  exact ⟨o'.node, carrying.places found, fun input => inner (listed.2 input), m,
    o', here, read', rfl⟩

theorem dependsOn_of_copy (mem : id ∈ order) (places : r.Places id k)
    (depends : g'.DependsOn k k') :
    ∃ source, r.Places source k' ∧ g.DependsOn id source := by
  obtain ⟨inner, m, o', here, read', rfl⟩ := depends
  obtain ⟨n, m', there, here', listed, copies⟩ := carrying.copy_of_places referenced mem places
  cases here.symm.trans here'
  have inner : ⟨id, 0⟩ ∉ g.inputs := fun input => inner (listed.1 input)
  obtain ⟨o, read, found⟩ := forall₂_of_mem (copies inner).inputs.flip read'
  exact ⟨o.node, carrying.places found, inner, n, o, there, read, rfl⟩

/-- So are paths. -/
theorem path_copy (answer : o ∈ g.outputs) (found : r.wires.find? o = some o')
    (path : Relation.ReflTransGen g.DependsOn o.node id) :
    ∃ k, r.Places id k ∧ Relation.ReflTransGen g'.DependsOn o'.node k := by
  induction path with
  | refl => exact ⟨o'.node, carrying.places found, .refl⟩
  | tail path depends ih =>
    obtain ⟨k, places, path'⟩ := ih
    have mem := referenced.mem_evalOrder_of_demanded carrying.ordered ⟨o, answer, path⟩
    obtain ⟨k', places', depends'⟩ := carrying.dependsOn_copy referenced mem places depends
    exact ⟨k', places', path'.tail depends'⟩

/-- In a compaction the outputs depend on the inputs that they did. -/
theorem drawsOn_iff (answer : o ∈ g.outputs) (found : r.wires.find? o = some o') :
    g'.DrawsOn o' i ↔ g.DrawsOn o i := by
  have mem {id : Nat} (path : Relation.ReflTransGen g.DependsOn o.node id) : id ∈ order :=
    referenced.mem_evalOrder_of_demanded carrying.ordered ⟨o, answer, path⟩
  have back {k : Nat} (path' : Relation.ReflTransGen g'.DependsOn o'.node k) :
      ∃ id, r.Places id k ∧ Relation.ReflTransGen g.DependsOn o.node id := by
    induction path' with
    | refl => exact ⟨o.node, carrying.places found, .refl⟩
    | tail _ depends' ih =>
      obtain ⟨id, places, path⟩ := ih
      obtain ⟨source, places', depends⟩ :=
        carrying.dependsOn_of_copy referenced (mem path) places depends'
      exact ⟨source, places', path.tail depends⟩
  constructor
  · rintro ⟨input', listed', path'⟩
    obtain ⟨id, places, path⟩ := back path'
    obtain ⟨input, listed, found⟩ := forall₂_getElem? carrying.inputs.flip listed'
    refine ⟨input, listed, ?_⟩
    rwa [carrying.places_injective (carrying.places found) places]
  · rintro ⟨input, listed, path⟩
    obtain ⟨k, places, path'⟩ := carrying.path_copy referenced answer found path
    obtain ⟨input', listed', found⟩ := forall₂_getElem? carrying.inputs listed
    refine ⟨input', listed', ?_⟩
    rwa [carrying.places_unique (carrying.places found) places]

/-- So each output depends on the inputs that it did. -/
theorem draws :
    List.Forall₂ (fun o o' => ∀ i, g'.DrawsOn o' i ↔ g.DrawsOn o i) g.outputs g'.outputs := by
  have found := (List.forall₂_and_left _ _).2 ⟨fun _ mem => mem, carrying.outputs⟩
  exact found.imp fun _ _ ⟨answer, found⟩ i => carrying.drawsOn_iff referenced answer found

end Carrying

end EvenPad.Graph
