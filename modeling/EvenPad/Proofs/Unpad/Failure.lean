import EvenPad.Proofs.Interface
import EvenPad.Proofs.RuleSet.Failure
import EvenPad.Proofs.Unpad.Progress

/-!
Passes that fail. What a pass proposes can be applied, so a graph is a result of whole steps
whenever a run stops, though it has not been compacted. Main statement: `Pass.run_error_usable`,
after a failure the graph is consistent, has its nodes where they were, and keeps its interface.
-/

namespace EvenPad

namespace Graph

/-- The nodes of a graph are where they were, as they were apart from what they read and who reads
them. -/
def KeepsNodes (g g' : Graph) : Prop :=
  ∀ ⦃id : Nat⦄ ⦃n : Node⦄, g.nodes[id]? = some n → ∃ n', g'.nodes[id]? = some n' ∧ n.Keeps n'

theorem KeepsNodes.refl (g : Graph) : g.KeepsNodes g :=
  fun _ n there => ⟨n, there, rfl, rfl, rfl, rfl, rfl⟩

theorem KeepsNodes.rewritten {g₀ g g' : Graph} {node : Node} {nodes : List Node} {k : Nat}
    (keeps : g₀.KeepsNodes g) (rewritten : g.Rewritten node nodes k g') : g₀.KeepsNodes g' := by
  intro id n there
  obtain ⟨n', there', keeps⟩ := keeps there
  obtain ⟨n'', there'', keeps', -⟩ := rewritten.kept there'
  exact ⟨n'', there'', keeps'.id.trans keeps.id, keeps'.name.trans keeps.name,
    keeps'.op.trans keeps.op, keeps'.facts.trans keeps.facts,
    keeps'.provenance.trans keeps.provenance⟩

/-- A graph that some steps have led to from another one, without a compaction. -/
structure Extends (g g' : Graph) : Prop where
  wellFormed : g'.WellFormed
  nodes : g.KeepsNodes g'
  inputs : g'.inputs = g.inputs
  outputs : List.Forall₂ (g.SameAnswer g') g.outputs g'.outputs

theorem WellFormed.extends {g : Graph} (wf : g.WellFormed) : g.Extends g where
  wellFormed := wf
  nodes := .refl g
  inputs := rfl
  outputs := wf.keepsInterface.outputs

/-- One more step. -/
theorem Extends.rewritten {g₀ g g' : Graph} {node : Node} {nodes : List Node} {k : Nat}
    (reached : g₀.Extends g) (rewritten : g.Rewritten node nodes k g') : g₀.Extends g' where
  wellFormed := rewritten.wellFormed reached.wellFormed
  nodes := reached.nodes.rewritten rewritten
  inputs := rewritten.inputs_eq.trans reached.inputs
  outputs := forall₂_trans (fun one two => one.trans two) reached.outputs
    (rewritten.keepsInterface reached.wellFormed).outputs

end Graph

namespace Pass

variable {p : Pass} {g₀ : Graph} {s s' : LoggedGraph}

/-- A step of the queue is a step of the graph, or leaves the graph alone. If it fails it leaves
it alone, since the patches of a pass can be applied. -/
theorem step_extends (id : Nat) :
    Edit.Keeps (fun s : LoggedGraph => g₀.Extends s.graph) (RuleSet.step p.rules id) := by
  intro s reached
  have wf := reached.wellFormed
  cases step : RuleSet.step p.rules id s with
  | ok outcome s' =>
    rw [Edit.after_of_ok step]
    cases outcome with
    | none =>
      rw [(RuleSet.step_eq_none step).1]
      exact reached
    | some touched =>
      obtain ⟨node, rule, patch, there, -, mem, -, proposes, apply⟩ := RuleSet.step_eq_some step
      obtain rfl := wf.id_eq there
      obtain ⟨σ, parts, -, -, rewrites⟩ := replaces wf there mem proposes apply
      exact reached.rewritten rewrites.toRewritten
  | error f s' =>
    rw [Edit.after_of_error step]
    have same : s'.graph = s.graph := by
      refine RuleSet.step_eq_error (fun node there rule mem patch proposes => ?_) step
      obtain ⟨σ, signed, -⟩ := wf.signed there
      obtain rfl := wf.id_eq there
      exact Pass.apply_ok wf.linked there signed mem proposes
    rw [same]
    exact reached

/-- A run that fails on a graph that is built leaves a graph that can be used: its edges are
consistent, every node is at its place with its name, operator, facts and notes, the inputs are
the same, and each output has its fact, from a node of its name. -/
theorem run_error_usable {budget : Option Nat} {f : Failure} (built : s.graph.Built)
    (failed : p.run budget s = .error f s') :
    s'.graph.checkEdges = .ok ⟨⟩ ∧ s.graph.KeepsNodes s'.graph ∧
    s'.graph.inputs = s.graph.inputs ∧
      List.Forall₂ (s.graph.SameAnswer s'.graph) s.graph.outputs s'.graph.outputs := by
  rw [Pass.run] at failed
  obtain ⟨_, failed, -⟩ := Edit.within_eq_error.1 failed
  have reached := RuleSet.run_eq_error step_extends built.wellFormed.extends failed
  exact ⟨reached.wellFormed.checkEdges_ok, reached.nodes, reached.inputs, reached.outputs⟩

/-- How many nodes the pass leaves in what is built, if it fails. -/
def sizeOnFailure (p : Pass) (build : Edit Graph Unit) : Option Nat :=
  match build .empty with
  | .ok _ g => match p.run none ⟨g, []⟩ with
    | .ok _ _ => none
    | .error _ s' => some s'.graph.size
  | .error _ _ => none

theorem run_of_sizeOnFailure {build : Edit Graph Unit} {g : Graph} {u : Unit} {size : Nat}
    (made : build .empty = .ok u g) (left : p.sizeOnFailure build = some size) :
    ∃ f s', p.run none ⟨g, []⟩ = .error f s' ∧ s'.graph.size = size := by
  rw [sizeOnFailure, made] at left
  cases run : p.run none ⟨g, []⟩ with
  | ok => simp [run] at left
  | error f s' =>
    simp only [run, Option.some.injEq] at left
    exact ⟨f, s', rfl, left⟩

/-- A graph with a convolution that can be rewritten, and after it one whose pads take away more
than there is. -/
def flawedConvs : Edit Graph Unit := do
  let data ← Graph.addSource "data" (.typed .f32 (.ofLengths [1, 1, 3]))
  let filters ← Graph.addSource "filters" (.typed .f32 (.ofLengths [1, 1, 2]))
  let unknown ← Graph.addSource "unknown" (.typed .f32 (.ranked [.fixed 1, .fixed 1, .dynamic]))
  let good ← Graph.wire "good"
      (.conv .convolution ⟨[], [], [0], [1], .explicit, []⟩) [data, filters]
  let flawed ← Graph.wire "flawed"
      (.conv .convolution ⟨[], [], [-4], [0], .explicit, []⟩) [data, unknown]
  Graph.setOutputs [flawed, good]

theorem built_flawedConvs {g : Graph} {u : Unit}
    (run : flawedConvs .empty = .ok u g) : g.Built := by
  simp only [flawedConvs, Edit.bind_eq_ok] at run
  obtain ⟨_, _, addData, _, _, addFilters, _, _, addUnknown, good, _, wireGood, flawed, _,
      wireFlawed, answer⟩ := run
  refine .answer
    (.wire (.wire (.source (.source (.source .empty addData) addFilters) addUnknown) wireGood)
    wireFlawed) ?_ answer
  intro o mem
  rcases List.mem_pair.1 mem with rfl | rfl
  · exact Graph.isSome_of_wire wireFlawed
  · exact Graph.isSome_wire (Graph.isSome_of_wire wireGood) wireFlawed

/-- The first convolution is replaced, which brings in five nodes, before the second one makes the
run fail. -/
theorem run_error_usable_flawedConvs :
    ∃ g f s', flawedConvs .empty = .ok ⟨⟩ g ∧ g.Built ∧ Pass.conv.run none ⟨g, []⟩ = .error f s' ∧
      g.size = 5 ∧ s'.graph.size = 10 ∧ s'.graph.checkEdges = .ok ⟨⟩ ∧ g.KeepsNodes s'.graph ∧
      s'.graph.inputs = g.inputs ∧
      List.Forall₂ (g.SameAnswer s'.graph) g.outputs s'.graph.outputs := by
  obtain ⟨g, made, size⟩ : ∃ g, flawedConvs .empty = .ok ⟨⟩ g ∧ g.size = 5 := ⟨_, rfl, rfl⟩
  have left : Pass.conv.sizeOnFailure flawedConvs = some 10 := by cbv
  obtain ⟨f, s', failed, size'⟩ := run_of_sizeOnFailure made left
  have built := built_flawedConvs made
  exact ⟨g, f, s', made, built, failed, size, size', run_error_usable (s := ⟨g, []⟩) built failed⟩

end Pass

end EvenPad
