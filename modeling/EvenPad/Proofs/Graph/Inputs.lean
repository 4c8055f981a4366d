import EvenPad.Proofs.Graph.Acyclic
import EvenPad.Proofs.Graph.Referenced
import EvenPad.Proofs.RuleSet
import EvenPad.Proofs.Patch.Apply

/-!
Graphs whose inputs are any outlets. Neither wiring nor patches look at the inputs of a graph, so
a graph that is built with inputs anywhere is one that is built with other inputs
(`BuiltFreely.withInputs`), and the queue of a rule set is worked through in the same way whatever
the inputs are. Main statement: `RuleSet.Invariant.withInputs`.
-/

namespace EvenPad

namespace Edit

variable {σ τ α β : Type} {alter : σ → σ} {e : Edit σ α} {f : α → Edit σ β}

/-- The change does not notice that a state was altered: if it succeeds, it does so from the state
that was there before, and to the same result. -/
def Ignores (alter : σ → σ) (e : Edit σ α) : Prop :=
  ∀ ⦃s a t⦄, e (alter s) = .ok a t → ∃ t', e s = .ok a t' ∧ alter t' = t

theorem ignores_pure (a : α) : Ignores alter (pure a) := by
  intro s b t run
  obtain ⟨rfl, rfl⟩ := pure_eq_ok.1 run
  exact ⟨s, rfl, rfl⟩

theorem ignores_lift (c : Checked α) : Ignores alter (liftM c : Edit σ α) := by
  intro s a t run
  obtain ⟨done, rfl⟩ := lift_eq_ok.1 run
  exact ⟨s, lift_eq_ok.2 ⟨done, rfl⟩, rfl⟩

theorem ignores_modify {change : σ → σ} (same : ∀ s, change (alter s) = alter (change s)) :
    Ignores alter (modify change : Edit σ PUnit) := by
  intro s a t run
  obtain rfl : change (alter s) = t := by simpa using run
  exact ⟨change s, rfl, (same s).symm⟩

theorem Ignores.bind (first : e.Ignores alter) (rest : ∀ a, (f a).Ignores alter) :
    (e >>= f).Ignores alter := by
  intro s b t run
  obtain ⟨a, s₁, ran, run⟩ := bind_eq_ok.1 run
  obtain ⟨s₁', ran', rfl⟩ := first ran
  obtain ⟨t', run', rfl⟩ := rest a run
  exact ⟨t', bind_eq_ok.2 ⟨a, s₁', ran', run'⟩, rfl⟩

/-- What is read off the state has to be the same. -/
theorem ignores_get_bind {f : σ → Edit σ β} (same : ∀ s, f (alter s) = f s)
    (rest : ∀ s, (f s).Ignores alter) : Ignores alter (get >>= f) := by
  intro s b t run
  rw [get_bind_apply, same] at run
  obtain ⟨t', run', rfl⟩ := rest s run
  exact ⟨t', run', rfl⟩

theorem Ignores.within {place : Place} (ignores : e.Ignores alter) :
    (e.within place).Ignores alter := by
  intro s a t run
  obtain ⟨t', run', rfl⟩ := ignores (within_eq_ok.1 run)
  exact ⟨t', within_eq_ok.2 run', rfl⟩

theorem ignores_forM {step : β → Edit σ PUnit} {l : List β}
    (steps : ∀ b, (step b).Ignores alter) :
    Ignores alter (forM l step) := by
  induction l with
  | nil => exact ignores_pure _
  | cons b rest ih =>
    rw [List.forM_cons]
    exact (steps b).bind fun _ => ih

theorem ignores_foldlM {step : α → β → Edit σ α} {l : List β}
    (steps : ∀ a b, (step a b).Ignores alter) (a : α) : Ignores alter (l.foldlM step a) := by
  induction l generalizing a with
  | nil => exact ignores_pure _
  | cons b rest ih =>
    rw [List.foldlM_cons]
    exact (steps a b).bind ih

end Edit

namespace Graph

variable {g g' : Graph} {l : List Outlet}

/-- The graph with other inputs. -/
def withInputs (l : List Outlet) (g : Graph) : Graph := { g with inputs := l }

@[simp] theorem withInputs_inputs : (g.withInputs l).inputs = l := rfl

@[simp] theorem withInputs_outputs : (g.withInputs l).outputs = g.outputs := rfl

/-! ## Wiring -/

theorem ignores_addNode (name : String) (op : Op) (facts : List Fact) :
    Edit.Ignores (withInputs l) (addNode name op facts) := by
  intro g id g' run
  cases run
  exact ⟨_, rfl, rfl⟩

theorem ignores_detach (previous : Outlet) (inlet : Inlet) :
    Edit.Ignores (withInputs l) (detach previous inlet) := by
  intro g u g' run
  simp only [detach, Edit.get_bind_apply, Edit.lift_bind_eq_ok, Edit.set_apply,
    EStateM.Result.ok.injEq] at run ⊢
  obtain ⟨out, found, -, rfl⟩ := run
  exact ⟨_, ⟨out, found, trivial, rfl⟩, rfl⟩

theorem ignores_enter (outlet : Outlet) (inlet : Inlet) (consumer : Node) :
    Edit.Ignores (withInputs l) (enter outlet inlet consumer) := by
  refine Edit.Ignores.bind (Edit.ignores_modify fun _ => rfl) fun _ => ?_
  split
  · exact Edit.ignores_modify fun _ => rfl
  · split
    · exact Edit.ignores_modify fun _ => rfl
    · exact Edit.ignores_lift _

theorem ignores_connect (outlet : Outlet) (inlet : Inlet) :
    Edit.Ignores (withInputs l) (connect outlet inlet) := by
  rw [connect_eq]
  refine Edit.ignores_get_bind (fun _ => rfl) fun g => (Edit.ignores_lift _).bind fun producer =>
    (Edit.ignores_lift _).bind fun consumer => (Edit.ignores_lift _).bind fun _ =>
    Edit.Ignores.bind ?_ fun _ => ignores_enter _ _ _
  cases consumer.inputs[inlet.slot]? with
  | none => exact Edit.ignores_pure _
  | some previous => exact ignores_detach previous inlet

theorem ignores_connectAll (outlets : List Outlet) (id : Nat) :
    Edit.Ignores (withInputs l) (connectAll outlets id) :=
  Edit.ignores_forM fun _ => ignores_connect _ _

theorem ignores_addConst (name : String) (value : Tensor) :
    Edit.Ignores (withInputs l) (addConst name value) :=
  (ignores_addNode name _ _).bind fun _ => Edit.ignores_pure _

theorem ignores_wire (name : String) (op : Op) (inputs : List Outlet) :
    Edit.Ignores (withInputs l) (wire name op inputs) := by
  refine Edit.Ignores.within (Edit.ignores_get_bind (fun _ => rfl) fun g => ?_)
  refine (Edit.ignores_lift _).bind fun facts => (Edit.ignores_lift _).bind fun produced => ?_
  refine (ignores_addNode name op _).bind fun id => ?_
  exact (ignores_connectAll inputs id).bind fun _ => Edit.ignores_pure _

theorem ignores_wireFused (name : String) (data filters : Outlet) (outputShape : Option Outlet)
    (addend : Outlet) (window : Window) :
    Edit.Ignores (withInputs l) (wireFused name data filters outputShape addend window) :=
  Edit.ignores_get_bind (fun _ => rfl) fun _ =>
    (Edit.ignores_lift _).bind fun _ => ignores_wire _ _ _

end Graph

/-! ## Patches -/

namespace Patch

variable {l : List Outlet}

theorem ignores_insertNode (context : List String) (i : Insertion) (node : Node) :
    Edit.Ignores (Graph.withInputs l) (insertNode context i node) := by
  unfold insertNode
  split
  · exact (Edit.ignores_lift _).bind fun _ => Edit.ignores_pure _
  · exact (Graph.ignores_addNode _ _ _).bind fun id =>
      Edit.Ignores.bind (Edit.ignores_modify fun _ => rfl) fun _ => Edit.ignores_pure _

theorem ignores_redirect (wire : Outlet) (touched : List Nat) (reader : Inlet) :
    Edit.Ignores (Graph.withInputs l) (redirect wire touched reader) :=
  (Graph.ignores_connect wire reader).bind fun _ => Edit.ignores_pure _

theorem ignores_takeOver (context : List String) (wires : Wires) (touched : List Nat)
    (shunt : Outlet × Outlet) :
    Edit.Ignores (Graph.withInputs l) (takeOver context wires touched shunt) :=
  (Edit.ignores_lift _).bind fun mapped => Edit.ignores_get_bind (fun _ => rfl) fun _ =>
    (Edit.ignores_lift _).bind fun _ =>
      (Edit.ignores_foldlM (ignores_redirect mapped) touched).bind fun _ =>
        Edit.Ignores.bind (Edit.ignores_modify fun _ => rfl) fun _ => Edit.ignores_pure _

theorem ignores_connectAdded (context : List String) (wires : Wires) (added : Nat × List Outlet) :
    Edit.Ignores (Graph.withInputs l) (connectAdded context wires added) :=
  Edit.ignores_forM fun _ => (Edit.ignores_lift _).bind fun _ => Graph.ignores_connect _ _

/-- Applying a patch does not look at the inputs of the target. -/
theorem ignores_apply (p : Patch) : Edit.Ignores (Graph.withInputs l) p.apply :=
  (Edit.ignores_foldlM (ignores_insertNode p.context) _).bind fun i =>
    (Edit.ignores_foldlM (ignores_takeOver p.context i.wires) _).bind fun _ =>
      (Edit.ignores_forM (ignores_connectAdded p.context i.wires)).bind fun _ =>
        Edit.ignores_pure _

end Patch

/-! ## Graphs that are built with inputs anywhere -/

namespace Graph

/-- Graphs built from the empty one, with any outlets as inputs. -/
inductive BuiltFreely : Graph → Prop
  | empty : BuiltFreely .empty
  | source {g g' : Graph} {name : String} {fact : Fact} {o : Outlet} :
    BuiltFreely g → addSource name fact g = .ok o g' → BuiltFreely g'
  | const {g g' : Graph} {name : String} {value : Tensor} {o : Outlet} :
    BuiltFreely g → addConst name value g = .ok o g' → BuiltFreely g'
  | wire {g g' : Graph} {name : String} {op : Op} {inputs : List Outlet} {o : Outlet} :
    BuiltFreely g → Graph.wire name op inputs g = .ok o g' → BuiltFreely g'
  | fused {g g' : Graph} {name : String} {data filters addend o : Outlet}
      {outputShape : Option Outlet} {window : Window} :
    BuiltFreely g → wireFused name data filters outputShape addend window g = .ok o g' →
    BuiltFreely g'
  | answer {g g' : Graph} {outlets : List Outlet} {u : Unit} :
    BuiltFreely g → (∀ o ∈ outlets, (g.output? o).isSome) → setOutputs outlets g = .ok u g' →
      BuiltFreely g'
  | ask {g g' : Graph} {outlets : List Outlet} {u : Unit} :
    BuiltFreely g → (∀ o ∈ outlets, (g.output? o).isSome) → setInputs outlets g = .ok u g' →
      BuiltFreely g'

variable {g g' : Graph} {o : Outlet} {l : List Outlet} {name : String}

/-- The outlet of a source is there. -/
theorem isSome_of_addSource {fact : Fact} (run : addSource name fact g = .ok o g') :
    (g'.output? o).isSome := by
  obtain ⟨rfl, rfl⟩ := addSource_eq_ok run
  have last : (g.push (.fresh g.size name (.source fact) [] fact)).nodes[g.size]? = _ :=
    push_getElem?_size
  exact isSome_output?_iff_fact?.2 ⟨fact, fact?_eq_some.2 ⟨_, last, rfl⟩⟩

/-- Inputs can be chosen last. -/
theorem BuiltFreely.exists_built (built : g.BuiltFreely) :
    ∃ (h : Graph) (l : List Outlet), h.Built ∧ (∀ o ∈ l, (h.output? o).isSome) ∧
      g = h.withInputs l := by
  induction built with
  | empty => exact ⟨.empty, [], .empty, fun _ mem => absurd mem List.not_mem_nil, rfl⟩
  | @source g g' name fact o _ run ih =>
    obtain ⟨h, l, built, there, rfl⟩ := ih
    obtain ⟨-, rfl⟩ := addSource_eq_ok run
    have pushed : addSource name fact h = .ok ⟨h.size, 0⟩ _ := rfl
    refine ⟨_, l ++ [⟨h.size, 0⟩], built.source pushed, fun o mem => ?_, rfl⟩
    rcases List.mem_append.1 mem with mem | mem
    · exact isSome_push (there o mem)
    · cases List.mem_singleton.1 mem
      exact isSome_of_addSource pushed
  | const _ run ih =>
    obtain ⟨h, l, built, there, rfl⟩ := ih
    obtain ⟨h', run', rfl⟩ := ignores_addConst _ _ run
    refine ⟨h', l, built.const run', fun o mem => ?_, rfl⟩
    obtain ⟨-, rfl⟩ := addConst_eq_ok run'
    exact isSome_push (there o mem)
  | wire _ run ih =>
    obtain ⟨h, l, built, there, rfl⟩ := ih
    obtain ⟨h', run', rfl⟩ := ignores_wire _ _ _ run
    exact ⟨h', l, built.wire run', fun o mem => isSome_wire (there o mem) run', rfl⟩
  | fused _ run ih =>
    obtain ⟨h, l, built, there, rfl⟩ := ih
    obtain ⟨h', run', rfl⟩ := ignores_wireFused _ _ _ _ _ _ run
    obtain ⟨_, -, wired⟩ := wireFused_eq_ok run'
    exact ⟨h', l, built.fused run', fun o mem => isSome_wire (there o mem) wired, rfl⟩
  | answer _ known run ih =>
    obtain ⟨h, l, built, there, rfl⟩ := ih
    cases run
    exact ⟨_, l, built.answer known rfl, there, rfl⟩
  | ask _ known run ih =>
    obtain ⟨h, _, built, -, rfl⟩ := ih
    cases run
    exact ⟨h, _, built, known, rfl⟩

/-- It keeps to what it says of its nodes. -/
theorem WellFormed.referenced_withInputs (wf : g.WellFormed)
    (there : ∀ o ∈ l, (g.output? o).isSome) :
    (g.withInputs l).Referenced where
  ids := wf.id_eq
  reads := wf.referenced.reads
  answers := wf.answers
  sources mem := by
    obtain ⟨fact, known⟩ := isSome_output?_iff_fact?.1 (there _ mem)
    exact ⟨wf.slot_eq_zero known, there _ mem⟩

end Graph

/-! ## Rule sets -/

namespace LoggedGraph

/-- The graph with other inputs, and its log. -/
def withInputs (l : List Outlet) (s : LoggedGraph) : LoggedGraph :=
  { s with graph := s.graph.withInputs l }

end LoggedGraph

namespace RuleSet

variable {r : RuleSet} {l : List Outlet} {motive : Nat → Graph → List Nat → Prop}

/-- The rules do not look at the inputs of a graph. -/
def IgnoresInputs (r : RuleSet) : Prop :=
  ∀ rule ∈ r, ∀ (g : Graph) (node : Node) (l : List Outlet),
    rule.propose (g.withInputs l) node = rule.propose g node

theorem ignores_onLog {α : Type} {e : Logged α} :
    Edit.Ignores (LoggedGraph.withInputs l) (LoggedGraph.onLog e) := by
  intro s a t run
  obtain ⟨log, ran, rfl⟩ := Edit.onPart_eq_ok.1 run
  exact ⟨_, Edit.onPart_eq_ok.2 ⟨log, ran, rfl⟩, rfl⟩

theorem ignores_onGraph {α : Type} {e : Edit Graph α} (ignores : e.Ignores (Graph.withInputs l)) :
    Edit.Ignores (LoggedGraph.withInputs l) (LoggedGraph.onGraph e) := by
  intro s a t run
  obtain ⟨g, ran, rfl⟩ := Edit.onPart_eq_ok.1 run
  obtain ⟨h, ran', rfl⟩ := ignores ran
  exact ⟨_, Edit.onPart_eq_ok.2 ⟨h, ran', rfl⟩, rfl⟩

theorem ignores_tryRules {rules : List Rule} (node : Node) (ignores : IgnoresInputs rules) :
    Edit.Ignores (LoggedGraph.withInputs l) (tryRules node rules) := by
  induction rules with
  | nil => exact Edit.ignores_pure _
  | cons rule rest ih =>
    obtain ⟨first, others⟩ := List.forall_mem_cons.1 ignores
    refine Edit.ignores_get_bind (fun s => ?_) fun s => ?_
    · rw [LoggedGraph.withInputs, first]
    refine Edit.Ignores.bind (Edit.Ignores.within ignores_onLog) fun proposed => ?_
    cases proposed with
    | none => exact Edit.Ignores.bind ignores_onLog fun _ => ih others
    | some patch =>
      refine Edit.Ignores.bind ignores_onLog fun _ => ?_
      exact (Edit.Ignores.within (ignores_onGraph patch.ignores_apply)).bind fun _ =>
        Edit.ignores_pure _

theorem ignores_step (ignores : r.IgnoresInputs) (id : Nat) :
    Edit.Ignores (LoggedGraph.withInputs l) (r.step id) := by
  refine Edit.ignores_get_bind (fun _ => rfl) fun s => (Edit.ignores_lift _).bind fun node => ?_
  split
  · exact Edit.ignores_pure _
  · exact ignores_tryRules node fun rule mem => ignores rule (mem_rulesFor.1 mem).1

theorem ignores_requeue (touched queue : List Nat) :
    Edit.Ignores (LoggedGraph.withInputs l) (r.requeue touched queue) :=
  Edit.ignores_get_bind (fun _ => rfl) fun _ => Edit.ignores_lift _

/-- What the steps of the queue keep of a graph they keep whatever the inputs are. -/
theorem Invariant.withInputs (keeps : r.Invariant motive)
    (ignores : r.IgnoresInputs) (l : List Outlet) :
    r.Invariant fun applied g queue => ∃ h, g = h.withInputs l ∧ motive applied h queue where
  passed := by
    rintro applied ⟨g, log⟩ s' id rest ⟨h, rfl, holds⟩ step
    obtain ⟨t, step', rfl⟩ := ignores_step ignores id (s := ⟨h, log⟩) step
    exact ⟨t.graph, rfl, keeps.passed holds step'⟩
  patched := by
    rintro applied ⟨g, log⟩ s' id rest touched queue ⟨h, rfl, holds⟩ step requeued
    obtain ⟨t, step', rfl⟩ := ignores_step ignores id (s := ⟨h, log⟩) step
    obtain ⟨t', requeued', -⟩ := ignores_requeue touched rest requeued
    obtain rfl := (requeue_eq_ok requeued').1
    exact ⟨t'.graph, rfl, keeps.patched holds step' requeued'⟩

end RuleSet

end EvenPad
