import EvenPad.Proofs.Edit

/-!
Changes told for both outcomes. `Edit.Leads` says what holds when a change succeeds and what holds
when it fails, and the rules for it follow the ways in which changes are put together.
-/

namespace EvenPad.Edit

variable {σ τ α β : Type} {e : Edit σ α} {f : α → Edit σ β} {s t : σ} {a : α}
  {done done' : α → σ → Prop} {last : β → σ → Prop} {stopped stopped' : σ → Prop}

/-- From `s` the change leads to a result and a state that are `done`, or fails in a state that is
`stopped`. -/
def Leads (e : Edit σ α) (s : σ) (done : α → σ → Prop) (stopped : σ → Prop) : Prop :=
  match e s with
  | .ok a t => done a t
  | .error _ t => stopped t

theorem leads_iff : e.Leads s done stopped ↔
    (∀ a t, e s = .ok a t → done a t) ∧ ∀ failure t, e s = .error failure t → stopped t := by
  cases run : e s <;> simp [Leads, run]

theorem Leads.of_ok (leads : e.Leads s done stopped) (run : e s = .ok a t) : done a t :=
  (leads_iff.1 leads).1 a t run

theorem Leads.of_error {failure : Failure} (leads : e.Leads s done stopped)
    (failed : e s = .error failure t) :
    stopped t :=
  (leads_iff.1 leads).2 failure t failed

theorem Leads.mono (leads : e.Leads s done stopped)
    (onOk : ∀ a t, e s = .ok a t → done a t → done' a t) (onError : ∀ t, stopped t → stopped' t) :
    e.Leads s done' stopped' :=
  leads_iff.2 ⟨fun a t run => onOk a t run (leads.of_ok run),
    fun _ t failed => onError t (leads.of_error failed)⟩

theorem Leads.weaken (leads : e.Leads s done stopped) (onError : ∀ t, stopped t → stopped' t) :
    e.Leads s done stopped' :=
  leads.mono (fun _ _ _ holds => holds) onError

/-- What holds either way holds afterwards. -/
theorem Leads.after (leads : e.Leads s (fun _ => stopped) stopped) : stopped (e.after s) := by
  cases run : e s <;> simpa [Leads, Edit.after, run] using leads

theorem Keeps.leads (keeps : e.Keeps stopped) (start : stopped s) :
    e.Leads s (fun _ => stopped) stopped := by
  have kept := keeps start
  cases run : e s <;> simpa [Leads, Edit.after, run] using kept

/-! ## Rules -/

theorem leads_pure (holds : done a s) : (pure a : Edit σ α).Leads s done stopped := holds

theorem leads_get_bind {f : σ → Edit σ β} :
    (get >>= f).Leads s last stopped ↔ (f s).Leads s last stopped := .rfl

theorem leads_modify {change : σ → σ} {done : PUnit → σ → Prop} :
    (modify change : Edit σ PUnit).Leads s done stopped ↔ done ⟨⟩ (change s) := .rfl

theorem leads_lift {c : Checked α} (onOk : ∀ a, c = .ok a → done a s)
    (onError : ∀ f, c = .error f → stopped s) : (liftM c : Edit σ α).Leads s done stopped := by
  cases c with
  | ok a => exact onOk a rfl
  | error failure => exact onError failure rfl

theorem Leads.bind (first : e.Leads s done stopped)
    (rest : ∀ a t, done a t → (f a).Leads t last stopped) :
    (e >>= f).Leads s last stopped := by
  obtain ⟨ok, error⟩ := leads_iff.1 first
  refine leads_iff.2 ⟨?_, ?_⟩
  · intro b u run
    obtain ⟨a, t, ran, run⟩ := bind_eq_ok.1 run
    exact (rest a t (ok a t ran)).of_ok run
  · intro failure u failed
    rcases bind_eq_error.1 failed with failed | ⟨a, t, ran, failed⟩
    · exact error failure u failed
    · exact (rest a t (ok a t ran)).of_error failed

theorem leads_bind_of_ok (run : e s = .ok a t) (rest : (f a).Leads t last stopped) :
    (e >>= f).Leads s last stopped := by
  simpa [Leads, bind, EStateM.bind, run] using rest

/-- A check has no effect of its own. -/
theorem leads_lift_bind {c : Checked α} (rest : ∀ a, c = .ok a → (f a).Leads s last stopped)
    (onError : ∀ f, c = .error f → stopped s) : (liftM c >>= f).Leads s last stopped := by
  have checked : (liftM c : Edit σ α).Leads s (fun a t => c = .ok a ∧ t = s) stopped :=
    leads_lift (fun _ checked => ⟨checked, rfl⟩) onError
  exact checked.bind fun a _ ⟨checked, same⟩ => same ▸ rest a checked

theorem Leads.within {place : Place} (leads : e.Leads s done stopped) :
    (e.within place).Leads s done stopped := by
  cases run : e s <;> simpa [Leads, Edit.within, run] using leads

theorem leads_onPart {get : τ → σ} {put : σ → τ → τ} {x : τ} {done : α → τ → Prop}
    {stopped : τ → Prop} :
    (e.onPart get put).Leads x done stopped ↔
      e.Leads (get x) (fun a s => done a (put s x)) (fun s => stopped (put s x)) := by
  cases run : e (get x) <;> simp [Leads, onPart, run]

/-- Steps that keep something keep it when they are repeated, each with the result of the one
before. -/
theorem keeps_foldlM {holds : σ → Prop} {step : α → β → Edit σ α}
    (steps : ∀ a b, (step a b).Keeps holds) (a : α) (l : List β) :
    (l.foldlM step a).Keeps holds := by
  induction l generalizing a with
  | nil => exact keeps_pure
  | cons b rest ih =>
    rw [List.foldlM_cons]
    exact (steps a b).bind ih

/-- Steps that lead from an invariant to it lead there in a row. -/
theorem leads_forM {step : β → Edit σ PUnit} {l : List β} {holds : σ → Prop}
    (steps : ∀ b ∈ l, ∀ s, holds s → (step b).Leads s (fun _ => holds) stopped)
    (start : holds s) :
    (forM l step).Leads s (fun _ => holds) stopped := by
  induction l generalizing s with
  | nil => exact leads_pure start
  | cons b rest ih =>
    obtain ⟨first, others⟩ := List.forall_mem_cons.1 steps
    rw [List.forM_cons]
    exact (first s start).bind fun _ _ holds => ih others holds

end EvenPad.Edit
