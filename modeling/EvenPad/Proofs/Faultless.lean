import EvenPad.Proofs.Edit

/-!
Computations that do not fault. They may be refused, for a cause that can be told, but they keep
to what the functions that they call ask for. A sequence does not fault if none of its lines does,
after those before it have succeeded.
-/

namespace EvenPad

namespace Checked

variable {α β : Type} {c : Checked α} {f : α → Checked β} {l : List α}

/-- The computation may be refused, but it does not fault. -/
def Faultless (c : Checked α) : Prop := ∀ fault, c ≠ .error (.faulty fault)

theorem faultless_pure {a : α} : (pure a : Checked α).Faultless := fun _ failed => nomatch failed

theorem faultless_refuse {cause : Cause} : (refuse cause : Checked α).Faultless :=
  fun _ failed => by simp [refuse] at failed

theorem faultless_require {condition : Bool} {cause : Cause} :
    (require condition cause).Faultless := by
  cases condition
  · exact faultless_refuse
  · exact faultless_pure

theorem faultless_ofOption {cause : Cause} {o : Option α} : (ofOption cause o).Faultless := by
  cases o
  · exact faultless_refuse
  · exact faultless_pure

/-- What has to be there is looked up without fault if it is there. -/
theorem faultless_ofPresent {f : Fault} {o : Option α} (there : o.isSome) :
    (ofPresent f o).Faultless := by
  obtain ⟨a, rfl⟩ := Option.isSome_iff_exists.1 there
  exact faultless_pure

theorem Faultless.bind (first : c.Faultless) (rest : ∀ a, c = .ok a → (f a).Faultless) :
    (c >>= f).Faultless := by
  cases run : c with
  | ok a => exact rest a run
  | error failure =>
    rintro fault ⟨⟩
    exact first fault run

theorem Faultless.within {place : Place} (first : c.Faultless) : (c.within place).Faultless := by
  cases run : c with
  | ok a => exact faultless_pure
  | error failure =>
    cases failure with
    | refused places cause => exact fun _ failed => nomatch failed
    | faulty fault => exact absurd run (first fault)

theorem faultless_mapM (steps : ∀ a ∈ l, (f a).Faultless) : (l.mapM f).Faultless := by
  induction l with
  | nil => exact faultless_pure
  | cons a rest ih =>
    obtain ⟨first, steps⟩ := List.forall_mem_cons.1 steps
    rw [List.mapM_cons]
    exact first.bind fun _ _ => (ih steps).bind fun _ _ => faultless_pure

theorem faultless_forM {step : α → Checked PUnit} (steps : ∀ a ∈ l, (step a).Faultless) :
    Faultless (forM l step) := by
  induction l with
  | nil => exact faultless_pure
  | cons a rest ih =>
    obtain ⟨first, steps⟩ := List.forall_mem_cons.1 steps
    rw [List.forM_cons]
    exact first.bind fun _ _ => ih steps

theorem faultless_foldlM {step : β → α → Checked β}
    (steps : ∀ b, ∀ a ∈ l, (step b a).Faultless) (b : β) :
    (l.foldlM step b).Faultless := by
  induction l generalizing b with
  | nil => exact faultless_pure
  | cons a rest ih =>
    rw [List.foldlM_cons]
    exact (steps b a List.mem_cons_self).bind fun b' _ =>
      ih (fun b a mem => steps b a (List.mem_cons_of_mem _ mem)) b'

end Checked

namespace Edit

variable {σ α β : Type} {e : Edit σ α} {f : α → Edit σ β} {s : σ}

/-- The change of a state may be refused, but it does not fault. -/
def FaultlessAt (s : σ) (e : Edit σ α) : Prop := ∀ fault t, e s ≠ .error (.faulty fault) t

theorem faultlessAt_of_ok {a : α} {t : σ} (run : e s = .ok a t) : e.FaultlessAt s := by
  intro fault t failed
  rw [run] at failed
  cases failed

theorem faultlessAt_pure {a : α} : (pure a : Edit σ α).FaultlessAt s := faultlessAt_of_ok rfl

theorem faultlessAt_modify {change : σ → σ} : (modify change : Edit σ PUnit).FaultlessAt s :=
  faultlessAt_of_ok modify_apply

theorem faultlessAt_get_bind {f : σ → Edit σ β} (rest : (f s).FaultlessAt s) :
    (get >>= f).FaultlessAt s := rest

theorem FaultlessAt.bind (first : e.FaultlessAt s)
    (rest : ∀ a t, e s = .ok a t → (f a).FaultlessAt t) :
    (e >>= f).FaultlessAt s := by
  intro fault t failed
  rcases bind_eq_error.1 failed with failed | ⟨a, s₁, run, failed⟩
  · exact first fault t failed
  · exact rest a s₁ run fault t failed

theorem faultlessAt_lift {c : Checked α} (faultless : c.Faultless) :
    (liftM c : Edit σ α).FaultlessAt s := by
  cases run : c with
  | ok a => exact faultlessAt_of_ok rfl
  | error failure =>
    rintro fault t ⟨⟩
    exact faultless fault run

/-- A checked line passes its result on and leaves the state alone. -/
theorem faultlessAt_lift_bind {c : Checked α} (faultless : c.Faultless)
    (rest : ∀ a, c = .ok a → (f a).FaultlessAt s) : (liftM c >>= f : Edit σ β).FaultlessAt s := by
  refine (faultlessAt_lift faultless).bind fun a t run => ?_
  obtain ⟨told, rfl⟩ := lift_eq_ok.1 run
  exact rest a told

theorem FaultlessAt.runFrom (faultless : e.FaultlessAt s) : (e.runFrom s).Faultless := by
  intro fault failed
  cases run : e s with
  | ok a t => simp [Edit.runFrom, run] at failed
  | error failure t =>
    simp only [Edit.runFrom, run, Except.error.injEq] at failed
    exact faultless fault t (failed ▸ run)

end Edit

end EvenPad
