import EvenPad.Edit
import Mathlib.Data.List.Forall2

/-!
What a successful computation says about its parts: inversions of the combinators under `Checked`
and `Edit`. `simp` turns the success of a `do` block into the successes of its lines.
-/

namespace EvenPad

namespace Checked

variable {α β : Type}

@[simp] theorem bind_eq_ok {c : Checked α} {f : α → Checked β} {b : β} :
    (c >>= f) = .ok b ↔ ∃ a, c = .ok a ∧ f a = .ok b := by
  cases c <;> simp [bind, Except.bind]

@[simp] theorem pure_eq_ok {a b : α} : (pure a : Checked α) = .ok b ↔ a = b := by
  simp [pure, Except.pure]

@[simp] theorem map_eq_ok {c : Checked α} {f : α → β} {b : β} :
    (f <$> c) = .ok b ↔ ∃ a, c = .ok a ∧ f a = b := by
  cases c <;> simp [Functor.map, Except.map]

@[simp] theorem exceptMap_eq_ok {c : Checked α} {f : α → β} {b : β} :
    Except.map f c = .ok b ↔ ∃ a, c = .ok a ∧ f a = b := by
  cases c <;> simp [Except.map]

@[simp] theorem require_eq_ok {condition : Bool} {cause : Cause} {u : Unit} :
    require condition cause = .ok u ↔ condition = true := by
  cases condition <;> simp [require, refuse]

@[simp] theorem refuse_ne_ok {cause : Cause} {a : α} : refuse cause ≠ .ok a := by
  simp [refuse]

@[simp] theorem fault_ne_ok {f : Fault} {a : α} : fault f ≠ .ok a := by
  simp [fault]

@[simp] theorem ofOption_eq_ok {cause : Cause} {o : Option α} {a : α} :
    ofOption cause o = .ok a ↔ o = some a := by
  cases o <;> simp [ofOption]

@[simp] theorem ofPresent_eq_ok {f : Fault} {o : Option α} {a : α} :
    ofPresent f o = .ok a ↔ o = some a := by
  cases o <;> simp [ofPresent]

@[simp] theorem within_eq_ok {place : Place} {c : Checked α} {a : α} :
    within place c = .ok a ↔ c = .ok a := by
  cases c <;> simp [within]

/-! ## Lists -/

/-- A list is mapped when each of its elements is. -/
theorem mapM_eq_ok_iff {f : α → Checked β} {l : List α} {bs : List β} :
    l.mapM f = .ok bs ↔ List.Forall₂ (fun a b => f a = .ok b) l bs := by
  induction l generalizing bs with
  | nil => cases bs <;> simp [List.mapM_nil]
  | cons a rest ih =>
    rw [List.mapM_cons]
    cases bs with
    | nil => simp
    | cons b bs =>
      simp only [bind_eq_ok, pure_eq_ok, List.forall₂_cons, ← ih]
      constructor
      · rintro ⟨_, ha, _, hrest, heq⟩
        cases heq
        exact ⟨ha, hrest⟩
      · rintro ⟨ha, hrest⟩
        exact ⟨b, ha, bs, hrest, rfl⟩

private theorem mem_filterAuxM {p : α → Checked Bool} {l kept kept' : List α} {a : α}
    (run : List.filterAuxM p l kept = .ok kept') :
    a ∈ kept' ↔ a ∈ kept ∨ a ∈ l ∧ p a = .ok true := by
  induction l generalizing kept with
  | nil =>
    cases pure_eq_ok.1 run
    simp
  | cons b rest ih =>
    rw [List.filterAuxM] at run
    rcases bind_eq_ok.1 run with ⟨keep, told, run⟩
    rw [ih run]
    cases keep with
    | false =>
      rw [cond_false, List.mem_cons, or_and_right]
      constructor
      · rintro (mem | mem)
        · exact .inl mem
        · exact .inr (.inr mem)
      · rintro (mem | ⟨rfl, yes⟩ | mem)
        · exact .inl mem
        · rw [told] at yes
          simp at yes
        · exact .inr mem
    | true =>
      rw [cond_true, List.mem_cons, List.mem_cons, or_and_right]
      constructor
      · rintro ((rfl | mem) | mem)
        · exact .inr (.inl ⟨rfl, told⟩)
        · exact .inl mem
        · exact .inr (.inr mem)
      · rintro (mem | ⟨rfl, -⟩ | mem)
        · exact .inl (.inr mem)
        · exact .inl (.inl rfl)
        · exact .inr mem

/-- Filtering keeps what passes. -/
theorem mem_filterM {p : α → Checked Bool} {l kept : List α} {a : α}
    (run : l.filterM p = .ok kept) : a ∈ kept ↔ a ∈ l ∧ p a = .ok true := by
  rw [List.filterM] at run
  rcases bind_eq_ok.1 run with ⟨reversed, found, rest⟩
  cases pure_eq_ok.1 rest
  rw [List.mem_reverse, mem_filterAuxM found]
  simp

private theorem filterAuxM_ok {p : α → Checked Bool} {l kept : List α}
    (told : ∀ a ∈ l, ∃ keep, p a = .ok keep) : ∃ kept', List.filterAuxM p l kept = .ok kept' := by
  induction l generalizing kept with
  | nil => exact ⟨kept, rfl⟩
  | cons a rest ih =>
    rcases List.forall_mem_cons.1 told with ⟨⟨keep, first⟩, told⟩
    obtain ⟨kept', run⟩ : ∃ kept', List.filterAuxM p rest (cond keep (a :: kept) kept) =
        .ok kept' :=
      ih told
    exact ⟨kept', by rw [List.filterAuxM]; exact bind_eq_ok.2 ⟨keep, first, run⟩⟩

/-- A list can be filtered when each element passes or does not. -/
theorem filterM_ok {p : α → Checked Bool} {l : List α} (told : ∀ a ∈ l, ∃ keep, p a = .ok keep) :
    ∃ kept, l.filterM p = .ok kept := by
  rcases filterAuxM_ok told with ⟨reversed, found⟩
  exact ⟨reversed.reverse, by rw [List.filterM]; exact bind_eq_ok.2 ⟨reversed, found, rfl⟩⟩

/-- A check of a list passes when it passes for each element. -/
theorem forM_eq_ok_iff {f : α → Checked PUnit} {l : List α} {u : PUnit} :
    forM l f = .ok u ↔ ∀ a ∈ l, f a = .ok ⟨⟩ := by
  induction l with
  | nil => simp [List.forM_nil]
  | cons a rest ih =>
    simp only [List.forM_cons, bind_eq_ok, ih, List.mem_cons, forall_eq_or_imp]
    constructor
    · rintro ⟨_, head, tail⟩
      exact ⟨head, tail⟩
    · rintro ⟨head, tail⟩
      exact ⟨_, head, tail⟩

end Checked

namespace Edit

variable {σ τ α β : Type} {s t : σ} {a : α} {b : β}

@[simp] theorem bind_eq_ok {e : Edit σ α} {f : α → Edit σ β} :
    (e >>= f) s = .ok b t ↔ ∃ a s₁, e s = .ok a s₁ ∧ f a s₁ = .ok b t := by
  cases h : e s with
  | ok a s₁ =>
    simp only [bind, EStateM.bind, h, EStateM.Result.ok.injEq]
    constructor
    · intro rest
      exact ⟨a, s₁, ⟨rfl, rfl⟩, rest⟩
    · rintro ⟨_, _, ⟨rfl, rfl⟩, rest⟩
      exact rest
  | error f s₁ => simp [bind, EStateM.bind, h]

@[simp] theorem pure_eq_ok {a' : α} :
    (pure a : Edit σ α) s = .ok a' t ↔ a = a' ∧ s = t := by
  simp [pure, EStateM.pure]

@[simp] theorem map_eq_ok {e : Edit σ α} {f : α → β} :
    (f <$> e) s = .ok b t ↔ ∃ a, e s = .ok a t ∧ f a = b := by
  cases h : e s <;> simp [Functor.map, EStateM.map, h, and_comm]

@[simp] theorem get_bind_apply {f : σ → Edit σ β} : (get >>= f) s = f s s := rfl

@[simp] theorem set_bind_apply {x : σ} {f : PUnit → Edit σ β} : (set x >>= f) s = f ⟨⟩ x := rfl

@[simp] theorem set_apply {x : σ} : (set x : Edit σ PUnit) s = .ok ⟨⟩ x := rfl

@[simp] theorem modify_bind_apply {f : σ → σ} {k : PUnit → Edit σ β} :
    (modify f >>= k) s = k ⟨⟩ (f s) := rfl

@[simp] theorem modify_apply {f : σ → σ} : (modify f : Edit σ PUnit) s = .ok ⟨⟩ (f s) := rfl

@[simp] theorem lift_bind_eq_ok {c : Checked α} {f : α → Edit σ β} :
    ((liftM c : Edit σ α) >>= f) s = .ok b t ↔ ∃ a, c = .ok a ∧ f a s = .ok b t := by
  cases c <;> simp [liftM, monadLift, MonadLift.monadLift, bind, EStateM.bind]

@[simp] theorem lift_eq_ok {c : Checked α} :
    (liftM c : Edit σ α) s = .ok a t ↔ c = .ok a ∧ s = t := by
  cases c <;> simp [liftM, monadLift, MonadLift.monadLift]

@[simp] theorem within_eq_ok {place : Place} {e : Edit σ α} :
    e.within place s = .ok a t ↔ e s = .ok a t := by
  cases h : e s <;> simp [within, h]

/-- A change of a part changes that part. -/
@[simp] theorem onPart_eq_ok {get : τ → σ} {put : σ → τ → τ} {e : Edit σ α} {x y : τ} :
    e.onPart get put x = .ok a y ↔ ∃ s', e (get x) = .ok a s' ∧ put s' x = y := by
  cases h : e (get x) <;> simp [onPart, h]

@[simp] theorem runFrom_eq_ok {e : Edit σ α} : e.runFrom s = .ok (a, t) ↔ e s = .ok a t := by
  cases h : e s <;> simp [runFrom, h]

/-! ## Failures -/

variable {failure : Failure}

theorem bind_eq_error {e : Edit σ α} {f : α → Edit σ β} :
    (e >>= f) s = .error failure t ↔
      e s = .error failure t ∨ ∃ a s₁, e s = .ok a s₁ ∧ f a s₁ = .error failure t := by
  cases h : e s <;> simp [bind, EStateM.bind, h]

@[simp] theorem pure_ne_error {a : α} : (pure a : Edit σ α) s ≠ .error failure t := by
  simp [pure, EStateM.pure]

/-- A change of a part that fails leaves what the part has become. -/
theorem onPart_eq_error {get : τ → σ} {put : σ → τ → τ} {e : Edit σ α} {x y : τ} :
    e.onPart get put x = .error failure y ↔
      ∃ s', e (get x) = .error failure s' ∧ put s' x = y := by
  cases h : e (get x) <;> simp [onPart, h]

theorem lift_bind_eq_error {c : Checked α} {f : α → Edit σ β} :
    ((liftM c : Edit σ α) >>= f) s = .error failure t ↔
      (c = .error failure ∧ s = t) ∨ ∃ a, c = .ok a ∧ f a s = .error failure t := by
  cases c <;> simp [liftM, monadLift, MonadLift.monadLift, bind, EStateM.bind]

theorem within_eq_error {place : Place} {e : Edit σ α} :
    e.within place s = .error failure t ↔
      ∃ cause, e s = .error cause t ∧ cause.within place = failure := by
  cases h : e s <;> simp [within, h, and_comm]

/-! ## Going on after a failure -/

/-- The state that a change leaves, whether it succeeds or not. -/
def after (e : Edit σ α) (s : σ) : σ :=
  match e s with
  | .ok _ s' => s'
  | .error _ s' => s'

theorem after_of_ok {e : Edit σ α} (run : e s = .ok a t) : e.after s = t := by
  rw [after, run]

theorem after_of_error {e : Edit σ α} (run : e s = .error failure t) : e.after s = t := by
  rw [after, run]

/-- A change of a part leaves what the part becomes. -/
theorem after_onPart {get : τ → σ} {put : σ → τ → τ} {e : Edit σ α} {x : τ} :
    (e.onPart get put).after x = put (e.after (get x)) x := by
  cases h : e (get x) <;> simp [after, onPart, h]

/-- The change keeps a property of the state, whether it succeeds or not. -/
def Keeps (holds : σ → Prop) (e : Edit σ α) : Prop := ∀ ⦃s⦄, holds s → holds (e.after s)

section Keeps

variable {holds : σ → Prop} {e : Edit σ α} {f : α → Edit σ β}

theorem keeps_pure : Keeps holds (pure a : Edit σ α) := fun _ start => start

theorem keeps_lift {c : Checked α} : Keeps holds (liftM c : Edit σ α) := by
  intro s start
  cases c <;> exact start

theorem keeps_get_bind {f : σ → Edit σ β} (rest : ∀ s, (f s).Keeps holds) :
    Keeps holds (get >>= f) :=
  fun s start => rest s start

theorem Keeps.bind (first : e.Keeps holds) (rest : ∀ a, (f a).Keeps holds) :
    (e >>= f).Keeps holds := by
  intro s start
  have next := first start
  cases run : (e >>= f) s with
  | ok b t =>
    obtain ⟨a, s₁, ran, run'⟩ := bind_eq_ok.1 run
    rw [after_of_ok ran] at next
    rw [after_of_ok run, ← after_of_ok run']
    exact rest a next
  | error failure t =>
    rw [after_of_error run]
    rcases bind_eq_error.1 run with ran | ⟨a, s₁, ran, run'⟩
    · rwa [after_of_error ran] at next
    · rw [after_of_ok ran] at next
      rw [← after_of_error run']
      exact rest a next

theorem keeps_modify {change : σ → σ} (kept : ∀ s, holds s → holds (change s)) :
    Keeps holds (modify change : Edit σ PUnit) := kept

theorem Keeps.within {place : Place} (keeps : e.Keeps holds) : (e.within place).Keeps holds := by
  intro s start
  have next := keeps start
  cases run : e s <;> simpa [after, Edit.within, run] using next

theorem keeps_forM {step : β → Edit σ PUnit} {l : List β} (steps : ∀ b, (step b).Keeps holds) :
    Keeps holds (forM l step) := by
  induction l with
  | nil => exact keeps_pure
  | cons b rest ih =>
    rw [List.forM_cons]
    exact (steps b).bind fun _ => ih

end Keeps

end Edit

end EvenPad
