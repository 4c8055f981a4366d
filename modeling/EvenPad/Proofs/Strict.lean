import EvenPad.Proofs.Faultless

/-!
Lists read by position. Where the running definitions walk over paired lists and cannot miss an
entry, a strict computation asks for the entry at a position. It has neither a result nor a
failure when it asks for what is not there: an entry or a rest past the end of a list, or a
quotient by zero. A strict computation gives what a checked one gives when it asks for nothing of
that kind and has the same outcome, and that outcome is no fault.
-/

namespace EvenPad

/-- A checked computation that goes on only as long as what it asks for is there. -/
abbrev Strict (α : Type) := ExceptT Failure Option α

namespace Strict

variable {α β γ : Type}

/-! ## What may be missing -/

/-- The entry at a position. -/
def entry (l : List α) (i : Nat) : Strict α := ExceptT.lift l[i]?

/-- The entries from a position on. -/
def rest (l : List α) (i : Nat) : Strict (List α) :=
  ExceptT.lift (if i ≤ l.length then some (l.drop i) else none)

/-- The list with another entry at a position. -/
def exchange (l : List α) (i : Nat) (a : α) : Strict (List α) :=
  ExceptT.lift (if i < l.length then some (l.set i a) else none)

/-- A number to divide by. -/
def divisor [DecidableEq α] [OfNat α 0] (d : α) : Strict α :=
  ExceptT.lift (if d = 0 then none else some d)

theorem entry_of_getElem? {l : List α} {i : Nat} {a : α} (found : l[i]? = some a) :
    entry l i = pure a := by
  rw [entry, found]
  rfl

theorem rest_of_le {l : List α} {i : Nat} (within : i ≤ l.length) :
    rest l i = pure (l.drop i) := by
  rw [rest, if_pos within]
  rfl

/-- What comes after a first part is exchanged. -/
theorem exchange_append {l m : List α} {a b : α} {i : Nat} (length : l.length = i) :
    exchange (l ++ a :: m) i b = pure (l ++ b :: m) := by
  subst length
  rw [exchange, if_pos (by simp), List.set_append_right _ _ (Nat.le_refl _),
    Nat.sub_self, List.set_cons_zero]
  rfl

theorem divisor_of_ne_zero [DecidableEq α] [OfNat α 0] {d : α} (nonzero : d ≠ 0) :
    divisor d = pure d := by
  rw [divisor, if_neg nonzero]
  rfl

/-! ## Computations that find everything -/

/-- The strict computation finds everything that it asks for and ends as the checked one does,
which does not fault. -/
structure Gives (s : Strict α) (c : Checked α) : Prop where
  run : s.run = some c
  faultless : c.Faultless

variable {s : Strict α} {c : Checked α} {f : α → Strict β} {g : α → Checked β}

theorem gives_lift (faultless : c.Faultless) : Gives (liftM c) c := ⟨rfl, faultless⟩

theorem gives_pure {a : α} : Gives (pure a) (pure a) := ⟨rfl, Checked.faultless_pure⟩

theorem Gives.bind (first : Gives s c) (rest : ∀ a, c = .ok a → Gives (f a) (g a)) :
    Gives (s >>= f) (c >>= g) where
  run := by
    have step : (s >>= f).run = s.run >>= ExceptT.bindCont f := rfl
    rw [step, first.run]
    cases run : c with
    | ok a => exact (rest a run).run
    | error failure => rfl
  faultless := first.faultless.bind fun a run => (rest a run).faultless

/-- A check is the same in both. -/
theorem gives_check {c : Checked α} (faultless : c.Faultless)
    (rest : ∀ a, c = .ok a → Gives (f a) (g a)) :
    Gives (liftM c >>= f) (c >>= g) :=
  (gives_lift faultless).bind rest

/-- Both are refused where a check fails. -/
theorem gives_refusal {condition : Bool} {cause : Cause} {f : Unit → Strict β}
    (fails : condition = false) :
    Gives (liftM (Checked.require condition cause) >>= f) (Checked.refuse cause) := by
  subst fails
  exact ⟨rfl, Checked.faultless_refuse⟩

/-- A check that is met can be left out. -/
theorem gives_granted {condition : Bool} {cause : Cause} {f : Unit → Strict β} {c : Checked β}
    (holds : condition = true) (rest : Gives (f ()) c) :
    Gives (liftM (Checked.require condition cause) >>= f) c := by
  subst holds
  exact rest

theorem gives_require {condition : Bool} {cause : Cause} {f : Unit → Strict β}
    {g : Unit → Checked β} (rest : condition = true → Gives (f ()) (g ())) :
    Gives (liftM (Checked.require condition cause) >>=
      f) (Checked.require condition cause >>= g) :=
  gives_check Checked.faultless_require fun _ run => rest (Checked.require_eq_ok.1 run)

/-- What a computation gives after a change of its result is what the rest may go on with. -/
theorem Gives.bind_map {c : Checked γ} {g : γ → Checked β} {h : γ → α} (first : Gives s (c.map h))
    (rest : ∀ x, c = .ok x → Gives (f (h x)) (g x)) : Gives (s >>= f) (c >>= g) := by
  cases run : c with
  | ok x =>
    subst run
    refine first.bind (g := fun _ => g x) fun a told => ?_
    cases told
    exact rest x rfl
  | error failure =>
    subst run
    exact first.bind (g := fun _ => .error failure) fun a told => nomatch told

theorem Gives.map {h : α → β} (gives : Gives s c) : Gives (h <$> s) (c.map h) := by
  have same : c.map h = c >>= fun a => pure (h a) := by cases c <;> rfl
  rw [same, map_eq_pure_bind]
  exact gives.bind fun _ _ => gives_pure

/-! ## Lists -/

theorem gives_mapM {f : α → Strict γ} {g : β → Checked γ} {l : List α} {m : List β}
    (steps : List.Forall₂ (fun a b => Gives (f a) (g b)) l m) : Gives (l.mapM f) (m.mapM g) := by
  induction steps with
  | nil => exact gives_pure
  | cons step _ ih =>
    rw [List.mapM_cons, List.mapM_cons]
    exact step.bind fun _ _ => ih.bind fun _ _ => gives_pure

/-- A walk over all positions of a list, entry by entry. -/
theorem gives_mapM_range {f : Nat → Strict γ} {g : β × Nat → Checked γ} {l : List β} {n : Nat}
    (length : l.length = n) (steps : ∀ i b, l[i]? = some b → Gives (f i) (g (b, i))) :
    Gives ((List.range n).mapM f) (l.zipIdx.mapM g) := by
  subst length
  refine gives_mapM (List.forall₂_iff_get.2 ⟨by simp, fun i _ within => ?_⟩)
  rw [List.length_zipIdx] at within
  simpa using steps i l[i] (List.getElem?_eq_getElem within)

/-- A walk with one more entry at the end. -/
theorem mapM_concat_map {f : α → Checked β} {l : List α} {a : α} {h : List β → γ} :
    ((l ++ [a]).mapM f).map h = l.mapM f >>= fun bs => (f a).map fun b => h (bs ++ [b]) := by
  rw [List.mapM_append]
  cases l.mapM f with
  | error => rfl
  | ok bs => cases run : f a <;> simp [List.mapM_cons, run] <;> rfl

/-- A walk over all positions of a list in which nothing can go wrong, and what is made of it. -/
theorem gives_map_range {f : Nat → Strict γ} {g : β → γ} {h : List γ → α} {l : List β} {n : Nat}
    (length : l.length = n) (steps : ∀ i b, l[i]? = some b → f i = pure (g b)) :
    Gives ((List.range n).mapM f >>= fun cs => pure (h cs)) (pure (h (l.map g))) := by
  have gives : Gives ((List.range n).mapM f) (l.zipIdx.mapM fun b => pure (g b.1)) :=
    gives_mapM_range length fun i b found => steps i b found ▸ gives_pure
  have pairs : l.zipIdx.map (fun b => g b.1) = l.map g := by
    rw [← Function.comp_def g Prod.fst, ← List.map_map, List.zipIdx_map_fst]
  rw [List.mapM_pure, pairs] at gives
  exact gives.bind fun _ _ => gives_pure

end Strict

end EvenPad
