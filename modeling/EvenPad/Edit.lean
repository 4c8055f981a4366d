import EvenPad.Failure

/-!
Changes of a state that may fail halfway. What a change did before it failed stays done, as a
caller who goes on after a failure can see.
-/

namespace EvenPad

/-- A change of a state, with a result or a failure. Either way there is a state afterwards. -/
abbrev Edit (σ α : Type) := EStateM Failure σ α

instance {σ : Type} : MonadLift (Except Failure) (EStateM Failure σ) where
  monadLift c := fun s =>
    match c with
    | .ok a => .ok a s
    | .error f => .error f s

namespace Edit

variable {σ τ α : Type}

/-- The change with its refusals placed. -/
def within (place : Place) (e : Edit σ α) : Edit σ α := fun s =>
  match e s with
  | .ok a s => .ok a s
  | .error f s => .error (f.within place) s

/-- The change made to a part of a larger state. -/
def onPart (get : τ → σ) (put : σ → τ → τ) (e : Edit σ α) : Edit τ α := fun t =>
  match e (get t) with
  | .ok a s => .ok a (put s t)
  | .error f s => .error f (put s t)

/-- The result of a change of a state that is given up if the change fails. -/
def runFrom (e : Edit σ α) (s : σ) : Checked (α × σ) :=
  match e s with
  | .ok a s => .ok (a, s)
  | .error f _ => .error f

end Edit

end EvenPad
