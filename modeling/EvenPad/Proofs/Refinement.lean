import EvenPad.Proofs.Conv.Unpadded
import EvenPad.Proofs.Graph.Edges

/-!
Facts that tell more: a fact is `RefinedBy` another one if whatever it tells the other one tells
as well. Operators infer on each axis by itself, so what is needed of the order is how a loop
along the axes carries it (`Checked.forall₂_of_mapM`) and how a computation does that knows
nothing when it is told nothing (`Extent.RefinedBy.of_run`).
-/

namespace EvenPad

/-! ## Lists -/

section Lists

variable {α β γ δ : Type} {R : α → γ → Prop} {S : β → δ → Prop} {l : List α} {l' : List γ}

theorem forall₂_zip {m : List β} {m' : List δ} (left : List.Forall₂ R l l')
    (right : List.Forall₂ S m m') :
    List.Forall₂ (fun p p' => R p.1 p'.1 ∧ S p.2 p'.2) (l.zip m) (l'.zip m') := by
  induction left generalizing m m' with
  | nil => exact .nil
  | cons head _ ih =>
    cases right with
    | nil => exact .nil
    | cons head' tail' => exact .cons ⟨head, head'⟩ (ih tail')

theorem forall₂_zipIdx (related : List.Forall₂ R l l') :
    List.Forall₂ (fun p p' => R p.1 p'.1 ∧ p.2 = p'.2) l.zipIdx l'.zipIdx := by
  rw [List.zipIdx_eq_zip_range', List.zipIdx_eq_zip_range', related.length_eq]
  exact forall₂_zip related (List.forall₂_refl _)

theorem forall₂_getElem?_rel {k : Nat} (related : List.Forall₂ R l l') :
    Option.Rel R l[k]? l'[k]? := by
  cases here : l[k]? with
  | none =>
    rw [List.getElem?_eq_none_iff, related.length_eq] at here
    rw [List.getElem?_eq_none here]
    exact .none
  | some a =>
    obtain ⟨a', there, holds⟩ := forall₂_getElem? related here
    rw [there]
    exact .some holds

/-- Where a step takes related arguments to related results, so does a loop. -/
theorem Checked.forall₂_of_mapM {f : α → Checked β} {f' : γ → Checked δ} {bs : List β}
    {bs' : List δ}
    (step : ∀ {a a' b b'}, R a a' → f a = .ok b → f' a' = .ok b' → S b b')
    (related : List.Forall₂ R l l') (run : l.mapM f = .ok bs) (run' : l'.mapM f' = .ok bs') :
    List.Forall₂ S bs bs' := by
  rw [Checked.mapM_eq_ok_iff] at run run'
  induction related generalizing bs bs' with
  | nil =>
    cases run
    cases run'
    exact .nil
  | cons head _ ih =>
    cases run with
    | cons first rest =>
      cases run' with
      | cons first' rest' => exact .cons (step head first first') (ih rest rest')

end Lists

/-! ## Refinement -/

/-- Nothing is known of the axis, or the other extent is the same. -/
def Extent.RefinedBy (e e' : Extent) : Prop := e = .dynamic ∨ e = e'

/-- Nothing is known of the shape, or the other one has the same rank and refines each extent. -/
def Shape.RefinedBy : Shape → Shape → Prop
  | .unranked, _ => True
  | .ranked _, .unranked => False
  | .ranked extents, .ranked extents' => List.Forall₂ Extent.RefinedBy extents extents'

/-- The other fact is of the same element type, refines the shape, and has the value if one is
known. -/
structure Fact.RefinedBy (f f' : Fact) : Prop where
  elementType : f.elementType = f'.elementType
  shape : f.shape.RefinedBy f'.shape
  value : f.value? = none ∨ f.value? = f'.value?

instance {e e' : Extent} : Decidable (e.RefinedBy e') :=
  inferInstanceAs (Decidable (e = .dynamic ∨ e = e'))

instance : (s s' : Shape) → Decidable (s.RefinedBy s')
  | .unranked, _ => inferInstanceAs (Decidable True)
  | .ranked _, .unranked => inferInstanceAs (Decidable False)
  | .ranked extents, .ranked extents' =>
    inferInstanceAs (Decidable (List.Forall₂ Extent.RefinedBy extents extents'))

instance {f f' : Fact} : Decidable (f.RefinedBy f') :=
  decidable_of_iff (f.elementType = f'.elementType ∧ f.shape.RefinedBy f'.shape ∧
      (f.value? = none ∨ f.value? = f'.value?))
    ⟨fun ⟨elementType, shape, value⟩ => ⟨elementType, shape, value⟩,
      fun refined => ⟨refined.elementType, refined.shape, refined.value⟩⟩

variable {e e' k k' : Extent} {s s' : Shape} {axis rank : Nat}

namespace Extent.RefinedBy

theorem refl : e.RefinedBy e := .inr rfl

theorem of_fixed {n : Nat} (refined : (Extent.fixed n).RefinedBy e) : e = .fixed n := by
  rcases refined with dynamic | same
  · cases dynamic
  · exact same.symm

/-- A computation on an extent that knows nothing when it is told nothing. -/
theorem of_run {f : Extent → Checked Extent} {x x' : Extent} (refined : e.RefinedBy e')
    (blind : ∀ {x}, f .dynamic = .ok x → x = .dynamic) (run : f e = .ok x)
    (run' : f e' = .ok x') :
    x.RefinedBy x' := by
  rcases refined with rfl | rfl
  · exact .inl (blind run)
  · exact .inr (Except.ok.inj (run.symm.trans run'))

/-- A computation on two extents that knows nothing unless it is told both. -/
theorem of_run₂ {f : Extent → Extent → Checked Extent} {x x' : Extent} (first : e.RefinedBy e')
    (second : k.RefinedBy k') (blind : ∀ {k x}, f .dynamic k = .ok x → x = .dynamic)
    (blind' : ∀ {e x}, f e .dynamic = .ok x → x = .dynamic) (run : f e k = .ok x)
    (run' : f e' k' = .ok x') : x.RefinedBy x' := by
  rcases first with rfl | rfl
  · exact .inl (blind run)
  · exact second.of_run blind' run run'

/-- Of axes of which nothing is known any extents tell more. -/
theorem replicate {extents : List Extent} (length : extents.length = rank) :
    List.Forall₂ RefinedBy (List.replicate rank .dynamic) extents := by
  subst length
  induction extents with
  | nil => exact .nil
  | cons e rest ih => exact .cons (.inl rfl) ih

theorem all_refl {extents : List Extent} : List.Forall₂ RefinedBy extents extents :=
  List.forall₂_same.2 fun _ _ => refl

end Extent.RefinedBy

namespace Shape.RefinedBy

theorem refl : s.RefinedBy s := by
  cases s with
  | unranked => trivial
  | ranked extents => exact Extent.RefinedBy.all_refl

theorem of_rank {count : Nat} (refined : s.RefinedBy s') (known : s.rank? = some count) :
    s'.rank? = some count := by
  cases s with
  | unranked => simp [rank?] at known
  | ranked extents =>
    cases s' with
    | unranked => exact refined.elim
    | ranked extents' =>
      have same : extents.length = extents'.length := refined.length_eq
      rw [← known, rank?, rank?, same]

theorem extentAt (refined : s.RefinedBy s') (found : s.extentAt axis = .ok e)
    (found' : s'.extentAt axis = .ok e') : e.RefinedBy e' := by
  cases s with
  | unranked =>
    cases Except.ok.inj found
    exact .inl rfl
  | ranked extents =>
    cases s' with
    | unranked => exact refined.elim
    | ranked extents' =>
      rw [Shape.extentAt, Checked.ofOption_eq_ok] at found found'
      obtain ⟨e₁, there, refines⟩ := forall₂_getElem? refined found
      cases there.symm.trans found'
      exact refines

theorem tail {extents extents' : List Extent} (refined : s.RefinedBy s')
    (found : s.tail axis rank = .ok extents) (found' : s'.tail axis rank = .ok extents') :
    List.Forall₂ Extent.RefinedBy extents extents' := by
  cases s with
  | unranked =>
    cases Except.ok.inj found
    exact Extent.RefinedBy.replicate (length_of_tail found')
  | ranked all =>
    cases s' with
    | unranked => exact refined.elim
    | ranked all' =>
      have same : all.length = all'.length := refined.length_eq
      unfold Shape.tail at found found'
      dsimp only at found found'
      split at found
      · next length =>
        rw [if_pos (same.symm.trans length)] at found'
        cases Except.ok.inj found
        cases Except.ok.inj found'
        exact List.forall₂_drop axis refined
      · split at found <;> simp at found

end Shape.RefinedBy

theorem Fact.RefinedBy.refl {f : Fact} : f.RefinedBy f := ⟨rfl, .refl, .inr rfl⟩

theorem Fact.RefinedBy.of_unranked {type : ElementType} {f : Fact}
    (typed : f.elementType = type) :
    (Fact.typed type .unranked).RefinedBy f :=
  ⟨typed.symm, trivial, .inl rfl⟩

end EvenPad
