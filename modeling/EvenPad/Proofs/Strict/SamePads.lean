import EvenPad.Conv.Forward
import EvenPad.Proofs.Strict.Window

/-!
The pads of the SAME modes, put in place axis after axis. The running definition finds all of them
first and then lays them over the old ones. Main statement: both leave the same window, and the
loop stays within the lists of the window and of the extents when these have one entry for each
axis (`Strict.gives_forwardSamePads`).
-/

namespace EvenPad.Strict

/-! ## The loop -/

/-- The pads of a SAME mode put in place on one axis. An axis of unknown extent keeps its pads. -/
def placeSame (w : Window) (input kernel : List Extent) (state : Window × Bool) (axis : Nat) :
    Strict (Window × Bool) := do
  match ← entry input axis, ← entry kernel axis with
  | .fixed i, .fixed k => do
    let same ← samePads i k (← entry w.dilations axis) (← entry w.strides axis)
        (w.mode = .sameUpper)
    let padsBegin ← exchange state.1.padsBegin axis (Word.signed same.padBefore)
    let padsEnd ← exchange state.1.padsEnd axis (Word.signed same.padAfter)
    return ({ state.1 with padsBegin, padsEnd }, state.2)
  | _, _ => return (state.1, false)

def forwardSamePads (w : Window) (spatialRank : Nat) (input kernel : List Extent) :
    Strict (Window × Bool) :=
  (List.range spatialRank).foldlM (placeSame w input kernel) (w, true)

/-! ## What it leaves -/

variable {w : Window} {rank : Nat} {input kernel : List Extent}

/-- The pads of the first axes where some were found. -/
def overlay (p : Window.SameAxis → Int) (pads : List Int)
    (found : List (Option Window.SameAxis)) : List Int :=
  pads.zipWith (fun old new => new.elim old p) found ++ pads.drop found.length

section Overlay

variable {p : Window.SameAxis → Int} {pads : List Int} {found : List (Option Window.SameAxis)}
  {new : Option Window.SameAxis} {same : Window.SameAxis} {old : Int}

theorem overlay_concat (there : pads[found.length]? = some old) :
    overlay p pads (found ++ [new]) =
      pads.zipWith (fun old new => new.elim old p) found ++
        new.elim old p :: pads.drop (found.length + 1) := by
  induction found generalizing pads with
  | nil =>
    cases pads with
    | nil => simp at there
    | cons p rest =>
      cases there
      simp [overlay]
  | cons f later ih =>
    cases pads with
    | nil => simp at there
    | cons p rest =>
      have later := ih (by simpa using there : rest[later.length]? = some old)
      simpa [overlay] using later

theorem overlay_eq (there : pads[found.length]? = some old) :
    overlay p pads found =
      pads.zipWith (fun old new => new.elim old p) found ++
        old :: pads.drop (found.length + 1) := by
  obtain ⟨within, rfl⟩ := List.getElem?_eq_some_iff.1 there
  rw [overlay, List.drop_eq_getElem_cons within]

theorem exchange_overlay (there : pads[found.length]? = some old) :
    exchange (overlay p pads found) found.length (p same) =
      pure (overlay p pads (found ++ [some same])) := by
  rw [overlay_eq there, overlay_concat there]
  refine exchange_append ?_
  have within := (List.getElem?_eq_some_iff.1 there).1
  rw [List.length_zipWith]
  omega

theorem overlay_none (there : pads[found.length]? = some old) :
    overlay p pads (found ++ [none]) = overlay p pads found := by
  rw [overlay_eq there, overlay_concat there]
  rfl

end Overlay

/-- The window with the pads that were found for its first axes. -/
def placed (w : Window) (found : List (Option Window.SameAxis)) : Window × Bool :=
  ({ w with
    padsBegin := overlay (fun s => Word.signed s.padBefore) w.padsBegin found
    padsEnd := overlay (fun s => Word.signed s.padAfter) w.padsEnd found },
  found.all Option.isSome)

/-- The pads of one axis, where both extents are known. -/
def sameAxis (w : Window) : Window.Axis × Extent × Extent → Checked (Option Window.SameAxis)
  | (a, i, k) =>
    match i, k with
    | .fixed i, .fixed k =>
      (Window.samePads i k a.dilation a.stride (w.mode = .sameUpper)).map some
    | _, _ => .ok none

/-- When all axes are done the pads that were found stand over all of the old ones. -/
theorem forwardSamePads_eq (ofRank : w.OfRank rank) (inputs : input.length = rank)
    (kernels : kernel.length = rank) :
    Conv.forwardSamePads w input kernel =
      ((w.axes.zip (input.zip kernel)).mapM (sameAxis w)).map (placed w) := by
  change ((w.axes.zip (input.zip kernel)).mapM (sameAxis w) >>= fun found => _) = _
  cases told : (w.axes.zip (input.zip kernel)).mapM (sameAxis w) with
  | error => rfl
  | ok found =>
    have all : found.length = rank := by
      rw [← (Checked.mapM_eq_ok_iff.1 told).length_eq]
      simp [ofRank.length_axes, inputs, kernels]
    have begins : w.padsBegin.drop found.length = [] :=
      List.drop_eq_nil_iff.2 (by rw [ofRank.padsBegin, all])
    have ends : w.padsEnd.drop found.length = [] :=
      List.drop_eq_nil_iff.2 (by rw [ofRank.padsEnd, all])
    simp only [Except.map, placed, overlay, begins, ends, List.append_nil]
    rfl

/-- One axis more. -/
theorem gives_placeSame {found : List (Option Window.SameAxis)} {a : Window.Axis} {i k : Extent}
    (axisAt : w.axes[found.length]? = some a) (inputAt : input[found.length]? = some i)
    (kernelAt : kernel[found.length]? = some k) :
    Gives (placeSame w input kernel (placed w found) found.length)
      ((sameAxis w (a, i, k)).map fun new => placed w (found ++ [new])) := by
  obtain ⟨strideAt, dilationAt, beginAt, endAt⟩ := Window.axes_getElem?.1 axisAt
  simp only [placeSame, entry_of_getElem? inputAt, entry_of_getElem? kernelAt, pure_bind]
  have unknown :
      Gives (pure ((placed w found).1, false)) (pure (placed w (found ++ [none]))) := by
    simp only [placed, overlay_none beginAt, overlay_none endAt, List.all_append, List.all_cons,
      Option.isSome_none, Bool.false_and, Bool.and_false]
    exact gives_pure
  cases i with
  | dynamic => exact unknown
  | fixed i =>
    cases k with
    | dynamic => exact unknown
    | fixed k =>
      have checked {c : Checked Window.SameAxis} :
          ((c.map some).map fun new => placed w (found ++ [new])) =
            c >>= fun same => pure (placed w (found ++ [some same])) := by cases c <;> rfl
      simp only [entry_of_getElem? strideAt, entry_of_getElem? dilationAt,
        pure_bind, sameAxis, checked]
      refine gives_samePads.bind fun same _ => ?_
      simp only [placed, exchange_overlay (p := fun s => Word.signed s.padBefore) beginAt,
        exchange_overlay (p := fun s => Word.signed s.padAfter) endAt, pure_bind, List.all_append,
        List.all_cons, Option.isSome_some, List.all_nil, Bool.and_true]
      exact gives_pure

/-- After its first axes, the loop holds the window with the pads that were found for them. -/
theorem gives_sameLoop {n : Nat} (ofRank : w.OfRank rank) (inputs : input.length = rank)
    (kernels : kernel.length = rank) (within : n ≤ rank) :
    Gives ((List.range n).foldlM (placeSame w input kernel) (w, true))
      ((((w.axes.zip (input.zip kernel)).take n).mapM (sameAxis w)).map (placed w)) := by
  have length : (w.axes.zip (input.zip kernel)).length = rank := by
    simp [ofRank.length_axes, inputs, kernels]
  induction n with
  | zero =>
    have start : placed w [] = (w, true) := by simp [placed, overlay]
    exact start ▸ gives_pure
  | succ n ih =>
    have there : (w.axes.zip (input.zip kernel))[n]? = some (w.axes.zip (input.zip kernel))[n] :=
      List.getElem?_eq_getElem (by omega)
    obtain ⟨a, i, k⟩ := (w.axes.zip (input.zip kernel))[n]
    rw [List.range_succ, List.foldlM_append, List.take_add_one, there,
      Option.toList_some, mapM_concat_map]
    refine Gives.bind_map (ih (by omega)) fun found told => ?_
    obtain rfl : found.length = n := by
      rw [← (Checked.mapM_eq_ok_iff.1 told).length_eq, List.length_take]
      omega
    simp only [List.getElem?_zip_eq_some] at there
    simp only [List.foldlM_cons, List.foldlM_nil, bind_pure]
    exact gives_placeSame there.1 there.2.1 there.2.2

theorem gives_forwardSamePads (ofRank : w.OfRank rank) (inputs : input.length = rank)
    (kernels : kernel.length = rank) :
    Gives (forwardSamePads w rank input kernel) (Conv.forwardSamePads w input kernel) := by
  have all : (w.axes.zip (input.zip kernel)).take rank = w.axes.zip (input.zip kernel) :=
    List.take_of_length_le (by simp [ofRank.length_axes, inputs, kernels])
  have loop := gives_sameLoop ofRank inputs kernels (Nat.le_refl rank)
  rw [all, ← forwardSamePads_eq ofRank inputs kernels] at loop
  exact loop

end EvenPad.Strict
