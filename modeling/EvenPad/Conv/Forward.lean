import EvenPad.Conv.Operands
import EvenPad.Window.SamePads

/-!
Forward convolutions, plain and grouped: their pads and the fact of their output.
-/

namespace EvenPad.Conv

/-- A window whose pads are derived from the extents of an input and a filter, on those axes where
both are known, and whether that are all. -/
def forwardSamePads (w : Window) (input kernel : List Extent) : Checked (Window × Bool) := do
  let found ← ((w.axes.zip (input.zip kernel)).mapM fun (a, i, k) =>
    match i, k with
    | .fixed i, .fixed k =>
      (Window.samePads i k a.dilation a.stride (w.mode = .sameUpper)).map some
    | _, _ => .ok none)
  let padsBegin := w.padsBegin.zipWith
    (fun old new => new.elim old fun (s : Window.SameAxis) => Word.signed s.padBefore) found
  let padsEnd := w.padsEnd.zipWith
    (fun old new => new.elim old fun (s : Window.SameAxis) => Word.signed s.padAfter) found
  return ({ w with padsBegin, padsEnd }, found.all Option.isSome)

/-- The window with the pads that its mode stands for, and whether they are final. -/
def forwardPads (w : Window) (input kernel : List Extent) : Checked (Window × Bool) :=
  match w.mode with
  | .explicit => .ok (w, true)
  | .valid => .ok (w.clearPads, true)
  | .sameUpper | .sameLower => forwardSamePads w input kernel

/-- Pads and output of a forward convolution. When nothing tells the number of spatial axes, the
window stays as it is and the output has no known rank. -/
def resolveForward (kind : ConvKind) (w : Window) (inputs : List Fact) : Checked Resolution := do
  let t := kind.traits
  Checked.require (!t.transposed) (.notForward kind)
  match inputs with
  | [data, filters] => do
    let type ← elementType data filters
    match spatialRank? t w data filters with
    | none => return ⟨w, !w.mode.isSame, .typed type .unranked⟩
    | some spatialRank => do
      let operands ← checkOperands t w data filters spatialRank
        (fun rank => .forwardFilterRank kind rank spatialRank) (.forwardChannels kind)
      let (window, padsKnown) ← forwardPads operands.window operands.input operands.kernel
      let spatial ←
        if padsKnown then window.forwardShape operands.input operands.kernel
        else pure (List.replicate spatialRank .dynamic)
      return ⟨window, padsKnown, ← outputFact t type data filters spatial⟩
  | _ => Checked.refuse (.notDataAndFilters inputs)

end EvenPad.Conv
