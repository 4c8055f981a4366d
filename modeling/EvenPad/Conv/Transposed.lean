import EvenPad.Conv.Operands
import EvenPad.Tensor.Contents
import EvenPad.Window.SamePads

/-!
Transposed convolutions: the output shape that an input may ask for, the pads, and the fact of the
output.
-/

namespace EvenPad.Conv

/-- The spatial shape that an input asks for, if it is a constant. -/
def requestedShape (outputShape : Fact) : Checked (Option (List Nat)) :=
  match outputShape.value? with
  | none => .ok none
  | some t => do
    Checked.require (t.rank = 1) (.outputShapeNotVector t)
    Checked.require t.elementType.isInteger (.outputShapeNotIntegers t)
    return some (← t.naturals)

/-- The spatial shape asked for by an input that may be missing. -/
def requestedShape? : Option Fact → Checked (Option (List Nat))
  | none => .ok none
  | some outputShape => requestedShape outputShape

/-- The spatial output shape as far as it is asked for, before any inference: that of a constant
input, no rank at all for an input that is not constant, and without such an input just a rank. -/
def outputShapeQuery (t : ConvTraits) (w : Window) (data filters : Fact)
    (outputShape : Option Fact) : Checked Shape := do
  match outputShape with
  | some fact =>
    match ← requestedShape fact with
    | some lengths => return .ofLengths lengths
    | none => return .unranked
  | none =>
    let rank :=
      (data.rank?.map (· - 2)).or
        (if t.grouped then filters.rank?.map (· - 3) else w.spatialRank?)
    return rank.elim .unranked .dynamic

/-- The window of a transposed convolution that has an input for its output shape, and whether its
pads are final. -/
def requestedPads (operands : Operands) (requested : Option (List Nat)) :
    Checked (Window × Bool) :=
  let w := operands.window
  match w.mode with
  | .explicit => .ok (w, true)
  | .valid => .ok (w.clearPads, true)
  | .sameUpper | .sameLower =>
    match operands.input.mapM Extent.length?, operands.kernel.mapM Extent.length?, requested with
    | some input, some kernel, some wanted => do
      let (padsBegin, padsEnd) ← w.samePadsFor input kernel wanted
      return ({ w with padsBegin, padsEnd }, true)
    | _, _, _ => .ok (w, false)

/-- Pads and spatial output extents of a transposed convolution. An input for the output shape
decides the extents even if it does not decide the pads; without it every mode but the explicit
one means no pads. -/
def transposedSpatial (operands : Operands) (spatialRank : Nat) (hasOutputShape : Bool)
    (requested : Option (List Nat)) : Checked (Window × Bool × List Extent) := do
  if hasOutputShape then
    match requested with
    | some wanted =>
      Checked.require (wanted.length = spatialRank) (.outputShapeLength wanted spatialRank)
    | none => pure ()
    let (window, padsKnown) ← requestedPads operands requested
    let spatial := requested.elim (List.replicate spatialRank .dynamic) (·.map .fixed)
    return (window, padsKnown, spatial)
  else
    let window :=
      if operands.window.mode = .explicit then operands.window else operands.window.clearPads
    return (window, true, ← window.transposedShape operands.input operands.kernel)

/-- Pads and output of a transposed convolution. -/
def resolveTransposed (t : ConvTraits) (w : Window) (data filters : Fact)
    (outputShape : Option Fact) : Checked Resolution := do
  let type ← elementType data filters
  let requested ← requestedShape? outputShape
  match (spatialRank? t w data filters).or (requested.map List.length) with
  | none => return ⟨w, w.mode = .explicit, .typed type .unranked⟩
  | some spatialRank => do
    let operands ← checkOperands t w data filters spatialRank
      (fun rank => .transposedFilterRank rank spatialRank) .transposedChannels
    let (window, padsKnown, spatial) ←
      transposedSpatial operands spatialRank outputShape.isSome requested
    return ⟨window, padsKnown, ← outputFact t type data filters spatial⟩

/-! ## The two transposed operators -/

/-- Data, filters, wanted output shape and addend, for as many inputs as the traits ask for. -/
structure TransposedInputs where
  data : Fact
  filters : Fact
  outputShape : Option Fact
  addend : Option Fact

/-- The inputs by their roles. -/
def transposedInputs (kind : ConvKind) (t : ConvTraits) (inputs : List Fact) :
    Checked TransposedInputs :=
  match t.takesOutputShape, t.takesAddend, inputs with
  | false, false, [data, filters] => .ok ⟨data, filters, none, none⟩
  | true, false, [data, filters, shape] => .ok ⟨data, filters, some shape, none⟩
  | false, true, [data, filters, addend] => .ok ⟨data, filters, none, some addend⟩
  | true, true, [data, filters, shape, addend] => .ok ⟨data, filters, some shape, some addend⟩
  | _, _, _ => Checked.refuse (.convInputCount kind t.inputCount inputs.length)

/-- The inputs of a transposed convolution without addend, for the kinds that have none. -/
def deconvInputs (kind : ConvKind) (takesOutputShape : Bool) (inputs : List Fact) :
    Checked TransposedInputs := do
  Checked.require
    (kind = .convolutionBackpropData || kind = .groupConvolutionBackpropData)
    (.notTransposed kind)
  transposedInputs kind { kind.traits with takesOutputShape := takesOutputShape } inputs

/-- The inputs of a transposed convolution with an addend. -/
def fusedInputs (takesOutputShape : Bool) (inputs : List Fact) : Checked TransposedInputs :=
  transposedInputs .fusedConvBackpropData
    { ConvKind.fusedConvBackpropData.traits with takesOutputShape := takesOutputShape } inputs

/-- The output shape asked of a transposed convolution. -/
def deconvQuery (kind : ConvKind) (w : Window) (takesOutputShape : Bool) (inputs : List Fact) :
    Checked Shape := do
  let i ← deconvInputs kind takesOutputShape inputs
  outputShapeQuery { kind.traits with takesOutputShape := takesOutputShape } w i.data i.filters
    i.outputShape

/-- The output shape asked of a transposed convolution with an addend. -/
def fusedQuery (w : Window) (takesOutputShape : Bool) (inputs : List Fact) : Checked Shape := do
  let i ← fusedInputs takesOutputShape inputs
  outputShapeQuery
    { ConvKind.fusedConvBackpropData.traits with takesOutputShape := takesOutputShape } w i.data
    i.filters i.outputShape

/-- Pads and output of a transposed convolution without addend. -/
def resolveDeconv (kind : ConvKind) (w : Window) (takesOutputShape : Bool) (inputs : List Fact) :
    Checked Resolution := do
  let i ← deconvInputs kind takesOutputShape inputs
  resolveTransposed { kind.traits with takesOutputShape := takesOutputShape } w i.data i.filters
    i.outputShape

/-- Pads and output of a transposed convolution with an addend, before the addition. -/
def resolveFused (w : Window) (takesOutputShape : Bool) (inputs : List Fact) :
    Checked Resolution := do
  let i ← fusedInputs takesOutputShape inputs
  resolveTransposed
    { ConvKind.fusedConvBackpropData.traits with takesOutputShape := takesOutputShape } w i.data
    i.filters i.outputShape

end EvenPad.Conv
