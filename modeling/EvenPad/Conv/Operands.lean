import EvenPad.Shape.Axes
import EvenPad.Window.Rank

/-!
What every convolution asks of its data and filters: one element type, spatial axes that match the
window, and channels that match between the two.
-/

namespace EvenPad

/-- A convolution with defaults and derived pads filled in, and the fact of its output. -/
structure Resolution where
  window : Window
  /-- The pads are final. In a SAME mode they hang on extents, which may be unknown. -/
  padsKnown : Bool
  fact : Fact
  deriving DecidableEq, Inhabited

namespace ConvTraits

/-- The number of channels on one side of the filters, over all groups. -/
def channelsAt (t : ConvTraits) (filters : Shape) (second : Bool) : Checked Extent := do
  let perGroup ← filters.extentAt (t.grouped.toNat + second.toNat)
  if !t.grouped then return perGroup
  match ← filters.extentAt 0, perGroup with
  | .fixed groups, .fixed channels => return .fixed (groups * channels)
  | _, _ => return .dynamic

/-- The channels of the data that the filters read. Filters list outputs before inputs, and inputs
before outputs when the convolution is transposed. -/
def inputChannels (t : ConvTraits) (filters : Shape) : Checked Extent :=
  t.channelsAt filters (!t.transposed)

/-- The channels of the output that the filters produce. -/
def outputChannels (t : ConvTraits) (filters : Shape) : Checked Extent :=
  t.channelsAt filters t.transposed

end ConvTraits

namespace Conv

/-- The one element type of data and filters. -/
def elementType (data filters : Fact) : Checked ElementType :=
  Checked.ofOption (.elementTypesDiffer data.elementType filters.elementType)
    (data.elementType.merge filters.elementType)

/-- The number of spatial axes, from the first source that tells it. -/
def spatialRank? (t : ConvTraits) (w : Window) (data filters : Fact) : Option Nat :=
  (data.rank?.map (· - 2)).or <|
    (filters.rank?.map (· - t.leadingFilterAxes)).or w.spatialRank?

/-- Operands that fit together, and the window over their spatial axes with its defaults. -/
structure Operands where
  window : Window
  input : List Extent
  kernel : List Extent
  deriving DecidableEq, Inhabited

/-- Data and filters fit a number of spatial axes and each other. Forward and transposed
convolutions word two of the refusals differently. -/
def checkOperands (t : ConvTraits) (w : Window) (data filters : Fact) (spatialRank : Nat)
    (filterRankCause : Nat → Cause) (channelCause : Extent → Extent → Cause) :
    Checked Operands := do
  Checked.require (data.rank?.all (3 ≤ ·)) (.dataRank data)
  match filters.rank? with
  | some rank =>
    Checked.require (rank = spatialRank + t.leadingFilterAxes) (filterRankCause rank)
  | none => pure ()
  let window := w.withDefaults spatialRank
  window.checkRank spatialRank
  let channels ← data.shape.extentAt 1
  let expected ← t.inputChannels filters.shape
  Checked.require (channels.merge expected).isSome (channelCause channels expected)
  let input ← data.shape.tail 2 spatialRank
  let kernel ← filters.shape.tail t.leadingFilterAxes spatialRank
  return ⟨window, input, kernel⟩

/-- The fact of an output: the batch of the data, the channels of the filters, and spatial
extents. -/
def outputFact (t : ConvTraits) (type : ElementType) (data filters : Fact)
    (spatial : List Extent) : Checked Fact := do
  let batch ← data.shape.extentAt 0
  let channels ← t.outputChannels filters.shape
  return .typed type (.ranked (batch :: channels :: spatial))

end Conv

end EvenPad
