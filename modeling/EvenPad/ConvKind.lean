import EvenPad.Text

/-!
The members of the convolution family and what sets them apart: the layout of their filters, their
direction, and their inputs beside data and filters.
-/

namespace EvenPad

inductive ConvKind where
  | convolution
  | groupConvolution
  | convolutionBackpropData
  | groupConvolutionBackpropData
  | fusedConvBackpropData
  deriving DecidableEq, Inhabited

/-- What a node of the family is made of. -/
structure ConvTraits where
  /-- The filters have a leading axis for groups. -/
  grouped : Bool
  /-- The convolution is transposed. -/
  transposed : Bool
  /-- An input gives the wanted spatial shape of the output. -/
  takesOutputShape : Bool
  /-- An input is added to the result. -/
  takesAddend : Bool
  deriving DecidableEq, Inhabited

namespace ConvKind

def text : ConvKind → String
  | .convolution => "Convolution"
  | .groupConvolution => "GroupConvolution"
  | .convolutionBackpropData => "ConvolutionBackpropData"
  | .groupConvolutionBackpropData => "GroupConvolutionBackpropData"
  | .fusedConvBackpropData => "FusedConvBackpropData"

def all : List ConvKind :=
  [.convolution, .groupConvolution, .convolutionBackpropData, .groupConvolutionBackpropData,
    .fusedConvBackpropData]

/-- The kind that a text names. -/
def ofText? (s : String) : Option ConvKind := all.find? (·.text = s)

/-- The traits of a kind. Whether a node takes an output shape is up to the node. -/
def traits (kind : ConvKind) : ConvTraits where
  grouped := kind = .groupConvolution || kind = .groupConvolutionBackpropData
  transposed := kind ≠ .convolution && kind ≠ .groupConvolution
  takesOutputShape := false
  takesAddend := kind = .fusedConvBackpropData

end ConvKind

namespace ConvTraits

/-- The number of filter axes that are not spatial. -/
def leadingFilterAxes (t : ConvTraits) : Nat := 2 + t.grouped.toNat

def inputCount (t : ConvTraits) : Nat := 2 + t.takesOutputShape.toNat + t.takesAddend.toNat

/-- The position of the output shape among the inputs. -/
def outputShapeIndex? (t : ConvTraits) : Option Nat := if t.takesOutputShape then some 2 else none

/-- The position of the addend among the inputs: it comes last. -/
def addendIndex? (t : ConvTraits) : Option Nat :=
  if t.takesAddend then some (2 + t.takesOutputShape.toNat) else none

def text (t : ConvTraits) : String :=
  Text.record "ConvCaps"
    [("grouped", Text.flag t.grouped), ("backprop", Text.flag t.transposed),
      ("output_shape_input", Text.flag t.takesOutputShape),
      ("add_input", Text.flag t.takesAddend)]

end ConvTraits

end EvenPad
