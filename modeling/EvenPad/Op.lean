import EvenPad.ConvKind
import EvenPad.Fact
import EvenPad.Window

/-!
The operators of a graph. Each is a value: its configuration without its inputs.
-/

namespace EvenPad

/-- The axes on which one bound of a slice is ignored, as the bits of a word. -/
abbrev AxisMask := BitVec 64

inductive Op where
  /-- A forward convolution of data and filters. -/
  | conv (kind : ConvKind) (window : Window)
  /-- A transposed convolution of data and filters, with or without a wanted output shape. -/
  | deconv (kind : ConvKind) (window : Window) (takesOutputShape : Bool)
  /-- A transposed convolution whose result is added to its last input, of which the node keeps
  the fact it was built for. -/
  | fusedDeconv (window : Window) (takesOutputShape : Bool) (addend : Fact)
  /-- Constant pads at both ends of each axis. -/
  | pad
  /-- A range with a stride on each leading axis. -/
  | stridedSlice (beginMask endMask : AxisMask)
  | const (value : Tensor)
  /-- An input of the graph. -/
  | source (fact : Fact)
  deriving DecidableEq, Inhabited

/-- The operators apart from their configuration. -/
inductive OpType where
  | conv | deconv | fusedDeconv | pad | stridedSlice | const | source
  deriving DecidableEq, Inhabited

namespace Op

def type : Op → OpType
  | .conv .. => .conv
  | .deconv .. => .deconv
  | .fusedDeconv .. => .fusedDeconv
  | .pad => .pad
  | .stridedSlice .. => .stridedSlice
  | .const _ => .const
  | .source _ => .source

def isSource : Op → Bool
  | .source _ => true
  | _ => false

/-- The name of the operator, the same whatever the configuration of its window. -/
def name : Op → String
  | .conv kind _ => kind.text
  | .deconv kind _ _ => kind.text
  | .fusedDeconv .. => "FusedConvBackpropData"
  | .pad => "Pad"
  | .stridedSlice .. => "StridedSlice"
  | .const _ => "Const"
  | .source _ => "Source"

/-- Two operators compute the same. The value that a fact carries does not count, and constants
are compared as numbers. -/
def sameAs : Op → Op → Bool
  | .fusedDeconv w₁ s₁ a₁, .fusedDeconv w₂ s₂ a₂ => w₁ == w₂ && s₁ == s₂ && a₁.sameType a₂
  | .const a, .const b => a.numericEq b
  | .source a, .source b => a.sameType b
  | a, b => a == b

/-- The whole configuration. -/
def text : Op → String
  | .conv kind w => Text.record "Conv" [("kind", kind.text), ("params", w.text)]
  | .deconv kind w takesOutputShape =>
    Text.record "Deconv"
      [("kind", kind.text), ("params", w.text),
        ("output_shape_input", Text.flag takesOutputShape)]
  | .fusedDeconv w takesOutputShape addend =>
    Text.record "FusedDeconv"
      [("params", w.text), ("output_shape_input", Text.flag takesOutputShape),
        ("add_fact", addend.text)]
  | .pad => "Pad"
  | .stridedSlice b e =>
    Text.record "StridedSlice"
      [("begin_mask", toString b.toInt), ("end_mask", toString e.toInt)]
  | .const t => "Const(" ++ t.text ++ ")"
  | .source f => Text.record "TypedSource" [("fact", f.text)]

/-- The operator with another window, if it has one. -/
def withWindow? (op : Op) (w : Window) : Option Op :=
  match op with
  | .conv kind _ => some (.conv kind w)
  | .deconv kind _ takesOutputShape => some (.deconv kind w takesOutputShape)
  | .fusedDeconv _ takesOutputShape addend => some (.fusedDeconv w takesOutputShape addend)
  | _ => none

/-- The traits of a node of the convolution family. -/
def traits? : Op → Option ConvTraits
  | .conv kind _ => some kind.traits
  | .deconv kind _ takesOutputShape =>
    some { kind.traits with takesOutputShape := takesOutputShape }
  | .fusedDeconv _ takesOutputShape _ =>
    some { ConvKind.fusedConvBackpropData.traits with takesOutputShape := takesOutputShape }
  | _ => none

end Op

end EvenPad
