import EvenPad.Failure
import EvenPad.Text.Quoted

/-!
The configuration of an operator as a list of named texts, each name once, in a fixed order.
-/

namespace EvenPad

inductive Attribute where
  | naturals (values : List Nat)
  | integers (values : List Int)
  | integer (value : Int)
  | text (value : String)
  deriving DecidableEq, Inhabited

/-- Numbers are written in decimal, those of a list joined by commas. -/
def Attribute.render : Attribute → String
  | .naturals values => Text.commaJoined (values.map toString)
  | .integers values => Text.commaJoined (values.map toString)
  | .integer value => toString value
  | .text value => value

/-- The kind of an attribute with its value, a text quoted. -/
def Attribute.detail : Attribute → String
  | .naturals values => "Usizes(" ++ Text.nats values ++ ")"
  | .integers values => "Ints(" ++ Text.ints values ++ ")"
  | .integer value => "Int(" ++ toString value ++ ")"
  | .text value => "Str(" ++ Text.quoted value ++ ")"

/-- Named texts in the order in which they were added. -/
abbrev AttributeList := List (String × String)

/-- The list with one more attribute at its end, whose name has to be new. -/
def AttributeList.add (list : AttributeList) (name : String) (value : Attribute) :
    Checked AttributeList := do
  Checked.require (list.lookup name).isNone (.attributeTwice name)
  return list ++ [(name, value.render)]

/-- The attributes in order, each name once. -/
def AttributeList.of (attributes : List (String × Attribute)) : Checked AttributeList :=
  attributes.foldlM (fun list (name, value) => list.add name value) []

/-- The lists of a window. Only a transposed convolution has output padding. -/
def Window.attributes (w : Window) (withOutputPadding : Bool) : List (String × Attribute) :=
  [("strides", .naturals w.strides), ("dilations", .naturals w.dilations),
    ("pads_begin", .integers w.padsBegin), ("pads_end", .integers w.padsEnd),
    ("auto_pad", .text w.mode.text)] ++
  if withOutputPadding then [("output_padding", .integers w.outputPadding)] else []

def Op.attributes : Op → List (String × Attribute)
  | .conv _ w => w.attributes false
  | .deconv _ w _ => w.attributes true
  | .fusedDeconv w _ _ => w.attributes true
  | .stridedSlice beginMask endMask =>
    [("begin_mask", .integer beginMask.toInt), ("end_mask", .integer endMask.toInt)]
  | .pad | .const _ | .source _ => []

/-- The configuration of an operator in its fixed order. -/
def Op.attributeList (op : Op) : Checked AttributeList :=
  AttributeList.of op.attributes

end EvenPad
