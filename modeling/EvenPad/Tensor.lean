import EvenPad.Binary64.Decimal
import EvenPad.ElementType
import EvenPad.Text

/-!
Small constant tensors: shapes, pads, slice bounds and fill values. Elements are kept in three
families, whatever the element type: truth values, integers and double-precision numbers.
-/

namespace EvenPad

/-- The elements of a tensor in row-major order. -/
inductive Tensor.Elements where
  | bools (values : List Bool)
  | integers (values : List Int)
  | floats (values : List Binary64)
  deriving DecidableEq, Inhabited

structure Tensor where
  elementType : ElementType
  shape : List Nat
  elements : Tensor.Elements
  deriving DecidableEq, Inhabited

namespace Tensor

def Elements.length : Elements → Nat
  | .bools values => values.length
  | .integers values => values.length
  | .floats values => values.length

/-- The texts of the first elements. -/
def Elements.texts (count : Nat) : Elements → List String
  | .bools values => (values.take count).map Text.flag
  | .integers values => (values.take count).map toString
  | .floats values => (values.take count).map Binary64.text

/-- Equality of the elements as numbers: a NaN differs from itself and the two zeros are equal. -/
def Elements.numericEq : Elements → Elements → Bool
  | .bools a, .bools b => a == b
  | .integers a, .integers b => a == b
  | .floats a, .floats b => a.length == b.length && (a.zip b).all fun (x, y) => x.numericEq y
  | _, _ => false

def rank (t : Tensor) : Nat := t.shape.length

/-- The number of elements that the shape asks for. -/
def size (t : Tensor) : Nat := t.shape.foldr (· * ·) 1

/-- `n` zeros of an element type. -/
def Elements.zeros (type : ElementType) (n : Nat) : Elements :=
  if type = .bool then .bools (List.replicate n false)
  else if type.isFloat then .floats (List.replicate n .zero)
  else .integers (List.replicate n 0)

/-- The scalar zero of an element type. -/
def zeroScalar (type : ElementType) : Tensor := ⟨type, [], .zeros type 1⟩

/-- The vector of some integers. -/
def vector (values : List Int) : Tensor := ⟨.i64, [values.length], .integers values⟩

/-- Equality of element type, shape and elements as numbers. -/
def numericEq (a b : Tensor) : Bool :=
  a.elementType == b.elementType && a.shape == b.shape && a.elements.numericEq b.elements

/-- The shape, the element type and at most eight elements. -/
def text (t : Tensor) : String :=
  let shown := ", ".intercalate (t.elements.texts 8)
  let more := if 8 < t.size then ", ..." else ""
  Text.commaJoined (t.shape.map toString) ++ "," ++ t.elementType.text ++ " [" ++ shown ++ more
    ++ "]"

end Tensor

end EvenPad
