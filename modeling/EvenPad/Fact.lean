import EvenPad.Shape
import EvenPad.Tensor

/-!
What is known of a tensor before a graph runs: its element type, its shape and, when it is a
constant, its value.
-/

namespace EvenPad

structure Fact where
  elementType : ElementType
  shape : Shape
  value? : Option Tensor
  deriving DecidableEq, Inhabited

namespace Fact

/-- A tensor of a type and a shape, of unknown value. -/
def typed (elementType : ElementType) (shape : Shape) : Fact := ⟨elementType, shape, none⟩

/-- The fact of a constant. -/
def constant (t : Tensor) : Fact := ⟨t.elementType, .ofLengths t.shape, some t⟩

def rank? (f : Fact) : Option Nat := f.shape.rank?

def withoutValue (f : Fact) : Fact := .typed f.elementType f.shape

/-- Equal types and shapes, whatever is known of the values. -/
def sameType (a b : Fact) : Bool := a.elementType == b.elementType && a.shape == b.shape

/-- Equal types and shapes, and equal values as numbers. -/
def numericEq (a b : Fact) : Bool :=
  a.sameType b &&
    match a.value?, b.value? with
    | none, none => true
    | some x, some y => x.numericEq y
    | _, _ => false

/-- The value of a constant; else the element type alone for a scalar, after the shape
otherwise. -/
def text (f : Fact) : String :=
  match f.value? with
  | some t => t.text
  | none =>
    if f.rank? = some 0 then f.elementType.text else f.shape.text ++ "," ++ f.elementType.text

end Fact

end EvenPad
