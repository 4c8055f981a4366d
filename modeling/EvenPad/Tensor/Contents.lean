import EvenPad.Failure

/-!
Reading and making tensors: the elements as numbers of one kind, and tensors of zeros.
-/

namespace EvenPad.Tensor

/-- The elements of a tensor of integers, in row-major order. -/
def integers (t : Tensor) : Checked (List Int) :=
  match t.elements with
  | .integers values => .ok values
  | _ => Checked.refuse (.notIntegers t)

/-- The elements of a tensor of integers none of which is negative. -/
def naturals (t : Tensor) : Checked (List Nat) := do
  let values ← t.integers
  values.mapM fun v => do
    Checked.require (0 ≤ v) (.negativeElement v t)
    return v.toNat

/-- The number in a tensor of one element. -/
def scalar (t : Tensor) : Checked Binary64 := do
  Checked.require (t.size = 1) (.notSingleElement t)
  return match t.elements with
    | .bools values => .ofInt (if values.headD false then 1 else 0)
    | .integers values => .ofInt (values.headD 0)
    | .floats values => values.headD .zero

/-- The greatest number of bytes that one tensor takes. -/
def byteLimit : Nat := 9223372036854775807

/-- A tensor of a shape can be laid out: neither its bytes nor the positions on its axes that are
not empty run out of numbers. Truth values take one byte and all numbers eight. -/
def canHold (type : ElementType) (shape : List Nat) : Bool :=
  (shape.filter (0 < ·)).foldr (· * ·) 1 ≤ byteLimit &&
    shape.foldr (· * ·) 1 * (if type = .bool then 1 else 8) ≤ byteLimit

/-- A tensor of a shape, filled with zeros. -/
def zeros (type : ElementType) (shape : List Nat) : Checked Tensor :=
  if canHold type shape then
    .ok ⟨type, shape, .zeros type (shape.foldr (· * ·) 1)⟩
  else Checked.fault (.tensorTooLarge shape)

/-- A tensor of a shape from its elements in row-major order, of which there have to be as many as
the shape asks for. -/
def ofElements (type : ElementType) (shape : List Nat) (elements : Elements) : Checked Tensor :=
  let t : Tensor := ⟨type, shape, elements⟩
  if canHold type shape && elements.length = t.size then .ok t
  else Checked.fault (.tensorTooLarge shape)

end EvenPad.Tensor
