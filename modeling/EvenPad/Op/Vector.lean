import EvenPad.Tensor.Contents

/-!
Operands that hold one integer for each axis. They have to be known before the graph runs.
-/

namespace EvenPad

/-- The integers of a constant vector. -/
def Fact.vector (f : Fact) (operand : VectorOperand) : Checked (List Int) := do
  let t ← Checked.ofOption (.operandNotConstant operand) f.value?
  Checked.require (t.rank = 1) (.operandNotVector operand t)
  Checked.require (t.elementType = .i64) (.operandNotI64 operand t)
  t.integers

end EvenPad
