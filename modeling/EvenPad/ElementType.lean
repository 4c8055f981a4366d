/-!
The types of tensor elements. Convolution never converts between them: two operands agree on an
element type or there is none.
-/

namespace EvenPad

inductive ElementType where
  | bool | u8 | i8 | i32 | i64 | f16 | f32 | f64
  deriving DecidableEq, Ord, Inhabited

namespace ElementType

def isFloat : ElementType → Bool
  | .f16 | .f32 | .f64 => true
  | _ => false

def isInteger : ElementType → Bool
  | .u8 | .i8 | .i32 | .i64 => true
  | _ => false

def isSigned : ElementType → Bool
  | .bool | .u8 => false
  | _ => true

/-- The number of bytes of one element. -/
def byteSize : ElementType → Nat
  | .bool | .u8 | .i8 => 1
  | .f16 => 2
  | .i32 | .f32 => 4
  | .i64 | .f64 => 8

/-- The common element type of two operands: they have to be equal. -/
def merge (a b : ElementType) : Option ElementType := if a = b then some a else none

def text : ElementType → String
  | .bool => "bool"
  | .u8 => "u8"
  | .i8 => "i8"
  | .i32 => "i32"
  | .i64 => "i64"
  | .f16 => "f16"
  | .f32 => "f32"
  | .f64 => "f64"

/-- The name with capitals that a mismatch is reported with. -/
def detail : ElementType → String
  | .bool => "Bool"
  | .u8 => "U8"
  | .i8 => "I8"
  | .i32 => "I32"
  | .i64 => "I64"
  | .f16 => "F16"
  | .f32 => "F32"
  | .f64 => "F64"

def all : List ElementType := [.bool, .u8, .i8, .i32, .i64, .f16, .f32, .f64]

/-- The element type that a text names. -/
def ofText? (s : String) : Option ElementType := all.find? (·.text = s)

end ElementType

end EvenPad
