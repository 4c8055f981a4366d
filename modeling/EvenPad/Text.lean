/-!
How values are laid out in a line of text: comma-joined and bracketed lists, and records with
named fields.
-/

namespace EvenPad.Text

/-- Items joined by commas, without brackets or blanks. -/
def commaJoined (items : List String) : String := ",".intercalate items

/-- Items between brackets, as in `[1, 2]`. -/
def bracketed (items : List String) : String := "[" ++ ", ".intercalate items ++ "]"

/-- A name with named fields between braces, as in `Name { a: 1, b: 2 }`. -/
def record (name : String) (fields : List (String × String)) : String :=
  name ++ " \x7b " ++ ", ".intercalate (fields.map fun (field, value) => field ++ ": " ++ value)
    ++ " \x7d"

/-- Natural numbers between brackets. -/
def nats (values : List Nat) : String := bracketed (values.map toString)

/-- Integers between brackets. -/
def ints (values : List Int) : String := bracketed (values.map toString)

def flag (b : Bool) : String := if b then "true" else "false"

/-- A value that may be missing, as in `Some(2)` and `None`. -/
def optional (value : Option String) : String :=
  match value with
  | some v => "Some(" ++ v ++ ")"
  | none => "None"

/-- The binary digits of a number after the mark `0b`. -/
def binary (n : Nat) : String := "0b" ++ String.ofList (Nat.toDigits 2 n)

end EvenPad.Text
