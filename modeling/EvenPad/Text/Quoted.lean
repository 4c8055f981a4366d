import EvenPad.Text.Unprintable

/-!
Quoted text: double quotes around it, a backslash before a quote, a backslash and the letters of
common controls, and the number between braces of any other character that cannot be printed.
-/

namespace EvenPad.Text

/-- The number of a character in lower-case hexadecimal, between braces after `\u`. -/
def byNumber (c : Char) : List Char :=
  ['\\', 'u', '\x7b'] ++ Nat.toDigits 16 c.toNat ++ ['\x7d']

/-- A character inside quotes. -/
def quotedChar (c : Char) : List Char :=
  match c with
  | '"' => ['\\', '"']
  | '\\' => ['\\', '\\']
  | '\t' => ['\\', 't']
  | '\n' => ['\\', 'n']
  | '\r' => ['\\', 'r']
  | '\x00' => ['\\', '0']
  | c => if isUnprintable c then byNumber c else [c]

def quoted (s : String) : String :=
  String.ofList ('"' :: s.toList.flatMap quotedChar ++ ['"'])

end EvenPad.Text
