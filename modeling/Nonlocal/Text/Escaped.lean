import Nonlocal.Text.Visibility

/-!
# Quoted texts in messages

A text is quoted with its control characters, its quotes and everything that
does not show on its own written as escapes.
-/

namespace Nonlocal.Text

/-- The number of a character in hexadecimal digits. -/
def hexNumber (char : Char) : List Char := Nat.toDigits 16 char.toNat

/-- A character inside quotes. -/
def quotedChar (char : Char) : List Char :=
  if char = '\x00' then ['\\', '0']
  else if char = '\t' then ['\\', 't']
  else if char = '\r' then ['\\', 'r']
  else if char = '\n' then ['\\', 'n']
  else if char = '"' || char = '\\' then ['\\', char]
  else if isVisible char then [char]
  else ['\\', 'u', '\x7b'] ++ hexNumber char ++ ['\x7d']

/-- A text in quotes. -/
def quoted (text : List Char) : String :=
  String.ofList ('"' :: text.flatMap quotedChar ++ ['"'])

end Nonlocal.Text
