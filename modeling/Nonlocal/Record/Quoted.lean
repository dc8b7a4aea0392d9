import Nonlocal.Record.Cursor
import Nonlocal.Text.Utf8

/-!
# Quoted strings

A string is written in quotes. Quotes, backslashes and control characters are
written as escapes; everything else stands for itself. A reader accepts more
escapes than are written: a slash may be escaped, and `\u` with four hexadecimal
digits stands for a unit of UTF-16, so characters beyond the first 65536 take
two of them.
-/

namespace Nonlocal.Record

/-- A digit below 16 in lower case. -/
def hexDigit (value : Nat) : Char := Nat.digitChar value

/-- A character of a string as it is written. -/
def writeChar (char : Char) : List Char :=
  if char = '"' then ['\\', '"']
  else if char = '\\' then ['\\', '\\']
  else if char = '\x08' then ['\\', 'b']
  else if char = '\x0c' then ['\\', 'f']
  else if char = '\n' then ['\\', 'n']
  else if char = '\r' then ['\\', 'r']
  else if char = '\t' then ['\\', 't']
  else if char.toNat < 0x20 then
    ['\\', 'u', '0', '0', hexDigit (char.toNat / 16), hexDigit (char.toNat % 16)]
  else [char]

/-- A string in quotes. -/
def writeString (text : List Char) : List Char :=
  '"' :: text.flatMap writeChar ++ ['"']

/-- The value of a hexadecimal digit. -/
def hexValue? (char : Char) : Option Nat :=
  if '0' ≤ char ∧ char ≤ '9' then some (char.toNat - '0'.toNat)
  else if 'a' ≤ char ∧ char ≤ 'f' then some (char.toNat - 'a'.toNat + 10)
  else if 'A' ≤ char ∧ char ≤ 'F' then some (char.toNat - 'A'.toNat + 10)
  else none

/-- The value of four hexadecimal digits. -/
def hexUnit? (a b c d : Char) : Option Nat := do
  let a ← hexValue? a
  let b ← hexValue? b
  let c ← hexValue? c
  let d ← hexValue? d
  pure (((a * 16 + b) * 16 + c) * 16 + d)

/-- A unit of UTF-16 in four hexadecimal digits. If fewer than four bytes are left
then the text ends inside the escape, whatever they are. -/
def readUnit : Reader Nat
  | a :: b :: c :: d :: rest =>
    match hexUnit? a b c d with
    | some unit => .ok (unit, ⟨rest, by simp; omega⟩)
    | none => .error .malformed
  | text => .error (if Text.utf8Length text < 4 then .truncated else .malformed)

/-- Whether a unit is the first of a pair. -/
def isLeading (unit : Nat) : Bool := 0xD800 ≤ unit && unit ≤ 0xDBFF

/-- Whether a unit is the second of a pair. -/
def isTrailing (unit : Nat) : Bool := 0xDC00 ≤ unit && unit ≤ 0xDFFF

/-- The character of a pair of units. -/
def pairChar (leading trailing : Nat) : Char :=
  Char.ofNat (0x10000 + (leading - 0xD800) * 0x400 + (trailing - 0xDC00))

/-- The character after `\u`. The first unit of a pair needs the second one. -/
def readUnicode : Reader Char := fun text =>
  match readUnit text with
  | .error failure => .error failure
  | .ok (unit, rest) =>
    if isTrailing unit then .error .malformed
    else if !isLeading unit then .ok (Char.ofNat unit, rest)
    else
      match following : rest.1 with
      | [] | ['\\'] => .error .truncated
      | '\\' :: 'u' :: second =>
        match readUnit second with
        | .error failure => .error failure
        | .ok (trailing, later) =>
          if isTrailing trailing then
            .ok (pairChar unit trailing, ⟨later.1, by
              have shorter := rest.2
              have evenShorter := later.2
              rw [following] at shorter
              simp at shorter
              omega⟩)
          else .error .malformed
      | _ => .error .malformed

/-- The character that an escape letter stands for, if it needs no digits. -/
def simpleEscape? : Char → Option Char
  | '"' => some '"'
  | '\\' => some '\\'
  | '/' => some '/'
  | 'b' => some '\x08'
  | 'f' => some '\x0c'
  | 'n' => some '\n'
  | 'r' => some '\r'
  | 't' => some '\t'
  | _ => none

/-- The character after a backslash. -/
def readEscape : Reader Char
  | [] => .error .truncated
  | 'u' :: rest =>
    match readUnicode rest with
    | .ok (char, later) => .ok (char, later.after 'u')
    | .error failure => .error failure
  | letter :: rest =>
    match simpleEscape? letter with
    | some char => .ok (char, (Tail.whole rest).after letter)
    | none => .error .malformed

/-- The characters of a string up to its closing quote, in reverse, put before
those in `read`. The text is a part of `whole` that starts after its opening
quote. -/
def readChars (whole read text : List Char) (isPart : text.length ≤ whole.length) :
    Reading (List Char) whole :=
  match text with
  | [] => .error .truncated
  | '"' :: rest => .ok (read, ⟨rest, isPart⟩)
  | '\\' :: rest =>
    match readEscape rest with
    | .error failure => .error failure
    | .ok (char, later) =>
      readChars whole (char :: read) later.1
        (Nat.le_trans (Nat.le_of_lt (Nat.lt_succ_of_lt later.2)) isPart)
  | char :: rest =>
    if char.toNat < 0x20 then .error .malformed
    else readChars whole (char :: read) rest (Nat.le_of_lt isPart)
termination_by text.length
decreasing_by
  · exact Nat.lt_succ_of_lt later.2
  · exact Nat.lt_succ_self _

/-- A string after its opening quote. -/
def readString : Reader (List Char) := fun text =>
  match readChars text [] text (length_le_self text) with
  | .ok (chars, rest) => .ok (chars.reverse, rest)
  | .error failure => .error failure

/-- Skips an escape after its backslash. A unit of UTF-16 need not make sense. -/
def skipEscape (text : List Char) : Except Failure (Rest text) :=
  match text with
  | [] => .error .truncated
  | 'u' :: rest =>
    match readUnit rest with
    | .ok (_, later) => .ok (later.after 'u')
    | .error failure => .error failure
  | letter :: rest =>
    match simpleEscape? letter with
    | some _ => .ok ((Tail.whole rest).after letter)
    | none => .error .malformed

/-- Skips a string up to its closing quote; the text is a part of `whole`. -/
def skipChars (whole text : List Char) (isPart : text.length ≤ whole.length) :
    Except Failure (Rest whole) :=
  match text with
  | [] => .error .truncated
  | '"' :: rest => .ok ⟨rest, isPart⟩
  | '\\' :: rest =>
    match skipEscape rest with
    | .error failure => .error failure
    | .ok later =>
      skipChars whole later.1
        (Nat.le_trans (Nat.le_of_lt (Nat.lt_succ_of_lt later.2)) isPart)
  | char :: rest =>
    if char.toNat < 0x20 then .error .malformed
    else skipChars whole rest (Nat.le_of_lt isPart)
termination_by text.length
decreasing_by
  · exact Nat.lt_succ_of_lt later.2
  · exact Nat.lt_succ_self _

/-- Skips a string after its opening quote. -/
def skipString (text : List Char) : Except Failure (Rest text) :=
  skipChars text text (length_le_self text)

end Nonlocal.Record
