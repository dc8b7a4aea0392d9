/-!
# Diagnostics

What a reader is told about a failure: a message, the code under which the
failure is documented, advice, and places in the source text. A place is a span
of bytes.
-/

namespace Nonlocal

/-- A range of bytes in a source text. -/
structure Span where
  start : Nat
  stop : Nat
  deriving DecidableEq, Repr

/-- Number of bytes of a span. -/
def Span.length (span : Span) : Nat := span.stop - span.start

/-- Whether a span holds no byte. -/
def Span.isEmpty (span : Span) : Bool := span.length == 0

/-- A remark on a place in the source text. -/
structure Label where
  span : Span
  remark : String
  deriving DecidableEq, Repr

/-- A failure as it is reported. -/
structure Diagnostic where
  message : String
  code : Option String
  help : Option String
  labels : List Label
  deriving DecidableEq, Repr

end Nonlocal
