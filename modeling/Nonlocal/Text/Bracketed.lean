/-!
# Lists of counts in messages
-/

namespace Nonlocal.Text

/-- Counts in brackets, separated by commas. -/
def bracketed (counts : List Nat) : String :=
  "[" ++ ", ".intercalate (counts.map toString) ++ "]"

end Nonlocal.Text
