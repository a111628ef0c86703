/-! Quoted strings inside code, character by character. A string runs from a single or a double
quote to the next quote of the same kind that no backslash precedes. -/

namespace AssemblyInfo.Text

/-- Whether a place in a text lies in a quoted string. -/
inductive Quoting where
  | outside
  | inside (quote : Char)
  /-- Right after a backslash in a string. -/
  | escaped (quote : Char)
  deriving DecidableEq, Repr

def isQuote (c : Char) : Bool := c == '"' || c == '\''

/-- The place after one more character. -/
def Quoting.next (c : Char) : Quoting → Quoting
  | .outside => if isQuote c then .inside c else .outside
  | .inside q => if c = '\\' then .escaped q else if c = q then .outside else .inside q
  | .escaped q => .inside q

end AssemblyInfo.Text
