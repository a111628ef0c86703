import AssemblyInfo.Text.Blank

/-! Fragments: the pieces that a document is written from. -/

namespace AssemblyInfo

inductive Fragment where
  /-- A piece of the source that passes as it is. -/
  | literal (slice : Slice)
  /-- The line feed before an appended declaration. -/
  | newline
  /-- The declaration of an attribute, as it stands in the source. -/
  | declared (slice : Slice)
  /-- The declaration of an attribute, as written for its new value. -/
  | written (t : Text)
  deriving DecidableEq, Repr

namespace Fragment

def text : Fragment → Text
  | .literal s => s.text
  | .newline => ['\n']
  | .declared s => s.text
  | .written t => t

/-- A declaration that a later one of the same attribute replaces is a plain piece of source. -/
def demote : Fragment → Fragment
  | .declared s => .literal s
  | f => f

@[simp] theorem text_demote (f : Fragment) : f.demote.text = f.text := by
  cases f <;> rfl

/-- The declaration to write for a name and a literal. -/
def ofAttribute (name literal : Text) : Fragment :=
  .written ("[assembly: ".toList ++ name ++ '(' :: literal ++ [')', ']'])

/-- Whether the blanks that the fragment ends with hold a line feed. -/
def endsLine (f : Fragment) : Bool := f.text.trailingBlanks.contains '\n'

end Fragment

end AssemblyInfo
