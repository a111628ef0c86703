import AssemblyInfo.Error
import AssemblyInfo.Text.Alphanumeric
import AssemblyInfo.Text.Blank
import AssemblyInfo.Text.Quoting

/-! Calls: an identifier, alone or with at most one argument in parentheses. Only the form is read
here; the argument stays text. Brackets of every kind nest alike, and quotes hide what is between
them. -/

namespace AssemblyInfo

/-- A name with its argument, none when it stands alone or before empty parentheses. -/
structure Call where
  callee : Text
  argument : Option Text
  deriving DecidableEq, Repr

namespace Call

open Text (Quoting)

def isOpening (c : Char) : Bool := c == '(' || c == '[' || c == '\x7b'

def isClosing (c : Char) : Bool := c == ')' || c == ']' || c == '\x7d'

/-- Puts a character in front of the first argument. -/
def addChar (c : Char) : List Text × Text → List Text × Text
  | (a :: as, rest) => ((c :: a) :: as, rest)
  | ([], rest) => ([[c]], rest)

/-- Splits what follows an opening parenthesis at the commas that stand outside of quotes and
brackets, up to the parenthesis that closes it. Gives the pieces, at least one, and the rest. -/
def splitArguments? (depth : Nat) (quoting : Quoting) : Text → Option (List Text × Text)
  | [] => none
  | c :: t =>
    if quoting ≠ .outside then (splitArguments? depth (quoting.next c) t).map (addChar c)
    else if isOpening c then (splitArguments? (depth + 1) .outside t).map (addChar c)
    else if c = ')' ∧ depth = 0 then some ([[]], t)
    else if isClosing c then
      if depth = 0 then none else (splitArguments? (depth - 1) .outside t).map (addChar c)
    else if c = ',' ∧ depth = 0 then
      (splitArguments? 0 .outside t).map fun (as, rest) => ([] :: as, rest)
    else (splitArguments? depth (quoting.next c) t).map (addChar c)

/-- The arguments in pieces of an argument list. A single blank piece is no argument. -/
def arguments (pieces : List Text) : List Text :=
  let trimmed := pieces.map Text.trim
  if trimmed = [[]] then [] else trimmed

/-- Reads what follows the callee. -/
def readArgument (t : Text) : Except CallFault (Option Text) :=
  match t.trimStart with
  | [] => .ok none
  | c :: t =>
    if c = '(' then
      match splitArguments? 0 .outside t with
      | none => .error .unbalanced
      | some (pieces, rest) =>
        if rest.trim ≠ [] then .error .trailing
        else
          match arguments pieces with
          | [] => .ok none
          | [a] => .ok (some a)
          | as => .error (.tooMany as.length)
    else if c = '.' ∨ c = '[' then .error .notPlain
    else .error (.unexpected c)

/-- Reads a call that takes up the whole text, which has no blanks around it. -/
def read (t : Text) : Except CallFault Call :=
  let callee := t.takeWhile Text.isIdentifierChar
  match callee with
  | [] => .error .noIdentifier
  | c :: _ =>
    if c.isDigit then .error .leadingDigit
    else (readArgument (t.dropWhile Text.isIdentifierChar)).map fun argument => { callee, argument }

/-- Reads a call, with blanks around it or not. -/
def parse (body : Text) : Except Error Call :=
  (read body.trim).mapError (.malformed body.trim)

end Call

end AssemblyInfo
