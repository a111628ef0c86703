import AssemblyInfo.Json.Number
import AssemblyInfo.Json.Quoted

/-! The grammar of JSON texts. A shape is a JSON text taken apart by the grammar alone: numbers are
still digits and strings still pieces, so their range and their surrogates are not yet judged, and
nesting has no limit. -/

namespace AssemblyInfo.Json

/-- A JSON text by its grammar. -/
inductive Shape where
  | null
  | bool (b : Bool)
  | number (n : Numeral)
  | string (pieces : List Piece)
  | array (items : List Shape)
  | object (members : List (List Piece × Shape))

namespace Shape

/-- Blanks of JSON texts: space, tab, line feed and carriage return. -/
def isBlank (c : Char) : Bool := c == ' ' || c == '\t' || c == '\n' || c == '\r'

def skipBlanks (t : Text) : Text := t.dropWhile isBlank

/-- Reads items with commas between them up to the closing bracket; at least one, at most
`bound`. -/
def readItems? {α : Type} (item? : Text → Option (α × Text)) (close : Char) :
    (bound : Nat) → Text → Option (List α × Text)
  | 0, _ => none
  | bound + 1, t =>
    match item? t with
    | none => none
    | some (a, t) =>
      match skipBlanks t with
      | [] => none
      | c :: t =>
        if c = ',' then (readItems? item? close bound t).map fun (as, t) => (a :: as, t)
        else if c = close then some ([a], t)
        else none

/-- Reads the inside of brackets: nothing, or items with commas between them. -/
def readList? {α : Type} (item? : Text → Option (α × Text)) (close : Char) (t : Text) :
    Option (List α × Text) :=
  match [close].isPrefixOf? (skipBlanks t) with
  | some t => some ([], t)
  | none => readItems? item? close t.length t

/-- Reads a name in quotes, a colon and a value. -/
def readMember? {α : Type} (item? : Text → Option (α × Text)) (t : Text) :
    Option ((List Piece × α) × Text) := do
  let t ← ['"'].isPrefixOf? (skipBlanks t)
  let (name, t) ← readPieces? t
  let t ← [':'].isPrefixOf? (skipBlanks t)
  let (a, t) ← item? t
  some ((name, a), t)

/-- Reads a value, with blanks before it or not, nested less than `bound` deep. -/
def read? : (bound : Nat) → Text → Option (Shape × Text)
  | 0, _ => none
  | bound + 1, t =>
    match skipBlanks t with
    | 'n' :: t => (['u', 'l', 'l'].isPrefixOf? t).map fun t => (.null, t)
    | 't' :: t => (['r', 'u', 'e'].isPrefixOf? t).map fun t => (.bool true, t)
    | 'f' :: t => (['a', 'l', 's', 'e'].isPrefixOf? t).map fun t => (.bool false, t)
    | '"' :: t => (readPieces? t).map fun (pieces, t) => (.string pieces, t)
    | '[' :: t => (readList? (read? bound) ']' t).map fun (items, t) => (.array items, t)
    | '\x7b' :: t =>
      (readList? (readMember? (read? bound)) '\x7d' t).map fun (members, t) => (.object members, t)
    | t => (Numeral.read? t).map fun (n, t) => (.number n, t)

/-- The shape of a whole text, with blanks around it or not. -/
def parse? (t : Text) : Option Shape :=
  match read? (t.length + 1) t with
  | some (s, rest) => if skipBlanks rest = [] then some s else none
  | none => none

end Shape

end AssemblyInfo.Json
