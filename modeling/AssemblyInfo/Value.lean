import AssemblyInfo.Error
import AssemblyInfo.Text.Blank

/-! Attribute values and their literals. A value is written as the JSON text of a boolean, a number
or a string; an attribute without argument has the value null, which has no literal. Reading also
takes strings in single quotes. -/

namespace AssemblyInfo

/-- The value of an attribute; null for one without argument. -/
inductive Value where
  | null
  | bool (b : Bool)
  | number (n : Json.Number)
  | string (t : Text)
  deriving DecidableEq, Repr

namespace Value

/-- A JSON value as an attribute value. Arrays and objects have no literal. -/
def ofJson : Json.Value → Except Error Value
  | .null => .ok .null
  | .bool b => .ok (.bool b)
  | .number n => .ok (.number n)
  | .string t => .ok (.string t)
  | .array _ => .error (.unsupported .array)
  | .object _ => .error (.unsupported .object)

/-- A float, given by its bit pattern, as an attribute value. -/
def ofBits (bits : UInt64) : Except Error Value :=
  match Json.Number.ofBits? bits with
  | some n => .ok (.number n)
  | none => .error .notFinite

/-- The value of a JSON text. -/
def ofJsonText (t : Text) : Except Error Value :=
  match Json.Value.parse? t with
  | some v => ofJson v
  | none => .error .notJson

/-- The literal of a value. -/
def encode : Value → Except Error Text
  | .null => .error (.unsupported .null)
  | .bool true => .ok "true".toList
  | .bool false => .ok "false".toList
  | .number n => .ok n.write
  | .string t => .ok (Json.quote t)

/-- The value as JSON text: its literal, or `null`. -/
def display (v : Value) : Text :=
  match v.encode with
  | .ok literal => literal
  | .error _ => "null".toList

/-- The inside of single quotes as the inside of double quotes: each double quote gets a backslash,
then each single quote loses the backslash before it. -/
def requote (t : Text) : Text :=
  dropEscapes (t.flatMap fun c => if c = '"' then ['\\', '"'] else [c])
where
  dropEscapes : Text → Text
    | '\\' :: '\'' :: t => '\'' :: dropEscapes t
    | c :: t => c :: dropEscapes t
    | [] => []

/-- The JSON text that a literal stands for: itself, or for a literal in single quotes the same
string in double quotes. None if the single quote is not closed. -/
def jsonText? : Text → Option Text
  | '\'' :: t => (['\''].isSuffixOf? t).map fun raw => '"' :: requote raw ++ ['"']
  | t => some t

/-- The value of a literal, with blanks around it or not. -/
def decode (t : Text) : Except Error Value :=
  match jsonText? t.trim with
  | none => .error (.notLiteral t.trim)
  | some json =>
    match Json.Value.parse? json with
    | none => .error (.notLiteral json)
    | some v =>
      match ofJson v with
      | .ok v => .ok v
      | .error _ => .error (.notLiteral json)

end Value

end AssemblyInfo
