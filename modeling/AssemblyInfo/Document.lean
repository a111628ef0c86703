import AssemblyInfo.Fragment
import AssemblyInfo.Name
import AssemblyInfo.Registry
import AssemblyInfo.Segment
import AssemblyInfo.Source

/-! Documents: sources whose attributes can be looked up and set. A document is written as the
sequence of its fragments, so that what is not set stays as it was. Of several declarations of an
attribute the last one counts; the earlier ones stay as plain text.

Names are written with the suffix once the document is in suffix mode. A C# document enters it with
the first suffixed name that is registered, a JScript document is always in it. The name that an
attribute is written with is settled when it is registered. -/

namespace AssemblyInfo

structure Document where
  dialect : Dialect
  fragments : List Fragment
  registry : Registry
  suffixMode : Bool
  deriving DecidableEq, Repr

namespace Document

def empty (dialect : Dialect) : Document :=
  { dialect, fragments := [], registry := [], suffixMode := dialect.alwaysSuffixed }

/-- Adds a fragment at the end. -/
def push (doc : Document) (f : Fragment) : Document :=
  { doc with fragments := doc.fragments ++ [f] }

/-- Registers an attribute that is declared by a fragment, in place of an earlier declaration of
the same key. -/
def register (doc : Document) (name : Name) (value : Value) (fragment : Nat) : Document :=
  let suffixMode := doc.suffixMode || name.suffixed
  let writtenName := Name.written name.key suffixMode
  { doc with
    suffixMode
    registry := doc.registry.insert name.key { writtenName, value, fragment }
    fragments :=
      match doc.registry.find? name.key with
      | none => doc.fragments
      | some previous => doc.fragments.modify previous.fragment Fragment.demote }

/-! ### Loading -/

/-- Adds a segment of the source. -/
def add (doc : Document) : Segment → Except Error Document
  | .gap s => .ok (doc.push (.literal s))
  | .declaration start d =>
    d.declared.map fun (name, value) =>
      (doc.push (.declared ⟨start, d.text⟩)).register (Name.canonical doc.dialect name) value
        doc.fragments.length

/-- The document of a text. Fails with the first declaration that has no value. -/
def ofText (dialect : Dialect) (t : Text) : Except Error Document :=
  (Segment.ofSource dialect t).foldlM add (empty dialect)

/-- The document of a source. -/
def ofSource (dialect : Dialect) (source : Source) : Except Error Document :=
  source.toText >>= ofText dialect

/-! ### Values -/

/-- The value of an attribute, if it is registered. -/
def get? (doc : Document) (key : Text) : Option Value :=
  (doc.registry.find? (Name.canonical doc.dialect key).key).map Entry.value

/-- All attributes with their values, in the order of their registration. -/
def attributes (doc : Document) : List (Text × Value) := doc.registry.values

/-- Whether an appended declaration needs a line feed before it. -/
def needsNewline (doc : Document) : Bool :=
  match doc.fragments.getLast? with
  | none => false
  | some f => !f.endsLine

/-- Ends the last line, so that a declaration can be appended. -/
def endLine (doc : Document) : Document :=
  if doc.needsNewline then doc.push .newline else doc

/-- Writes the declaration of a registered attribute anew. -/
def replace (doc : Document) (key : Text) (entry : Entry) (value : Value) (literal : Text) :
    Document :=
  { doc with
    fragments :=
      doc.fragments.set entry.fragment (Fragment.ofAttribute entry.writtenName literal)
    registry := doc.registry.insert key { entry with value } }

/-- Appends the declaration of an attribute that is not registered. -/
def append (doc : Document) (name : Name) (value : Value) (literal : Text) : Document :=
  let doc := doc.endLine
  let doc := doc.register name value doc.fragments.length
  doc.push (Fragment.ofAttribute (Name.written name.key doc.suffixMode) literal)

/-- Sets an attribute. Fails if the value has no literal. -/
def set (doc : Document) (key : Text) (value : Value) : Except Error Document :=
  value.encode.map fun literal =>
    let name := Name.canonical doc.dialect key
    match doc.registry.find? name.key with
    | some entry => doc.replace name.key entry value literal
    | none => doc.append name value literal

/-! ### Writing -/

/-- The text of the document as it is. -/
def text (doc : Document) : Text := doc.fragments.flatMap Fragment.text

/-- The text of the document, with the header of the dialect in front if it is asked for and the
text is not empty and lacks it. -/
def render (doc : Document) (header : Bool) : Text :=
  match doc.dialect.header? with
  | none => doc.text
  | some line =>
    if header ∧ doc.text ≠ [] ∧ ¬doc.dialect.hasHeader doc.text then line ++ '\n' :: doc.text
    else doc.text

/-- The attributes as a JSON object on one line. -/
def json (doc : Document) : Text :=
  Json.writeObject (doc.attributes.map fun (key, value) => (key, value.display))

end Document

end AssemblyInfo
