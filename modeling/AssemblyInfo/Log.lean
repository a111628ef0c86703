import AssemblyInfo.Document

/-! The log: what happens while a document is loaded and changed, as events in order. The events of
a step that fails are those up to the failure. -/

namespace AssemblyInfo

namespace Log

/-- How much an event matters; the first matters most. -/
inductive Level where
  | error
  | warn
  | info
  | debug
  | trace
  deriving DecidableEq, Repr

/-- The place of a level, from the one that matters most. -/
def Level.rank : Level → Nat
  | .error => 1
  | .warn => 2
  | .info => 3
  | .debug => 4
  | .trace => 5

/-- The events to show: none, or all that matter at least as much as a level. -/
inductive Filter where
  | off
  | upTo (level : Level)
  deriving DecidableEq, Repr

/-- The filter with a name. -/
def Filter.ofName? (name : Text) : Option Filter :=
  [("off".toList, .off), ("error".toList, .upTo .error), ("warn".toList, .upTo .warn),
    ("info".toList, .upTo .info), ("debug".toList, .upTo .debug),
    ("trace".toList, .upTo .trace)].lookup name

def Filter.shows : Filter → Level → Bool
  | .off, _ => false
  | .upTo level, l => l.rank ≤ level.rank

inductive Event where
  | loading (file : Text) (dialect : Dialect)
  | generating (file : Text)
  | found (start stop : Nat)
  | suffixMode (key : Text)
  | registered (key : Text) (fragment : Nat)
  | scanned (dialect : Dialect) (fragments attributes : Nat)
  | replacing (key : Text) (fragment : Nat)
  | appending (name : Text) (fragment : Nat)
  deriving DecidableEq, Repr

namespace Event

def level : Event → Level
  | .generating _ => .info
  | .found _ _ => .trace
  | _ => .debug

/-- The part of the program that an event belongs to. -/
def target : Event → Text
  | .loading _ _ => "assembly_source::cli".toList
  | .generating _ => "assembly_source::cli".toList
  | .found _ _ => "assembly_source::scanner".toList
  | _ => "assembly_source::document".toList

/-- A field of a message. -/
def field (name : String) (value : Text) : Text := ' ' :: name.toList ++ '=' :: value

def message : Event → Text
  | .loading file dialect =>
    "loading document".toList ++ field "file" file ++ field "language" dialect.name
  | .generating file =>
    "file not found, generating a new document".toList ++ field "file" file
  | .found start stop =>
    "found declaration".toList ++ field "start" (Text.decimal start) ++
      field "end" (Text.decimal stop)
  | .suffixMode key => "suffixed name seen, enabling suffix mode".toList ++ field "key" key
  | .registered key fragment =>
    "registered attribute".toList ++ field "key" key ++ field "fragment" (Text.decimal fragment)
  | .scanned dialect fragments attributes =>
    "scanned document".toList ++ field "language" dialect.name ++
      field "fragments" (Text.decimal fragments) ++ field "attributes" (Text.decimal attributes)
  | .replacing key fragment =>
    "rewriting attribute".toList ++ field "key" key ++ field "fragment" (Text.decimal fragment)
  | .appending name fragment =>
    "appending attribute".toList ++ field "name" name ++ field "fragment" (Text.decimal fragment)

end Event

/-- A level in five columns. -/
def Level.column : Level → Text
  | .error => "ERROR".toList
  | .warn => " WARN".toList
  | .info => " INFO".toList
  | .debug => "DEBUG".toList
  | .trace => "TRACE".toList

def Event.line (e : Event) : Text :=
  e.level.column ++ ' ' :: e.target ++ ": ".toList ++ e.message ++ ['\n']

/-- The events that a filter shows, a line each. -/
def write (filter : Filter) (events : List Event) : Text :=
  (events.filter fun e => filter.shows e.level).flatMap Event.line

/-! ### Events of documents -/

/-- Events of the registration of a name for a fragment. -/
def ofRegister (doc : Document) (name : Name) (fragment : Nat) : List Event :=
  (if name.suffixed && !doc.suffixMode then [.suffixMode name.key] else []) ++
    [.registered name.key fragment]

/-- Events of the addition of a segment. -/
def ofAdd (doc : Document) : Segment → List Event
  | .gap _ => []
  | .declaration start d =>
    .found start (start + d.text.byteSize) ::
      match d.declared with
      | .error _ => []
      | .ok (name, _) => ofRegister doc (Name.canonical doc.dialect name) doc.fragments.length

/-- Events of the addition of segments up to the end of the source. -/
def ofAddAll (doc : Document) : List Segment → List Event
  | [] => [.scanned doc.dialect doc.fragments.length doc.registry.length]
  | s :: segments =>
    ofAdd doc s ++
      match doc.add s with
      | .ok doc => ofAddAll doc segments
      | .error _ => []

/-- Events of the loading of a source. -/
def ofSource (dialect : Dialect) (source : Source) : List Event :=
  match source.toText with
  | .ok t => ofAddAll (.empty dialect) (Segment.ofSource dialect t)
  | .error _ => []

/-- Events of the setting of an attribute. -/
def ofSet (doc : Document) (key : Text) (value : Value) : List Event :=
  match value.encode with
  | .error _ => []
  | .ok _ =>
    let name := Name.canonical doc.dialect key
    match doc.registry.find? name.key with
    | some entry => [.replacing name.key entry.fragment]
    | none =>
      let place := doc.endLine.fragments.length
      ofRegister doc name place ++
        [.appending (Name.written name.key (doc.suffixMode || name.suffixed)) place]

end Log

end AssemblyInfo
