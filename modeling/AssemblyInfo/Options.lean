import AssemblyInfo.Dialect

/-! Options in JSON. A set of options is an object with at most one known member, or an array of at
most one item that stands for it. Members of other names are let pass by their form alone. -/

namespace AssemblyInfo

namespace Json.Shape

/-- The member of a name, in an object that may have others, or the item of an array that may be
empty. None if the shape is neither, or the member stands twice. -/
def option? (name : Text) : Shape → Option (Option Shape)
  | .array [] => some none
  | .array [s] => some (some s)
  | .object members => do
    let members ← members.mapM fun (pieces, s) => (joinPieces? pieces).map (·, s)
    match members.filter (·.1 = name) with
    | [] => some none
    | [(_, s)] => some (some s)
    | _ => none
  | _ => none

end Json.Shape

/-- How a document is read. -/
structure DocumentOptions where
  dialect : Dialect := .csharp
  deriving DecidableEq, Repr

namespace DocumentOptions

/-- The dialect in a shape: its name, or an object with the name and null. -/
def dialect? : Json.Shape → Option Dialect
  | .string pieces => Json.joinPieces? pieces >>= Dialect.ofName?
  | .object [(pieces, .null)] => Json.joinPieces? pieces >>= Dialect.ofName?
  | _ => none

def memberName : Text := "language".toList

/-- The options in a JSON text. -/
def parse (t : Text) : Except Error DocumentOptions :=
  match Json.Shape.parse? t >>= Json.Shape.option? memberName with
  | none => .error .notJson
  | some none => .ok {}
  | some (some s) =>
    match dialect? s with
    | some dialect => .ok { dialect }
    | none => .error .notJson

/-- The options in a file. If there is no such file, or there can be none, all have their
defaults. -/
def ofFile : Except FileFault Bytes → Except Error DocumentOptions
  | .error .missing => .ok {}
  | .error .notDirectory => .ok {}
  | .error .nameTooLong => .ok {}
  | .error fault => .error (.file fault)
  | .ok bytes =>
    match Utf8.decode bytes with
    | .ok t => parse t
    | .error _ => .error (.file .notText)

/-- The options as JSON text. -/
def json (o : DocumentOptions) : Text :=
  Json.writeObject [(memberName, Json.quote o.dialect.name)]

end DocumentOptions

/-- How a document is written. -/
structure RenderOptions where
  /-- Whether a missing header is added. -/
  header : Bool := true
  deriving DecidableEq, Repr

namespace RenderOptions

def memberName : Text := "preamble".toList

/-- The options in a JSON text. -/
def parse (t : Text) : Except Error RenderOptions :=
  match Json.Shape.parse? t >>= Json.Shape.option? memberName with
  | some none => .ok {}
  | some (some (.bool header)) => .ok { header }
  | _ => .error .notJson

/-- The options as JSON text. -/
def json (o : RenderOptions) : Text :=
  Json.writeObject [(memberName, if o.header then "true".toList else "false".toList)]

end RenderOptions

end AssemblyInfo
