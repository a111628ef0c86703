import AssemblyInfo.Error

/-! What a document is made from: a text, the bytes of one, or nothing. -/

namespace AssemblyInfo

inductive Source where
  | text (t : Text)
  | bytes (b : Bytes)
  | absent
  deriving DecidableEq, Repr

namespace Source

/-- A source given as a JSON value: a string, or null for no source. -/
def ofJson : Json.Value → Except Error Source
  | .null => .ok .absent
  | .string t => .ok (.text t)
  | v => .error (.invalidSource v.kind)

/-- The text of a source; empty if there is none. -/
def toText : Source → Except Error Text
  | .text t => .ok t
  | .bytes b => (Utf8.decode b).mapError .notUtf8
  | .absent => .ok []

end Source

end AssemblyInfo
