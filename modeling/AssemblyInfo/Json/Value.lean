import AssemblyInfo.Json.Shape

/-! JSON values, and their reading from texts. On top of the grammar, a value has all numbers in
range, all surrogates in pairs, and arrays and objects nested less than 128 deep. -/

namespace AssemblyInfo.Json

inductive Value where
  | null
  | bool (b : Bool)
  | number (n : Number)
  | string (t : Text)
  | array (items : List Value)
  | object (members : List (Text × Value))

mutual

/-- The value of a shape, with at most `depth` arrays and objects around a part of it. -/
def Shape.value? (depth : Nat) : Shape → Option Value
  | .null => some .null
  | .bool b => some (.bool b)
  | .number n => n.number?.map .number
  | .string pieces => (joinPieces? pieces).map .string
  | .array items => if depth = 0 then none else (Shape.items? (depth - 1) items).map .array
  | .object members => if depth = 0 then none else (Shape.members? (depth - 1) members).map .object

/-- The values of the items of an array. -/
def Shape.items? (depth : Nat) : List Shape → Option (List Value)
  | [] => some []
  | s :: items => do
    let v ← s.value? depth
    let vs ← Shape.items? depth items
    some (v :: vs)

/-- The names and values of the members of an object. -/
def Shape.members? (depth : Nat) : List (List Piece × Shape) → Option (List (Text × Value))
  | [] => some []
  | (pieces, s) :: members => do
    let name ← joinPieces? pieces
    let v ← s.value? depth
    let vs ← Shape.members? depth members
    some ((name, v) :: vs)

end

namespace Value

/-- How deep arrays and objects may be nested. -/
def maxDepth : Nat := 127

/-- The value of a JSON text. -/
def parse? (t : Text) : Option Value := Shape.parse? t >>= Shape.value? maxDepth

end Value

/-! ### Writing objects -/

/-- An object on one line, of names and written values. -/
def writeObject (members : List (Text × Text)) : Text :=
  ['\x7b'] ++ Text.joinWith [','] (members.map fun (name, value) => quote name ++ ':' :: value) ++
    ['\x7d']

/-- An object with a line for each member, of names and written values. -/
def writeObjectLines (members : List (Text × Text)) : Text :=
  if members = [] then ['\x7b', '\x7d']
  else
    let lines := members.map fun (name, value) => "  ".toList ++ quote name ++ ": ".toList ++ value
    ['\x7b', '\n'] ++ Text.joinWith [',', '\n'] lines ++ ['\n', '\x7d']

end AssemblyInfo.Json
