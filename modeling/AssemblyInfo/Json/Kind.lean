import AssemblyInfo.Json.Value

/-! The kinds of JSON values, by the names that messages use. -/

namespace AssemblyInfo.Json

inductive Kind where
  | null
  | boolean
  | number
  | string
  | array
  | object
  deriving DecidableEq, Repr

def Kind.name : Kind → Text
  | .null => "null".toList
  | .boolean => "boolean".toList
  | .number => "number".toList
  | .string => "string".toList
  | .array => "array".toList
  | .object => "object".toList

def Value.kind : Value → Kind
  | .null => .null
  | .bool _ => .boolean
  | .number _ => .number
  | .string _ => .string
  | .array _ => .array
  | .object _ => .object

end AssemblyInfo.Json
