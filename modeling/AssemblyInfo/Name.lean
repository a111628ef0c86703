import AssemblyInfo.Dialect
import AssemblyInfo.Text.Uppercase

/-! Names of attributes. An attribute is known by its key, which is its name without the suffix;
JScript names start with a capital. -/

namespace AssemblyInfo

/-- The suffix that names of attributes may carry. -/
def suffix : Text := "Attribute".toList

/-- A name as a key, and whether it carried the suffix. -/
structure Name where
  key : Text
  suffixed : Bool
  deriving DecidableEq, Repr

namespace Name

/-- Takes the suffix off a name that has more than it. -/
def ofText (t : Text) : Name :=
  match suffix.isSuffixOf? t with
  | some (c :: key) => ⟨c :: key, true⟩
  | _ => ⟨t, false⟩

/-- The name as a dialect takes it. -/
def canonical (d : Dialect) (t : Text) : Name :=
  match d with
  | .csharp => ofText t
  | .jscript => ofText t.capitalize

/-- The name to write for a key. -/
def written (key : Text) (suffixMode : Bool) : Text := if suffixMode then key ++ suffix else key

end Name

end AssemblyInfo
