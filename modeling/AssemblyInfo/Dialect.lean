import AssemblyInfo.Error
import AssemblyInfo.Text.Blank

/-! The two dialects of sources, C# and JScript. A JScript source needs a header line that imports
the reflection namespace, and all its attributes carry the suffix. -/

namespace AssemblyInfo

inductive Dialect where
  | csharp
  | jscript
  deriving DecidableEq, Repr, Inhabited

namespace Dialect

def name : Dialect → Text
  | .csharp => "csharp".toList
  | .jscript => "jscript".toList

/-- The dialect with a name, in lower case. -/
def ofName? (name : Text) : Option Dialect :=
  if name ∈ ["csharp".toList, "cs".toList, "c#".toList] then some .csharp
  else if name ∈ ["jscript".toList, "js".toList] then some .jscript
  else none

/-- The dialect with a name, in any case. -/
def parse (name : Text) : Except Error Dialect :=
  match ofName? name.lowerAscii with
  | some d => .ok d
  | none => .error (.unknownDialect name.lowerAscii)

/-- Whether all attributes of the dialect carry the suffix. -/
def alwaysSuffixed : Dialect → Bool
  | .csharp => false
  | .jscript => true

/-- The header line of the dialect, if it has one. -/
def header? : Dialect → Option Text
  | .csharp => none
  | .jscript => some "import System.Reflection;".toList

/-- Whether a line starts with the import of the reflection namespace. -/
def isHeader (line : Text) : Bool :=
  match "import".toList.isPrefixOf? (line.dropWhile Text.isSpaceOrTab) with
  | some (c :: t) =>
    Text.isSpaceOrTab c &&
      match "System.Reflection".toList.isPrefixOf? (t.dropWhile Text.isSpaceOrTab) with
      | some t => (t.dropWhile Text.isSpaceOrTab).head? == some ';'
      | none => false
  | _ => false

/-- Whether a text needs no header: the dialect has none, or some line is one. -/
def hasHeader (d : Dialect) (t : Text) : Bool :=
  match d with
  | .csharp => true
  | .jscript => t.lines.any isHeader

end Dialect

end AssemblyInfo
