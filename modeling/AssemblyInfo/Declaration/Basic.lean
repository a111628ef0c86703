import AssemblyInfo.Call
import AssemblyInfo.Declaration.CSharp
import AssemblyInfo.Declaration.JScript
import AssemblyInfo.Dialect
import AssemblyInfo.Value

/-! Declarations of attributes in either dialect, with the name and value that each declares. -/

namespace AssemblyInfo

inductive Declaration where
  | csharp (d : Declaration.CSharp)
  | jscript (d : Declaration.JScript)
  deriving DecidableEq, Repr

namespace Declaration

/-- The declaration from bracket to bracket, as it stands in the source. -/
def text : Declaration → Text
  | .csharp d => d.text
  | .jscript d => d.text

/-- Reads the declaration that a text starts with, and the rest. -/
def read? (dialect : Dialect) (t : Text) : Option (Declaration × Text) :=
  match dialect with
  | .csharp => (CSharp.read? t).map fun (d, rest) => (.csharp d, rest)
  | .jscript => (JScript.read? t).map fun (d, rest) => (.jscript d, rest)

/-- The name that is declared, as written, and its value. -/
def declared : Declaration → Except Error (Text × Value)
  | .csharp d => (Value.decode d.arguments).map fun value => (d.name, value)
  | .jscript d => do
    let call ← Call.parse d.body
    match call.argument with
    | none => .ok (call.callee, .null)
    | some argument => (Value.decode argument).map fun value => (call.callee, value)

/-- Nothing of the text is lost. -/
theorem text_append_of_read? {dialect : Dialect} {t rest : Text} {d : Declaration}
    (h : read? dialect t = some (d, rest)) : d.text ++ rest = t := by
  cases dialect with
  | csharp =>
    obtain ⟨⟨d', r⟩, hd, he⟩ := Option.map_eq_some_iff.1 h
    obtain ⟨rfl, rfl⟩ := Prod.mk.inj he
    exact CSharp.text_append_of_read? hd
  | jscript =>
    obtain ⟨⟨d', r⟩, hd, he⟩ := Option.map_eq_some_iff.1 h
    obtain ⟨rfl, rfl⟩ := Prod.mk.inj he
    exact JScript.text_append_of_read? hd

theorem length_text_pos (d : Declaration) : 0 < d.text.length := by
  cases d <;> simp [text, CSharp.text, JScript.text]

end Declaration

end AssemblyInfo
