import AssemblyInfo.Declaration.Keyword
import AssemblyInfo.Text.Blank

/-! Declarations in C#: `[assembly: Name(arguments)]`, with blanks between the parts. The name is
made of ASCII letters and digits; the arguments are not empty and end at the first closing
parenthesis. A declaration may run over several lines. -/

namespace AssemblyInfo.Declaration

/-- A C# declaration by its parts, blanks included. -/
structure CSharp where
  afterBracket : Text
  afterKeyword : Text
  afterColon : Text
  name : Text
  afterName : Text
  arguments : Text
  afterArguments : Text
  deriving DecidableEq, Repr

namespace CSharp

/-- The declaration from bracket to bracket. -/
def text (d : CSharp) : Text :=
  '[' :: d.afterBracket ++ keyword ++ d.afterKeyword ++ ':' :: d.afterColon ++ d.name ++
    d.afterName ++ '(' :: d.arguments ++ ')' :: d.afterArguments ++ [']']

/-- Whether a character may stand in arguments. -/
def isArgument (c : Char) : Bool := c != ')'

/-- Reads the declaration that a text starts with, and the rest. -/
def read? (t : Text) : Option (CSharp × Text) := do
  let t ← ['['].isPrefixOf? t
  let afterBracket := t.takeWhile Text.isBlank
  let t ← keyword.isPrefixOf? (t.dropWhile Text.isBlank)
  let afterKeyword := t.takeWhile Text.isBlank
  let t ← [':'].isPrefixOf? (t.dropWhile Text.isBlank)
  let afterColon := t.takeWhile Text.isBlank
  let t := t.dropWhile Text.isBlank
  let name := t.takeWhile Char.isAlphanum
  let t := t.dropWhile Char.isAlphanum
  let afterName := t.takeWhile Text.isBlank
  let t ← ['('].isPrefixOf? (t.dropWhile Text.isBlank)
  let arguments := t.takeWhile isArgument
  let t ← [')'].isPrefixOf? (t.dropWhile isArgument)
  let afterArguments := t.takeWhile Text.isBlank
  let t ← [']'].isPrefixOf? (t.dropWhile Text.isBlank)
  if name = [] ∨ arguments = [] then none
  else
    some ({ afterBracket, afterKeyword, afterColon, name, afterName, arguments, afterArguments }, t)

/-- Nothing of the text is lost. -/
theorem text_append_of_read? {t rest : Text} {d : CSharp} (h : read? t = some (d, rest)) :
    d.text ++ rest = t := by
  simp only [read?, Option.bind_eq_bind, Option.bind_eq_some_iff] at h
  obtain ⟨t₁, h₁, t₂, h₂, t₃, h₃, t₄, h₄, t₅, h₅, t₆, h₆, h⟩ := h
  split at h
  · exact absurd h (by simp)
  · obtain ⟨rfl, rfl⟩ := h
    have e₁ := Text.takeWhile_append_of_dropWhile (Text.eq_append_of_isPrefixOf? h₂)
    have e₂ := Text.takeWhile_append_of_dropWhile (Text.eq_append_of_isPrefixOf? h₃)
    have e₃ := Text.takeWhile_append_of_dropWhile (Text.eq_append_of_isPrefixOf? h₄)
    have e₄ := Text.takeWhile_append_of_dropWhile (Text.eq_append_of_isPrefixOf? h₅)
    have e₅ := Text.takeWhile_append_of_dropWhile (Text.eq_append_of_isPrefixOf? h₆)
    simp only [List.singleton_append] at e₁ e₂ e₃ e₄ e₅
    simp only [text, List.append_assoc, List.cons_append, List.nil_append]
    rw [e₅, e₄, e₃, List.takeWhile_append_dropWhile, List.takeWhile_append_dropWhile, e₂, e₁,
      Text.eq_append_of_isPrefixOf? h₁]
    rfl

end CSharp

end AssemblyInfo.Declaration
