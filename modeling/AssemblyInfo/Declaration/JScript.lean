import AssemblyInfo.Declaration.Keyword
import AssemblyInfo.Text.Blank
import AssemblyInfo.Text.Quoting

/-! Declarations in JScript: `[assembly: body]` on one line. A bracket in a quoted string does not
end the body. If the line holds no bracket after some string, the quote that opens it counts as a
plain character, and the body ends at the first bracket after it. -/

namespace AssemblyInfo.Declaration

/-- A JScript declaration by its parts, spaces and tabs included. -/
structure JScript where
  afterBracket : Text
  afterKeyword : Text
  body : Text
  deriving DecidableEq, Repr

namespace JScript

open Text (Quoting)

/-- The declaration from bracket to bracket. -/
def text (d : JScript) : Text :=
  '[' :: d.afterBracket ++ keyword ++ d.afterKeyword ++ ':' :: d.body ++ [']']

/-- The line up to its first closing bracket, and the rest after it. -/
def readPlain? : Text → Option (Text × Text)
  | [] => none
  | c :: t =>
    if c = '\n' then none
    else if c = ']' then some ([], t)
    else (readPlain? t).map (Prod.map (c :: ·) id)

/-- The line up to the closing bracket that ends the body, and the rest after it. -/
def readBody? (quoting : Quoting) : Text → Option (Text × Text)
  | [] => none
  | c :: t =>
    if c = '\n' then none
    else if quoting = .outside ∧ c = ']' then some ([], t)
    else
      let body? := (readBody? (quoting.next c) t).map (Prod.map (c :: ·) id)
      if quoting = .outside ∧ Text.isQuote c then body?.or (readPlain? (c :: t)) else body?

/-- Reads the declaration that a text starts with, and the rest. -/
def read? (t : Text) : Option (JScript × Text) := do
  let t ← ['['].isPrefixOf? t
  let afterBracket := t.takeWhile Text.isSpaceOrTab
  let t ← keyword.isPrefixOf? (t.dropWhile Text.isSpaceOrTab)
  let afterKeyword := t.takeWhile Text.isSpaceOrTab
  let t ← [':'].isPrefixOf? (t.dropWhile Text.isSpaceOrTab)
  let (body, t) ← readBody? .outside t
  some ({ afterBracket, afterKeyword, body }, t)

theorem append_of_readPlain? {t body rest : Text} (h : readPlain? t = some (body, rest)) :
    body ++ ']' :: rest = t := by
  induction t generalizing body with
  | nil => simp [readPlain?] at h
  | cons c t ih =>
    rw [readPlain?] at h
    split at h
    · exact absurd h (by simp)
    · split at h
      · next hc =>
        obtain ⟨rfl, rfl⟩ := h
        simp [hc]
      · obtain ⟨b, rfl, hb⟩ := Text.exists_of_map_cons h
        simp [ih hb]

theorem append_of_readBody? {quoting : Quoting} {t body rest : Text}
    (h : readBody? quoting t = some (body, rest)) : body ++ ']' :: rest = t := by
  induction t generalizing quoting body with
  | nil => simp [readBody?] at h
  | cons c t ih =>
    have later
        (hl : (readBody? (quoting.next c) t).map (Prod.map (c :: ·) id) = some (body, rest)) :
        body ++ ']' :: rest = c :: t := by
      obtain ⟨b, rfl, hb⟩ := Text.exists_of_map_cons hl
      simp [ih hb]
    rw [readBody?] at h
    split at h
    · exact absurd h (by simp)
    · split at h
      · next hc =>
        obtain ⟨rfl, rfl⟩ := h
        simp [hc.2]
      · dsimp only at h
        split at h
        · rcases Option.or_eq_some_iff.1 h with hb | ⟨-, hp⟩
          · exact later hb
          · exact append_of_readPlain? hp
        · exact later h

/-- Nothing of the text is lost. -/
theorem text_append_of_read? {t rest : Text} {d : JScript} (h : read? t = some (d, rest)) :
    d.text ++ rest = t := by
  simp only [read?, Option.bind_eq_bind, Option.bind_eq_some_iff] at h
  obtain ⟨t₁, h₁, t₂, h₂, t₃, h₃, ⟨body, r⟩, h₄, h⟩ := h
  obtain ⟨rfl, rfl⟩ := h
  have e₁ := Text.takeWhile_append_of_dropWhile (Text.eq_append_of_isPrefixOf? h₂)
  have e₂ := Text.takeWhile_append_of_dropWhile (Text.eq_append_of_isPrefixOf? h₃)
  simp only [List.singleton_append] at e₁ e₂
  simp only [text, List.append_assoc, List.cons_append, List.nil_append]
  rw [append_of_readBody? h₄, e₂, e₁, Text.eq_append_of_isPrefixOf? h₁]
  rfl

end JScript

end AssemblyInfo.Declaration
