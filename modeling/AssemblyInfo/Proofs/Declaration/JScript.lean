import AssemblyInfo.Declaration.JScript
import AssemblyInfo.Proofs.Text

/-! JScript declarations are read from their line alone: what follows the line feed neither ends a
declaration nor takes part in the choice of its end. -/

namespace AssemblyInfo.Declaration.JScript

open Text (Quoting)

/-- Puts a text after the rest that a reading left. -/
def extend {α : Type} (u : Text) (r : α × Text) : α × Text := (r.1, r.2 ++ u)

theorem readPlain?_newline {x : Text} (hx : '\n' ∉ x) (u : Text) :
    readPlain? (x ++ '\n' :: u) = (readPlain? x).map (extend ('\n' :: u)) := by
  induction x with
  | nil => rfl
  | cons c x ih =>
    simp only [List.mem_cons, not_or] at hx
    rw [List.cons_append, readPlain?, readPlain?, if_neg (Ne.symm hx.1), if_neg (Ne.symm hx.1)]
    split_ifs
    · rfl
    · rw [ih hx.2, Option.map_map, Option.map_map]
      rfl

theorem readBody?_newline {x : Text} (hx : '\n' ∉ x) (q : Quoting) (u : Text) :
    readBody? q (x ++ '\n' :: u) = (readBody? q x).map (extend ('\n' :: u)) := by
  induction x generalizing q with
  | nil => rfl
  | cons c x ih =>
    have hplain := readPlain?_newline hx u
    simp only [List.mem_cons, not_or] at hx
    have hlater : (readBody? (q.next c) (x ++ '\n' :: u)).map (Prod.map (c :: ·) id) =
        ((readBody? (q.next c) x).map (Prod.map (c :: ·) id)).map (extend ('\n' :: u)) := by
      rw [ih hx.2, Option.map_map, Option.map_map]
      rfl
    rw [List.cons_append] at hplain ⊢
    rw [readBody?, readBody?, if_neg (Ne.symm hx.1), if_neg (Ne.symm hx.1)]
    split_ifs
    · rfl
    · rw [hlater, hplain]
      cases (readBody? (q.next c) x).map (Prod.map (c :: ·) id) with
      | none => rfl
      | some r => rfl
    · exact hlater

/-- A declaration is read from its line. -/
theorem read?_newline {x : Text} (hx : '\n' ∉ x) (u : Text) :
    read? (x ++ '\n' :: u) = (read? x).map (extend ('\n' :: u)) := by
  have hspan : ∀ t : Text,
      (t ++ '\n' :: u).takeWhile Text.isSpaceOrTab = t.takeWhile Text.isSpaceOrTab ∧
        (t ++ '\n' :: u).dropWhile Text.isSpaceOrTab = t.dropWhile Text.isSpaceOrTab ++ '\n' :: u :=
    fun t => Text.span_append_cons (by decide) u
  simp only [read?, Option.bind_eq_bind]
  rw [Text.isPrefixOf?_append_cons (by decide)]
  cases h₁ : ['['].isPrefixOf? x with
  | none => rfl
  | some t₁ =>
    simp only [Option.map_some, Option.bind_some, hspan]
    rw [Text.isPrefixOf?_append_cons (by decide)]
    cases h₂ : keyword.isPrefixOf? (t₁.dropWhile Text.isSpaceOrTab) with
    | none => rfl
    | some t₂ =>
      simp only [Option.map_some, Option.bind_some, hspan]
      rw [Text.isPrefixOf?_append_cons (by decide)]
      cases h₃ : [':'].isPrefixOf? (t₂.dropWhile Text.isSpaceOrTab) with
      | none => rfl
      | some t₃ =>
        have hs : t₃ <:+ x :=
          (Text.suffix_of_isPrefixOf? h₃).trans <| (List.dropWhile_suffix _).trans <|
            (Text.suffix_of_isPrefixOf? h₂).trans <| (List.dropWhile_suffix _).trans <|
              Text.suffix_of_isPrefixOf? h₁
        have ht₃ : '\n' ∉ t₃ := by
          intro hm
          exact hx (hs.mem hm)
        simp only [Option.map_some, Option.bind_some]
        rw [readBody?_newline ht₃]
        cases readBody? .outside t₃ with
        | none => rfl
        | some r => rfl

theorem newline_not_mem_text {t rest : Text} {d : JScript} (h : read? t = some (d, rest)) :
    '\n' ∉ d.text := by
  rcases Text.eq_line_or_line_append d.text with hd | ⟨l, u, hl, hd⟩
  · exact hd
  · -- the reading would stop before the line feed
    have ht := text_append_of_read? h
    rw [hd, List.append_assoc, List.cons_append] at ht
    rw [← ht, read?_newline hl] at h
    obtain ⟨⟨d', r⟩, hr, he⟩ := Option.map_eq_some_iff.1 h
    obtain ⟨rfl, -⟩ := Prod.mk.inj he
    have hlen := congrArg List.length (text_append_of_read? hr)
    simp [hd] at hlen

/-- The parts before the body are read as they stand; the body is for its own reader. -/
theorem read?_text_append {d : JScript} {rest : Text}
    (hb : ∀ c ∈ d.afterBracket, Text.isSpaceOrTab c)
    (hk : ∀ c ∈ d.afterKeyword, Text.isSpaceOrTab c)
    (hbody : readBody? .outside (d.body ++ ']' :: rest) = some (d.body, rest)) :
    read? (d.text ++ rest) = some (d, rest) := by
  obtain ⟨t₂, h₂⟩ : ∃ t, t = d.afterKeyword ++ ':' :: (d.body ++ ']' :: rest) := ⟨_, rfl⟩
  obtain ⟨t₁, h₁⟩ : ∃ t, t = d.afterBracket ++ (keyword ++ t₂) := ⟨_, rfl⟩
  have ht : d.text ++ rest = '[' :: t₁ := by simp [text, h₁, h₂]
  have e₁ : t₁.takeWhile Text.isSpaceOrTab = d.afterBracket ∧
      t₁.dropWhile Text.isSpaceOrTab = keyword ++ t₂ := h₁ ▸ Text.span_run_cons hb rfl
  have e₂ : t₂.takeWhile Text.isSpaceOrTab = d.afterKeyword ∧
      t₂.dropWhile Text.isSpaceOrTab = ':' :: (d.body ++ ']' :: rest) :=
    h₂ ▸ Text.span_run_cons hk rfl
  simp only [read?, ht, Text.isPrefixOf?_singleton, Text.isPrefixOf?_append, Option.bind_eq_bind,
    Option.bind_some, e₁, e₂, hbody]

end AssemblyInfo.Declaration.JScript
