import AssemblyInfo.Declaration.CSharp
import AssemblyInfo.Proofs.Text

/-! The grammar of C# declarations. A text is read as a declaration exactly if it starts with the
text of a well-formed one, and then in one way only. Of the places where a second opening bracket
can stand after the first, only the arguments lie inside of a declaration. -/

namespace AssemblyInfo.Declaration.CSharp

open Text (isBlank)

/-- The declaration up to the parenthesis that opens its arguments. -/
def opening (d : CSharp) : Text :=
  '[' :: (d.afterBracket ++ keyword ++ d.afterKeyword ++ ':' :: d.afterColon ++ d.name ++
    d.afterName ++ ['('])

theorem text_eq (d : CSharp) :
    d.text = d.opening ++ (d.arguments ++ (')' :: d.afterArguments ++ [']'])) := by
  simp [text, opening]

/-- The parts up to the arguments are what their places ask for, and the arguments are not yet
closed. -/
structure Opens (d : CSharp) : Prop where
  afterBracket : ∀ c ∈ d.afterBracket, isBlank c
  afterKeyword : ∀ c ∈ d.afterKeyword, isBlank c
  afterColon : ∀ c ∈ d.afterColon, isBlank c
  name_ne_nil : d.name ≠ []
  name : ∀ c ∈ d.name, c.isAlphanum
  afterName : ∀ c ∈ d.afterName, isBlank c
  arguments : ')' ∉ d.arguments

/-- All parts are what their places ask for. -/
structure WellFormed (d : CSharp) : Prop extends Opens d where
  arguments_ne_nil : d.arguments ≠ []
  afterArguments : ∀ c ∈ d.afterArguments, isBlank c

/-! ### Reading -/

theorem wellFormed_of_read? {t rest : Text} {d : CSharp} (h : read? t = some (d, rest)) :
    d.WellFormed := by
  simp only [read?, Option.bind_eq_bind, Option.bind_eq_some_iff] at h
  obtain ⟨t₁, h₁, t₂, h₂, t₃, h₃, t₄, h₄, t₅, h₅, t₆, h₆, h⟩ := h
  split at h
  · contradiction
  · next hne =>
    obtain ⟨rfl, rfl⟩ := h
    simp only [not_or] at hne
    have ha : ')' ∉ t₄.takeWhile isArgument :=
      Text.not_mem_of_forall (fun _ => List.mem_takeWhile_imp) (by decide)
    exact ⟨⟨fun _ => List.mem_takeWhile_imp, fun _ => List.mem_takeWhile_imp,
      fun _ => List.mem_takeWhile_imp, hne.1, fun _ => List.mem_takeWhile_imp,
      fun _ => List.mem_takeWhile_imp, ha⟩, hne.2, fun _ => List.mem_takeWhile_imp⟩

theorem Opens.isArgument {d : CSharp} (h : d.Opens) : ∀ c ∈ d.arguments, CSharp.isArgument c := by
  intro c hm
  have hcne : c ≠ ')' := by
    rintro rfl
    exact h.arguments hm
  simpa [CSharp.isArgument] using hcne

/-- The blanks before the name end with it. -/
theorem Opens.isBlank_head_name {d : CSharp} (h : d.Opens) (t : Text) :
    ∀ c ∈ (d.name ++ t).head?, isBlank c = false := by
  rw [List.head?_append_of_ne_nil _ h.name_ne_nil]
  exact fun c hc => Text.isBlank_of_isAlphanum (h.name c (List.mem_of_mem_head? hc))

/-- The name ends with the blanks after it, or with the parenthesis. -/
theorem Opens.isAlphanum_head_afterName {d : CSharp} (h : d.Opens) (t : Text) :
    ∀ c ∈ (d.afterName ++ '(' :: t).head?, c.isAlphanum = false := by
  cases he : d.afterName with
  | nil =>
    rintro _ ⟨⟩
    rfl
  | cons b n =>
    rintro _ ⟨⟩
    by_contra hal
    have hbl := h.afterName b (by simp [he])
    rw [Text.isBlank_of_isAlphanum (by simpa using hal)] at hbl
    contradiction

theorem read?_text_append {d : CSharp} (hd : d.WellFormed) (rest : Text) :
    read? (d.text ++ rest) = some (d, rest) := by
  -- what is left of the text after each part
  obtain ⟨t₆, h₆⟩ : ∃ t, t = d.afterArguments ++ ']' :: rest := ⟨_, rfl⟩
  obtain ⟨t₅, h₅⟩ : ∃ t, t = d.arguments ++ ')' :: t₆ := ⟨_, rfl⟩
  obtain ⟨t₄, h₄⟩ : ∃ t, t = d.afterName ++ '(' :: t₅ := ⟨_, rfl⟩
  obtain ⟨t₃, h₃⟩ : ∃ t, t = d.afterColon ++ (d.name ++ t₄) := ⟨_, rfl⟩
  obtain ⟨t₂, h₂⟩ : ∃ t, t = d.afterKeyword ++ ':' :: t₃ := ⟨_, rfl⟩
  obtain ⟨t₁, h₁⟩ : ∃ t, t = d.afterBracket ++ (keyword ++ t₂) := ⟨_, rfl⟩
  have ht : d.text ++ rest = '[' :: t₁ := by
    simp [text, h₁, h₂, h₃, h₄, h₅, h₆]
  have e₁ : t₁.takeWhile isBlank = d.afterBracket ∧ t₁.dropWhile isBlank = keyword ++ t₂ :=
    h₁ ▸ Text.span_run_cons hd.afterBracket rfl
  have e₂ : t₂.takeWhile isBlank = d.afterKeyword ∧ t₂.dropWhile isBlank = ':' :: t₃ :=
    h₂ ▸ Text.span_run_cons hd.afterKeyword rfl
  have e₃ : t₃.takeWhile isBlank = d.afterColon ∧ t₃.dropWhile isBlank = d.name ++ t₄ :=
    h₃ ▸ Text.span_run hd.afterColon (hd.isBlank_head_name t₄)
  have e₄ := Text.span_run hd.name (h₄ ▸ hd.isAlphanum_head_afterName t₅)
  have e₅ : t₄.takeWhile isBlank = d.afterName ∧ t₄.dropWhile isBlank = '(' :: t₅ :=
    h₄ ▸ Text.span_run_cons hd.afterName rfl
  have e₆ : t₅.takeWhile isArgument = d.arguments ∧ t₅.dropWhile isArgument = ')' :: t₆ :=
    h₅ ▸ Text.span_run_cons hd.isArgument rfl
  have e₇ : t₆.takeWhile isBlank = d.afterArguments ∧ t₆.dropWhile isBlank = ']' :: rest :=
    h₆ ▸ Text.span_run_cons hd.afterArguments rfl
  simp only [read?, ht, Text.isPrefixOf?_singleton, Text.isPrefixOf?_append, Option.bind_eq_bind,
    Option.bind_some, e₁, e₂, e₃, e₄, e₅, e₆, e₇, hd.name_ne_nil, hd.arguments_ne_nil, or_self,
    if_false]

/-- The reading of a declaration follows the grammar, and leaves no choice. -/
theorem read?_eq_some_iff {t rest : Text} {d : CSharp} :
    read? t = some (d, rest) ↔ d.WellFormed ∧ t = d.text ++ rest := by
  constructor
  · intro h
    exact ⟨wellFormed_of_read? h, (text_append_of_read? h).symm⟩
  · rintro ⟨hd, rfl⟩
    exact read?_text_append hd rest

/-! ### A second bracket -/

/-- After its bracket, the opening has only blanks, letters, digits, a colon and a parenthesis. -/
theorem Opens.not_mem_tail {d : CSharp} (h : d.Opens) {c : Char} (hb : isBlank c = false)
    (hn : c.isAlphanum = false) (hc : c ∉ ':' :: '(' :: keyword) : c ∉ d.opening.tail := by
  simp only [List.mem_cons, not_or] at hc
  obtain ⟨hcolon, hparen, hk⟩ := hc
  simp [opening, Text.not_mem_of_forall h.afterBracket hb,
    Text.not_mem_of_forall h.afterKeyword hb, Text.not_mem_of_forall h.afterColon hb,
    Text.not_mem_of_forall h.afterName hb, Text.not_mem_of_forall h.name hn, hcolon, hparen, hk]

/-- If an opening bracket follows a part of a text that starts with a declaration, then that part
holds the whole declaration or ends in its arguments. -/
theorem eq_append_or_opening {d : CSharp} (hd : d.WellFormed) {a r z : Text} (ha : a ≠ [])
    (h : d.text ++ r = a ++ '[' :: z) :
    (∃ b, a = d.text ++ b) ∨ ∃ args, ')' ∉ args ∧ a = d.opening ++ args := by
  obtain ⟨c, a, rfl⟩ := List.exists_cons_of_ne_nil ha
  -- up to its arguments, the declaration has no other bracket than its first character
  obtain ⟨u, hu, hopen⟩ : ∃ u, '[' ∉ u ∧ d.opening = '[' :: u :=
    ⟨d.opening.tail, hd.not_mem_tail (by decide) (by decide) (by decide), rfl⟩
  rw [text_eq, hopen] at h ⊢
  simp only [List.cons_append, List.append_assoc, List.cons.injEq] at h
  obtain ⟨rfl, h⟩ := h
  obtain ⟨b, rfl, hb⟩ := Text.exists_of_append_eq_append_cons hu h
  rcases List.append_eq_append_iff.1 hb with ⟨b, rfl, hb⟩ | ⟨b', hargs, -⟩
  · left
    have hend : '[' ∉ ')' :: d.afterArguments ++ [']'] := by
      simp [Text.not_mem_of_forall hd.afterArguments (by decide : isBlank '[' = false)]
    obtain ⟨b, rfl, -⟩ := Text.exists_of_append_eq_append_cons hend (by simpa using hb)
    exact ⟨b, by simp⟩
  · right
    refine ⟨b, ?_, rfl⟩
    intro hm
    apply hd.arguments
    rw [hargs]
    exact List.mem_append_left _ hm

end AssemblyInfo.Declaration.CSharp
