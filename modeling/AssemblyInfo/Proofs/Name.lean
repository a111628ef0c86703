import AssemblyInfo.Name
import AssemblyInfo.Proofs.Declaration.Written

/-! Names that are written and read back. The name that is written for a key in suffix mode is read
as that key with the suffix. Outside of suffix mode the key itself is written, and it is read as it
is if the name that it came from had no suffix. -/

namespace AssemblyInfo

/-- An ASCII letter or digit, an underscore or a dollar sign. -/
def Text.isWordChar (c : Char) : Bool := c.isAlphanum || c == '_' || c == '$'

namespace Text

theorem toNat_lt_of_isWordChar {c : Char} (h : isWordChar c) : c.toNat < 128 := by
  simp only [isWordChar, Bool.or_eq_true, beq_iff_eq] at h
  rcases h with (h | rfl) | rfl
  · exact toNat_lt_of_isAlphanum h
  · decide
  · decide

theorem isIdentifierChar_of_isWordChar {c : Char} (h : isWordChar c) : isIdentifierChar c :=
  ascii_induction (P := fun c => isWordChar c → isIdentifierChar c) (by decide +kernel)
    (toNat_lt_of_isWordChar h) h

/-- The upper-case form of an ASCII character is a character of its own upper-case form. -/
theorem uppercase_of_isWordChar {c : Char} (h : isWordChar c) :
    uppercase c = [c.toUpper] ∧ uppercase c.toUpper = [c.toUpper] ∧ isWordChar c.toUpper ∧
      (c.toUpper.isDigit → c.isDigit) :=
  ascii_induction (P := fun c => isWordChar c → uppercase c = [c.toUpper] ∧
      uppercase c.toUpper = [c.toUpper] ∧ isWordChar c.toUpper ∧
        (c.toUpper.isDigit → c.isDigit)) (by decide +kernel)
    (toNat_lt_of_isWordChar h) h

end Text

namespace Name

/-- A name that may be set: in C# of ASCII letters and digits, in JScript an ASCII identifier. -/
def IsPlain (dialect : Dialect) (t : Text) : Prop :=
  match dialect with
  | .csharp => t ≠ [] ∧ ∀ c ∈ t, c.isAlphanum
  | .jscript => t ≠ [] ∧ (∀ c ∈ t, Text.isWordChar c) ∧ ∀ c ∈ t.head?, ¬c.isDigit

instance (dialect : Dialect) (t : Text) : Decidable (IsPlain dialect t) :=
  match dialect with
  | .csharp => decidable_of_iff (t ≠ [] ∧ t.all Char.isAlphanum) (by simp [IsPlain])
  | .jscript =>
    decidable_of_iff (t ≠ [] ∧ t.all Text.isWordChar ∧ t.head?.all (!Char.isDigit ·))
      (by cases t <;> simp [IsPlain])

/-- A plain name that is written as it is: in JScript it starts with a capital. -/
structure IsKey (dialect : Dialect) (key : Text) : Prop where
  isPlain : IsPlain dialect key
  capitalize_eq : dialect = .jscript → key.capitalize = key

variable {dialect : Dialect} {t key : Text}

theorem IsPlain.ne_nil (h : IsPlain dialect t) : t ≠ [] := by
  cases dialect with
  | csharp => exact h.1
  | jscript => exact h.1

/-- The start of a plain name is plain. -/
theorem IsPlain.of_append {u : Text} (hne : t ≠ []) (h : IsPlain dialect (t ++ u)) :
    IsPlain dialect t := by
  cases dialect with
  | csharp => exact ⟨hne, fun c hc => h.2 c (List.mem_append_left u hc)⟩
  | jscript =>
    refine ⟨hne, fun c hc => h.2.1 c (List.mem_append_left u hc), ?_⟩
    intro c hc
    apply h.2.2 c
    rw [List.head?_append_of_ne_nil _ hne]
    exact hc

theorem IsPlain.append_suffix (h : IsPlain dialect t) : IsPlain dialect (t ++ suffix) := by
  have hne := h.ne_nil
  cases dialect with
  | csharp =>
    have hs : ∀ c ∈ suffix, c.isAlphanum := List.all_eq_true.1 (by decide)
    refine ⟨by simp [hne], ?_⟩
    intro c hc
    rcases List.mem_append.1 hc with hc | hc
    · exact h.2 c hc
    · exact hs c hc
  | jscript =>
    have hs : ∀ c ∈ suffix, Text.isWordChar c := List.all_eq_true.1 (by decide)
    refine ⟨by simp [hne], ?_, ?_⟩
    · intro c hc
      rcases List.mem_append.1 hc with hc | hc
      · exact h.2.1 c hc
      · exact hs c hc
    · intro c hc
      rw [List.head?_append_of_ne_nil _ hne] at hc
      exact h.2.2 c hc

theorem IsPlain.isName (h : IsPlain dialect t) : Declaration.IsName dialect t := by
  cases dialect with
  | csharp => exact h
  | jscript => exact ⟨h.1, fun c hc => Text.isIdentifierChar_of_isWordChar (h.2.1 c hc), h.2.2⟩

theorem IsPlain.capitalize (h : IsPlain .jscript t) :
    IsPlain .jscript t.capitalize ∧ t.capitalize.capitalize = t.capitalize := by
  obtain ⟨hne, hw, hd⟩ := h
  obtain ⟨c, t, rfl⟩ := List.exists_cons_of_ne_nil hne
  obtain ⟨h₁, h₂, h₃, h₄⟩ := Text.uppercase_of_isWordChar (hw c List.mem_cons_self)
  have ht : Text.capitalize (c :: t) = c.toUpper :: t := by simp [Text.capitalize, h₁]
  rw [ht]
  refine ⟨⟨by simp, fun e he => ?_, ?_⟩, by simp [Text.capitalize, h₂]⟩
  · rcases List.mem_cons.1 he with rfl | he
    · exact h₃
    · exact hw e (List.mem_cons_of_mem c he)
  · rintro e ⟨⟩ he
    exact hd c rfl (h₄ he)

/-! ### The suffix -/

theorem ofText_append_suffix (hne : key ≠ []) : ofText (key ++ suffix) = ⟨key, true⟩ := by
  obtain ⟨c, key, rfl⟩ := List.exists_cons_of_ne_nil hne
  rw [ofText, List.isSuffixOf?_eq_some_iff_append_eq.2 rfl]

/-- A name has the suffix after its key, or it is the key. -/
theorem ofText_cases (t : Text) :
    (ofText t).suffixed = true ∧ (ofText t).key ≠ [] ∧ t = (ofText t).key ++ suffix ∨
      ofText t = ⟨t, false⟩ := by
  unfold ofText
  split
  · next c key h => exact .inl ⟨rfl, by simp, (List.isSuffixOf?_eq_some_iff_append_eq.1 h).symm⟩
  · exact .inr rfl

theorem isPlain_key_ofText (h : IsPlain dialect t) : IsPlain dialect (ofText t).key := by
  rcases ofText_cases t with ⟨-, hne, ht⟩ | ht
  · rw [ht] at h
    exact h.of_append hne
  · rw [ht]
    exact h

theorem capitalize_append_suffix (hne : key ≠ []) :
    (key ++ suffix).capitalize = key.capitalize ++ suffix := by
  obtain ⟨c, key, rfl⟩ := List.exists_cons_of_ne_nil hne
  simp [Text.capitalize]

theorem isKey_canonical (h : IsPlain dialect t) : IsKey dialect (canonical dialect t).key := by
  cases dialect with
  | csharp => exact ⟨isPlain_key_ofText h, nofun⟩
  | jscript =>
    obtain ⟨hp, hc⟩ := h.capitalize
    refine ⟨isPlain_key_ofText hp, fun _ => ?_⟩
    show (ofText t.capitalize).key.capitalize = (ofText t.capitalize).key
    rcases ofText_cases t.capitalize with ⟨-, hne, ht⟩ | ht
    · rw [ht, capitalize_append_suffix hne] at hc
      exact List.append_cancel_right hc
    · rw [ht]
      exact hc

/-- The name that is written in suffix mode is read back as its key. -/
theorem canonical_append_suffix (h : IsKey dialect key) :
    canonical dialect (key ++ suffix) = ⟨key, true⟩ := by
  have hne := h.isPlain.ne_nil
  cases dialect with
  | csharp => exact ofText_append_suffix hne
  | jscript =>
    rw [canonical, capitalize_append_suffix hne, h.capitalize_eq rfl]
    exact ofText_append_suffix hne

/-- A written name is read back as the key that it was written for, and shows the mode. -/
theorem canonical_written {n : Text} {mode : Bool} (h : IsKey dialect (canonical dialect n).key)
    (hm : dialect = .jscript → mode = true) :
    canonical dialect
        (written (canonical dialect n).key (mode || (canonical dialect n).suffixed)) =
      ⟨(canonical dialect n).key, mode || (canonical dialect n).suffixed⟩ := by
  cases hs : mode || (canonical dialect n).suffixed with
  | true => exact canonical_append_suffix h
  | false =>
    simp only [Bool.or_eq_false_iff] at hs
    obtain ⟨rfl, hsuffixed⟩ := hs
    cases dialect with
    | jscript => exact absurd (hm rfl) (by simp)
    | csharp =>
      rcases ofText_cases n with ⟨ht, -⟩ | ht
      · rw [canonical, ht] at hsuffixed
        contradiction
      · simp only [canonical, written, ht]
        exact ht

theorem isName_written (h : IsKey dialect key) (mode : Bool) :
    Declaration.IsName dialect (written key mode) := by
  cases mode with
  | false => exact h.isPlain.isName
  | true => exact h.isPlain.append_suffix.isName

end Name

end AssemblyInfo
