import AssemblyInfo.Json.Value
import AssemblyInfo.Proofs.Text

/-! Numerals written and read back. A numeral is written by its parts: a minus, the whole digits, a
point with digits, a mark with a sign and digits. It is read as the same parts up to a character
that would continue it. The whole digits are those of a natural number, in which a zero stands at
the start only if it is the number. -/

namespace AssemblyInfo.Json

/-! ### Digits -/

/-- Digits, at least one. -/
structure IsDigits (digits : Text) : Prop where
  ne_nil : digits ≠ []
  isDigit : ∀ c ∈ digits, c.isDigit

/-- The digits of a natural number: a zero stands alone. -/
structure IsDecimal (digits : Text) : Prop extends IsDigits digits where
  zero : digits.head? = some '0' → digits = ['0']

variable {digits rest : Text}

theorem head?_toDigits_ne_zero {n : Nat} (h : n ≠ 0) : (Nat.toDigits 10 n).head? ≠ some '0' := by
  induction n using Nat.strongRecOn with
  | ind n ih =>
    rw [Nat.toDigits_eq_if (by decide)]
    split
    · next hlt =>
      intro h0
      have h1 : n.digitChar = '0' := by simpa using h0
      have h2 := Nat.toNat_digitChar_of_lt_ten hlt
      rw [h1] at h2
      exact h (Nat.add_left_cancel h2.symm)
    · have hd := ih (n / 10) (by omega) (by omega)
      obtain ⟨c, t, hc⟩ := List.exists_cons_of_ne_nil (Nat.toDigits_ne_nil (n := n / 10) (b := 10))
      rw [hc] at hd ⊢
      exact hd

theorem isDigits_decimal (n : Nat) : IsDigits (Text.decimal n) :=
  ⟨Nat.toDigits_ne_nil, fun _ => Nat.isDigit_of_mem_toDigits (by decide) (by decide)⟩

theorem isDecimal_decimal (n : Nat) : IsDecimal (Text.decimal n) := by
  refine ⟨isDigits_decimal n, ?_⟩
  intro h
  by_cases hn : n = 0
  · rw [hn]
    rfl
  · exact absurd h (head?_toDigits_ne_zero hn)

/-- The start of a number that has more digits. -/
theorem IsDecimal.of_concat {c : Char} (h : IsDecimal (digits ++ [c])) (hne : digits ≠ []) :
    IsDecimal digits ∧ digits.head? ≠ some '0' := by
  have hhead : digits.head? ≠ some '0' := by
    intro hzero
    have hall := h.zero (by rw [List.head?_append_of_ne_nil _ hne, hzero])
    have hlength := congrArg List.length hall
    simp [hne] at hlength
  exact ⟨⟨⟨hne, fun d hd => h.isDigit d (List.mem_append_left _ hd)⟩, fun hz => absurd hz hhead⟩,
    hhead⟩

/-- The value of a digit. -/
theorem digitChar_of_isDigit {c : Char} (h : c.isDigit) :
    c.toNat - '0'.toNat < 10 ∧ Nat.digitChar (c.toNat - '0'.toNat) = c :=
  Text.ascii_induction (P := fun c => c.isDigit →
      c.toNat - '0'.toNat < 10 ∧ Nat.digitChar (c.toNat - '0'.toNat) = c) (by decide +kernel)
    (Text.toNat_lt_of_isAlphanum (by simp [Char.isAlphanum, h])) h

/-- A number has no other digits than those that it is read from. -/
theorem decimal_ofDigitChars (h : IsDecimal digits) :
    Text.decimal (Nat.ofDigitChars 10 digits 0) = digits := by
  induction digits using List.reverseRecOn with
  | nil => exact absurd rfl h.ne_nil
  | append_singleton digits c ih =>
    obtain ⟨hlt, hchar⟩ := digitChar_of_isDigit (h.isDigit c (by simp))
    rw [Nat.ofDigitChars_append, Nat.ofDigitChars_cons, Nat.ofDigitChars_nil, Text.decimal]
    by_cases hne : digits = []
    · subst hne
      rw [Nat.ofDigitChars_nil, Nat.mul_zero, Nat.zero_add, Nat.toDigits_of_lt_base hlt, hchar]
      rfl
    · obtain ⟨hdecimal, hhead⟩ := h.of_concat hne
      have hdigits := ih hdecimal
      have hpos : 0 < Nat.ofDigitChars 10 digits 0 := by
        refine Nat.pos_of_ne_zero fun hzero => hhead ?_
        rw [← hdigits, hzero]
        rfl
      rw [← Nat.toDigits_append_toDigits (by decide) hpos hlt, Nat.toDigits_of_lt_base hlt, hchar]
      exact congrArg (· ++ [c]) hdigits

namespace Numeral

/-! ### Writing -/

/-- What follows the whole digits. -/
def fractionText : Option Text → Text
  | none => []
  | some digits => '.' :: digits

def exponentText : Option (Bool × Text) → Text
  | none => []
  | some (negative, digits) => 'e' :: (if negative then '-' else '+') :: digits

/-- The numeral by its parts. -/
def text (n : Numeral) : Text :=
  (if n.negative then ['-'] else []) ++
    (n.whole ++ (fractionText n.fraction ++ exponentText n.exponent))

/-- A numeral whose parts can be read. -/
structure WellFormed (n : Numeral) : Prop where
  whole : IsDecimal n.whole
  fraction : ∀ digits ∈ n.fraction, IsDigits digits
  exponent : ∀ e ∈ n.exponent, IsDigits e.2

theorem wellFormed_whole (negative : Bool) (h : IsDecimal digits) :
    WellFormed ⟨negative, digits, none, none⟩ :=
  ⟨h, nofun, nofun⟩

/-- A character that a numeral goes on with. -/
def continues (c : Char) : Bool := c.isDigit || c == '.' || c == 'e' || c == 'E'

/-- Numerals are written with digits, signs, a point and a mark. -/
theorem mem_text {n : Numeral} (h : n.WellFormed) {c : Char} (hc : c ∈ n.text) :
    c.isDigit ∨ c ∈ ['-', '+', '.', 'e'] := by
  rcases List.mem_append.1 hc with hc | hc
  · split_ifs at hc
    · exact .inr (by simp_all)
    · contradiction
  rcases List.mem_append.1 hc with hc | hc
  · exact .inl (h.whole.isDigit c hc)
  rcases List.mem_append.1 hc with hc | hc
  · cases hf : n.fraction with
    | none => simp [hf, fractionText] at hc
    | some digits =>
      rw [hf] at hc
      rcases List.mem_cons.1 hc with rfl | hc
      · exact .inr (by simp)
      · exact .inl ((h.fraction digits hf).isDigit c hc)
  · cases he : n.exponent with
    | none => simp [he, exponentText] at hc
    | some e =>
      rw [he] at hc
      rcases List.mem_cons.1 hc with rfl | hc
      · exact .inr (by simp)
      rcases List.mem_cons.1 hc with rfl | hc
      · exact .inr (by split_ifs <;> simp)
      · exact .inl ((h.exponent e he).isDigit c hc)

/-! ### Reading -/

theorem isDigit_of_continues {c : Char} (h : continues c = false) : c.isDigit = false := by
  simp only [continues, Bool.or_eq_false_iff] at h
  exact h.1.1.1

theorem readDigits?_append (h : IsDigits digits) (hr : ∀ c ∈ rest.head?, c.isDigit = false) :
    readDigits? (digits ++ rest) = some (digits, rest) := by
  obtain ⟨htake, hdrop⟩ := Text.span_run h.isDigit hr
  rw [readDigits?, htake, hdrop, if_neg h.ne_nil]

theorem readWhole?_append (h : IsDecimal digits) (hr : ∀ c ∈ rest.head?, c.isDigit = false) :
    readWhole? (digits ++ rest) = some (digits, rest) := by
  have hz : ¬(digits.head? = some '0' ∧ digits ≠ ['0']) := fun hz => hz.2 (h.zero hz.1)
  rw [readWhole?, readDigits?_append h.toIsDigits hr]
  exact if_neg hz

theorem readFraction?_append {fraction : Option Text} (h : ∀ digits ∈ fraction, IsDigits digits)
    (hr : ∀ c ∈ rest.head?, c.isDigit = false ∧ c ≠ '.') :
    readFraction? (fractionText fraction ++ rest) = some (fraction, rest) := by
  cases fraction with
  | none =>
    rw [fractionText, List.nil_append, readFraction?.eq_def]
    split
    · exact absurd rfl (hr '.' (by simp)).2
    · rfl
  | some digits =>
    rw [fractionText, List.cons_append, readFraction?,
      readDigits?_append (h digits rfl) fun c hc => (hr c hc).1]
    rfl

theorem readExponent?_append {exponent : Option (Bool × Text)}
    (h : ∀ e ∈ exponent, IsDigits e.2) (hr : ∀ c ∈ rest.head?, continues c = false) :
    readExponent? (exponentText exponent ++ rest) = some (exponent, rest) := by
  cases exponent with
  | none =>
    rw [exponentText, List.nil_append]
    cases rest with
    | nil => rfl
    | cons c rest =>
      have hc := hr c rfl
      have hmark : ¬(c = 'e' ∨ c = 'E') := by
        rintro (rfl | rfl)
        · contradiction
        · contradiction
      rw [readExponent?, if_neg hmark]
  | some e =>
    obtain ⟨negative, digits⟩ := e
    have hdigits := readDigits?_append (h _ rfl) fun c hc => isDigit_of_continues (hr c hc)
    cases negative with
    | false => simp [exponentText, readExponent?, readSign, hdigits]
    | true => simp [exponentText, readExponent?, readSign, hdigits]

variable {n : Numeral}

/-- What follows a part of a numeral does not go on with digits, nor after a fraction with a
point. -/
theorem head?_exponentText (exponent : Option (Bool × Text))
    (hr : ∀ c ∈ rest.head?, continues c = false) :
    ∀ c ∈ (exponentText exponent ++ rest).head?, c.isDigit = false ∧ c ≠ '.' := by
  cases exponent with
  | none =>
    intro c hc
    have hcontinues := hr c hc
    refine ⟨isDigit_of_continues hcontinues, ?_⟩
    rintro rfl
    contradiction
  | some e =>
    rintro c ⟨⟩
    decide

theorem head?_fractionText (fraction : Option Text) (exponent : Option (Bool × Text))
    (hr : ∀ c ∈ rest.head?, continues c = false) :
    ∀ c ∈ (fractionText fraction ++ (exponentText exponent ++ rest)).head?, c.isDigit = false := by
  cases fraction with
  | none => exact fun c hc => (head?_exponentText exponent hr c hc).1
  | some digits =>
    rintro c ⟨⟩
    decide

/-- A numeral is written with a minus or a digit first. -/
theorem text_append_eq_cons (h : n.WellFormed) (rest : Text) :
    ∃ c t, n.text ++ rest = c :: t ∧ (c = '-' ∨ c.isDigit) := by
  obtain ⟨c, t, hc⟩ := List.exists_cons_of_ne_nil h.whole.ne_nil
  have hd := h.whole.isDigit c (by simp [hc])
  cases hn : n.negative with
  | false => exact ⟨c, _, by simp only [text, hn, hc]; rfl, .inr hd⟩
  | true => exact ⟨'-', _, by simp only [text, hn]; rfl, .inl rfl⟩

/-- A numeral is read as it was written, up to a character that would continue it. -/
theorem read?_text_append (h : n.WellFormed) (hr : ∀ c ∈ rest.head?, continues c = false) :
    read? (n.text ++ rest) = some (n, rest) := by
  obtain ⟨negative, whole, fraction, exponent⟩ := n
  have hwhole := readWhole?_append h.whole (head?_fractionText fraction exponent hr)
  have hfraction := readFraction?_append h.fraction (head?_exponentText exponent hr)
  have hexponent := readExponent?_append h.exponent hr
  dsimp only at hwhole hfraction hexponent
  cases negative with
  | true => simp [text, read?, hwhole, hfraction, hexponent]
  | false =>
    obtain ⟨c, t, hc⟩ := List.exists_cons_of_ne_nil h.whole.ne_nil
    dsimp only at hc
    subst hc
    have hd := h.whole.isDigit c List.mem_cons_self
    have hm : c ≠ '-' := by
      rintro rfl
      contradiction
    rw [List.cons_append] at hwhole
    simp [text, read?, hm, hwhole, hfraction, hexponent]

end Numeral

/-! ### Texts of values -/

namespace Shape

/-- A text is read as a shape wherever it stands, up to a character that goes on with a number. -/
def Written (t : Text) (s : Shape) : Prop :=
  ∀ bound rest, (∀ c ∈ rest.head?, Numeral.continues c = false) →
    read? (bound + 1) (t ++ rest) = some (s, rest)

/-- By itself it is the JSON text of what the shape stands for. -/
theorem Written.parse? {t : Text} {s : Shape} (h : Written t s) :
    Value.parse? t = s.value? Value.maxDepth := by
  have hread := h t.length [] (by simp)
  rw [List.append_nil] at hread
  simp [Value.parse?, Shape.parse?, hread, skipBlanks]

/-- What starts with a minus or a digit can only be a number. -/
theorem written_number {n : Numeral} (h : n.WellFormed) : Written n.text (.number n) := by
  intro bound rest hr
  have hread := Numeral.read?_text_append h hr
  obtain ⟨c, t, ht, hd⟩ := Numeral.text_append_eq_cons h rest
  have hne : ∀ d : Char, d ≠ '-' → ¬d.isDigit → c ≠ d := by
    rintro d h₁ h₂ rfl
    exact hd.elim h₁ h₂
  have hb : ¬isBlank c := by
    simp [isBlank, hne ' ', hne '\t', hne '\n', hne '\r']
  rw [ht] at hread ⊢
  simp only [read?, skipBlanks, List.dropWhile_cons_of_neg hb]
  split <;> simp_all

end Shape

end AssemblyInfo.Json
