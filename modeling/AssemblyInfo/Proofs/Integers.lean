import AssemblyInfo.Proofs.Decimals
import AssemblyInfo.Proofs.Literal

/-! Integers read and written again. The text of an integer of 64 bits comes back as it was, since
the digits of a number are the only ones that it is read from. Every other integer, and the negative
zero, is kept as a float, and comes back with a point or an exponent. -/

namespace AssemblyInfo

namespace Json

/-- The text of an integer: the digits of a natural number, with a minus in front or not. -/
inductive IsInteger : Text → Prop
  | natural {digits : Text} (h : IsDecimal digits) : IsInteger digits
  | negative {digits : Text} (h : IsDecimal digits) : IsInteger ('-' :: digits)

/-- The integer that such a text stands for. -/
def integerOf : Text → Int
  | '-' :: digits => -(Nat.ofDigitChars 10 digits 0 : Nat)
  | digits => Nat.ofDigitChars 10 digits 0

/-- Whether a text is kept as an integer: it is of 64 bits, signed if negative, and no negative
zero. -/
def IsKept (t : Text) : Prop :=
  t ≠ "-0".toList ∧ -(topBit : Int) ≤ integerOf t ∧ integerOf t < wordCount

variable {t digits : Text}

theorem integerOf_natural (h : IsDecimal digits) :
    integerOf digits = Nat.ofDigitChars 10 digits 0 := by
  unfold integerOf
  split
  · exact absurd (h.isDigit '-' (by simp)) (by decide)
  · rfl

theorem IsDecimal.eq_zero (h : IsDecimal digits) (hz : Nat.ofDigitChars 10 digits 0 = 0) :
    digits = ['0'] := by
  rw [← decimal_ofDigitChars h, hz]
  rfl

/-- The text of an integer is the way in which the integer is written. -/
theorem writeInt_integerOf (h : IsInteger t) (hz : t ≠ "-0".toList) :
    writeInt (integerOf t) = t := by
  cases h with
  | natural h =>
    rw [integerOf_natural h, writeInt, if_neg (by omega), Int.natAbs_natCast,
      decimal_ofDigitChars h]
  | @negative digits h =>
    have hpos : 0 < Nat.ofDigitChars 10 digits 0 := by
      refine Nat.pos_of_ne_zero fun hzero => hz ?_
      rw [h.eq_zero hzero]
      rfl
    rw [integerOf, writeInt, if_pos (by omega), Int.natAbs_neg, Int.natAbs_natCast,
      decimal_ofDigitChars h]

theorem Numeral.number?_eq_float? {n : Numeral}
    (h : (n.negative ∧ Nat.ofDigitChars 10 n.whole 0 = 0) ∨
      Number.ofInt? (if n.negative then -(Nat.ofDigitChars 10 n.whole 0 : Int)
        else Nat.ofDigitChars 10 n.whole 0) = none) : n.number? = n.float? := by
  rw [number?]
  by_cases hfloat : n.fraction.isSome ∨ n.exponent.isSome ∨
      (n.negative ∧ Nat.ofDigitChars 10 n.whole 0 = 0)
  · exact if_pos hfloat
  · have hnone := h.resolve_left fun hz => hfloat (.inr (.inr hz))
    refine (if_neg hfloat).trans ?_
    rw [hnone, Option.none_or]

/-- What is not kept as an integer stands for a float. -/
theorem IsInteger.exists_numeral (h : IsInteger t) :
    ∃ n : Numeral, n.WellFormed ∧ n.text = t ∧ (¬IsKept t → n.number? = n.float?) := by
  have hrange (hkept : ¬IsKept t) (hz : t ≠ "-0".toList) : Number.ofInt? (integerOf t) = none :=
    dif_neg fun hrange => hkept ⟨hz, hrange⟩
  cases h with
  | natural h =>
    refine ⟨⟨false, t, none, none⟩, Numeral.wellFormed_whole _ h, ?_, fun hkept => ?_⟩
    · simp [Numeral.text, Numeral.fractionText, Numeral.exponentText]
    · have hz : t ≠ "-0".toList := by
        rintro rfl
        exact absurd (h.isDigit '-' (by simp)) (by decide)
      have hnone := hrange hkept hz
      rw [integerOf_natural h] at hnone
      exact Numeral.number?_eq_float? (.inr hnone)
  | @negative digits h =>
    refine ⟨⟨true, digits, none, none⟩, Numeral.wellFormed_whole _ h, ?_, fun hkept => ?_⟩
    · simp [Numeral.text, Numeral.fractionText, Numeral.exponentText]
    · by_cases hzero : Nat.ofDigitChars 10 digits 0 = 0
      · exact Numeral.number?_eq_float? (.inl ⟨rfl, hzero⟩)
      · have hz : '-' :: digits ≠ "-0".toList := by
          intro heq
          obtain rfl : digits = ['0'] := (List.cons.inj heq).2
          exact hzero rfl
        exact Numeral.number?_eq_float? (.inr (hrange hkept hz))

theorem IsInteger.isDigit_or_minus (h : IsInteger t) : ∀ c ∈ t, c.isDigit ∨ c = '-' := by
  cases h with
  | natural h => exact fun c hc => .inl (h.isDigit c hc)
  | negative h => exact List.forall_mem_cons.2 ⟨.inr rfl, fun c hc => .inl (h.isDigit c hc)⟩

theorem IsInteger.not_mem (h : IsInteger t) {c : Char} (hd : c.isDigit = false) (hm : c ≠ '-') :
    c ∉ t := by
  intro hc
  rcases h.isDigit_or_minus c hc with h | h
  · rw [hd] at h
    contradiction
  · exact hm h

/-- A float is written with a point or an exponent. -/
theorem Number.point_or_mark_mem_write (negative : Bool) (m : Binary64.Magnitude) :
    '.' ∈ (Number.float negative m).write ∨ 'e' ∈ (Number.float negative m).write := by
  obtain ⟨n, -, htext, hpart⟩ := Number.exists_numeral negative m
  rw [← htext, Numeral.text]
  rcases hpart with h | h
  · obtain ⟨digits, hdigits⟩ := Option.isSome_iff_exists.1 h
    exact .inl (by simp [hdigits, Numeral.fractionText])
  · obtain ⟨⟨sign, digits⟩, hexponent⟩ := Option.isSome_iff_exists.1 h
    exact .inr (by simp [hexponent, Numeral.exponentText])

example : (Number.ofBits? 0x3FF0000000000000).map Number.write = some "1.0".toList := by
  decide +kernel

example : (Number.ofBits? 0x4341C37937E08000).map Number.write = some "1e+16".toList := by
  decide +kernel

end Json

namespace Value

open Json (IsInteger IsKept integerOf)

/-- What is not kept as an integer is read as a float, if it is read at all. -/
theorem exists_float_of_decode {t : Text} {v : Value} (h : IsInteger t) (hkept : ¬IsKept t)
    (hv : decode t = .ok v) : ∃ negative m, v = .number (.float negative m) := by
  obtain ⟨n, hn, htext, hfloat⟩ := h.exists_numeral
  have hplain : ∀ c ∈ t, isPlainChar c := by
    intro c hc
    rcases h.isDigit_or_minus c hc with hd | rfl
    · simp [isPlainChar, Char.isAlphanum, hd]
    · rfl
  rw [decode_bare (fun c hc => isBlank_of_isPlainChar (hplain c hc)) (h.not_mem rfl (by decide)),
    ← htext, (Json.Shape.written_number hn).parse?, Json.Shape.value?, hfloat hkept] at hv
  cases hnumber : n.float? with
  | none =>
    rw [hnumber] at hv
    contradiction
  | some number =>
    rw [hnumber] at hv
    cases hv
    obtain ⟨m, rfl⟩ := Json.Numeral.eq_float_of_float? hnumber
    exact ⟨n.negative, m, rfl⟩

/-- The text of an integer that is kept comes back as it was. Any other one comes back, if it is
accepted at all, with a point or an exponent, which no integer has. -/
theorem decode_integer {t : Text} (h : IsInteger t) :
    (IsKept t → ∃ low high, decode t = .ok (.number (.integer (integerOf t) low high)) ∧
      decode t >>= encode = .ok t) ∧
    (¬IsKept t → ∀ v, decode t = .ok v → ∃ literal, v.encode = .ok literal ∧ literal ≠ t ∧
      ('.' ∈ literal ∨ 'e' ∈ literal)) := by
  constructor
  · rintro ⟨hz, low, high⟩
    have hwrite : (Json.Number.integer (integerOf t) low high).write = t :=
      Json.writeInt_integerOf h hz
    have hencode : (Value.number (.integer (integerOf t) low high)).encode = .ok t := by
      rw [encode, hwrite]
    have hdecode := decode_literal rfl hencode
    refine ⟨low, high, hdecode, ?_⟩
    rw [hdecode]
    exact hencode
  · intro hkept v hv
    obtain ⟨negative, m, rfl⟩ := exists_float_of_decode h hkept hv
    have hmark := Json.Number.point_or_mark_mem_write negative m
    refine ⟨_, rfl, ?_, hmark⟩
    intro heq
    rw [heq] at hmark
    exact hmark.elim (h.not_mem rfl (by decide)) (h.not_mem rfl (by decide))

/-- The largest integer that is kept, and the one after it. -/
theorem decode_integer_largest :
    decode "18446744073709551615".toList >>= encode = .ok "18446744073709551615".toList ∧
      ∃ v literal, decode "18446744073709551616".toList = .ok v ∧ v.encode = .ok literal ∧
        ('.' ∈ literal ∨ 'e' ∈ literal) := by
  have hinteger {t : Text} (n : Nat) (h : Text.decimal n = t) : IsInteger t :=
    h ▸ .natural (Json.isDecimal_decimal n)
  constructor
  · have hkept : IsKept "18446744073709551615".toList :=
      ⟨by decide, by decide +kernel, by decide +kernel⟩
    obtain ⟨-, -, -, h⟩ :=
      (decode_integer (hinteger 18446744073709551615 (by decide +kernel))).1 hkept
    exact h
  · have hv : decode "18446744073709551616".toList =
        .ok (.number (.float false ⟨1087 * Binary64.binade, by decide⟩)) := by
      decide +kernel
    have hkept : ¬IsKept "18446744073709551616".toList :=
      fun hkept => absurd hkept.2.2 (by decide +kernel)
    obtain ⟨literal, hl, -, hmark⟩ :=
      (decode_integer (hinteger 18446744073709551616 (by decide +kernel))).2 hkept _ hv
    exact ⟨_, literal, hv, hl, hmark⟩

/-- The negative zero does not come back as it was. -/
theorem decode_integer_negative_zero :
    ¬∀ t, IsInteger t → ∀ v, decode t = .ok v → v.encode = .ok t := by
  intro h
  have hv : decode "-0".toList = .ok (.number (.float true .zero)) := by decide +kernel
  have hencode : (Value.number (.float true .zero)).encode = .ok "-0.0".toList := by decide +kernel
  have hsame := h _ (.negative (Json.isDecimal_decimal 0)) _ hv
  rw [hencode] at hsame
  exact absurd hsame (by decide)

end Value

end AssemblyInfo
