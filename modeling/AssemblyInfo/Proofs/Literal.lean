import AssemblyInfo.Proofs.Numerals
import AssemblyInfo.Value

/-! Literals read back. The literal of a boolean, of an integer or of a string is read as the value
that it was written for. The reading of a string goes through pieces: each character of the text
gives one piece, and the pieces join to the text. -/

namespace AssemblyInfo

namespace Json

/-! ### Strings -/

/-- What a character between quotes is read as. -/
def Piece.ofChar (c : Char) : Piece :=
  if c.toNat < 0x20 ∧ c ∉ ['\x08', '\x0c', '\n', '\r', '\t'] then .unit c.toNat else .char c

theorem unit?_digits : ∀ n < 0x20,
    unit? '0' '0' (Nat.digitChar (n / 16)) (Nat.digitChar (n % 16)) = some n := by
  decide

theorem readPieces?_escape (c : Char) (r : Text) :
    readPieces? (escape c ++ r) = (readPieces? r).map (Prod.map (Piece.ofChar c :: ·) id) := by
  unfold escape
  split_ifs with h₁ h₂ h₃ h₄ h₅ h₆ h₇ h₈
  · subst h₁
    rfl
  · subst h₂
    rfl
  · subst h₃
    rfl
  · subst h₄
    rfl
  · subst h₅
    rfl
  · subst h₆
    rfl
  · subst h₇
    rfl
  · have hp : Piece.ofChar c = .unit c.toNat := by simp [Piece.ofChar, *]
    simp [readPieces?, unit?_digits _ h₈, hp]
  · have hp : Piece.ofChar c = .char c := by simp [Piece.ofChar, h₈]
    rw [hp, readPieces?.eq_def]
    simp [h₁, h₂, h₈]

theorem joinPieces?_ofChar (c : Char) (ps : List Piece) :
    joinPieces? (Piece.ofChar c :: ps) = (joinPieces? ps).map (c :: ·) := by
  unfold Piece.ofChar
  split_ifs with h
  · have hh : isHighSurrogate c.toNat = false := by simp [isHighSurrogate]; omega
    have hl : isLowSurrogate c.toNat = false := by simp [isLowSurrogate]; omega
    rw [joinPieces?.eq_def]
    simp [hh, hl, Char.ofNat_toNat]
  · rfl

theorem readPieces?_flatMap_escape (t rest : Text) :
    readPieces? (t.flatMap escape ++ '"' :: rest) = some (t.map Piece.ofChar, rest) := by
  induction t with
  | nil => simp [readPieces?.eq_def]
  | cons c t ih =>
    rw [List.flatMap_cons, List.append_assoc, readPieces?_escape, ih]
    rfl

theorem joinPieces?_map_ofChar (t : Text) : joinPieces? (t.map Piece.ofChar) = some t := by
  induction t with
  | nil => rfl
  | cons c t ih => rw [List.map_cons, joinPieces?_ofChar, ih, Option.map_some]

theorem Shape.written_quote (t : Text) : Written (quote t) (.string (t.map Piece.ofChar)) := by
  intro bound rest _
  have hread := readPieces?_flatMap_escape t rest
  simp [quote, read?, skipBlanks, isBlank, hread]

theorem parse?_quote (t : Text) : Value.parse? (quote t) = some (.string t) := by
  simp [(Shape.written_quote t).parse?, Shape.value?, joinPieces?_map_ofChar]

/-- No escape holds a closing parenthesis. -/
theorem parenthesis_mem_escape {c : Char} (h : ')' ∈ escape c) : c = ')' := by
  have hdigits : ∀ n < 0x20, Nat.digitChar (n / 16) ≠ ')' ∧ Nat.digitChar (n % 16) ≠ ')' := by
    decide
  unfold escape at h
  split_ifs at h with h₁ h₂ h₃ h₄ h₅ h₆ h₇ h₈
  iterate 7
    · exact absurd h (by decide)
  · obtain ⟨ha, hb⟩ := hdigits _ h₈
    simp [ha.symm, hb.symm] at h
  · exact (List.mem_singleton.1 h).symm

theorem parenthesis_not_mem_quote {t : Text} (h : ')' ∉ t) : ')' ∉ quote t := by
  intro hm
  have hm : ')' ∈ t.flatMap escape := by simpa [quote] using hm
  obtain ⟨c, hc, he⟩ := List.mem_flatMap.1 hm
  exact h (parenthesis_mem_escape he ▸ hc)

/-- Escapes keep control characters out of quotes. -/
theorem le_toNat_of_mem_escape {c d : Char} (h : d ∈ escape c) : 0x20 ≤ d.toNat := by
  have hdigits : ∀ n < 0x20, 0x20 ≤ (Nat.digitChar (n / 16)).toNat ∧
      0x20 ≤ (Nat.digitChar (n % 16)).toNat := by
    decide
  have hshort (l : Text) (hl : l.all fun e => 0x20 ≤ e.toNat) (hd : d ∈ l) : 0x20 ≤ d.toNat := by
    simpa using List.all_eq_true.1 hl d hd
  unfold escape at h
  split_ifs at h with h₁ h₂ h₃ h₄ h₅ h₆ h₇ h₈
  iterate 7
    · exact hshort _ (by decide) h
  · obtain ⟨ha, hb⟩ := hdigits _ h₈
    exact hshort _ (by simp [ha, hb]) h
  · rw [List.mem_singleton.1 h]
    omega

theorem le_toNat_of_mem_quote {t : Text} {c : Char} (h : c ∈ quote t) : 0x20 ≤ c.toNat := by
  simp only [quote, List.cons_append, List.mem_cons, List.mem_append, List.mem_flatMap,
    List.not_mem_nil, or_false] at h
  rcases h with rfl | ⟨d, -, hd⟩ | rfl
  · decide
  · exact le_toNat_of_mem_escape hd
  · decide

/-! ### Integers -/

/-- An integer as it is written. -/
def writeInt (n : Int) : Text :=
  if n < 0 then '-' :: Text.decimal n.natAbs else Text.decimal n.natAbs

/-- The numeral of an integer. -/
def Numeral.ofInt (n : Int) : Numeral where
  negative := decide (n < 0)
  whole := Text.decimal n.natAbs
  fraction := none
  exponent := none

theorem Numeral.wellFormed_ofInt (n : Int) : (ofInt n).WellFormed :=
  wellFormed_whole _ (isDecimal_decimal n.natAbs)

theorem Numeral.text_ofInt (n : Int) : (ofInt n).text = writeInt n := by
  unfold writeInt
  split_ifs with h
  · simp [text, ofInt, fractionText, exponentText, h]
  · simp [text, ofInt, fractionText, exponentText, h]

theorem Numeral.number?_ofInt (n : Int) (low : -(topBit : Int) ≤ n) (high : n < wordCount) :
    (ofInt n).number? = some (.integer n low high) := by
  have hv : Nat.ofDigitChars 10 (Text.decimal n.natAbs) 0 = n.natAbs :=
    Nat.ofDigitChars_ten_toDigits
  have hz : ¬(n < 0 ∧ n = 0) := by omega
  have hn : (if n < 0 then -(n.natAbs : Int) else n.natAbs) = n := by split <;> omega
  have hi : Number.ofInt? n = some (.integer n low high) := dif_pos ⟨low, high⟩
  simp only [number?, ofInt, hv, Option.isSome_none, Bool.false_eq_true, decide_eq_true_eq,
    Int.natAbs_eq_zero, hz, or_self, if_false, hn, hi, Option.some_or]

theorem parse?_writeInt (n : Int) (low : -(topBit : Int) ≤ n) (high : n < wordCount) :
    Value.parse? (writeInt n) = some (.number (.integer n low high)) := by
  rw [← Numeral.text_ofInt, (Shape.written_number (Numeral.wellFormed_ofInt n)).parse?,
    Shape.value?, Numeral.number?_ofInt n low high, Option.map_some]

end Json

/-! ### Values -/

namespace Value

/-- Whether the literal of a value is sure to give the value back: it is a boolean, an integer or a
string, neither null nor a float. -/
def isExact : Value → Bool
  | .bool _ | .number (.integer _ _ _) | .string _ => true
  | .null | .number (.float _ _) => false

theorem exists_encode {v : Value} (hv : v.isExact) : ∃ literal, v.encode = .ok literal := by
  cases v with
  | null => contradiction
  | bool b => cases b <;> exact ⟨_, rfl⟩
  | number n => exact ⟨_, rfl⟩
  | string t => exact ⟨_, rfl⟩

/-- A character of the literal of a boolean or an integer. -/
def isPlainChar (c : Char) : Bool := c.isAlphanum || c == '-'

theorem isPlainChar_of_mem_writeInt {n : Int} {c : Char} (h : c ∈ Json.writeInt n) :
    isPlainChar c := by
  have hd : ∀ c ∈ Text.decimal n.natAbs, isPlainChar c := by
    intro c hc
    have : c.isDigit := Nat.isDigit_of_mem_toDigits (by decide) (by decide) hc
    simp [isPlainChar, Char.isAlphanum, this]
  unfold Json.writeInt at h
  split_ifs at h
  · rcases List.mem_cons.1 h with rfl | h
    · rfl
    · exact hd c h
  · exact hd c h

/-- Literals of strings are in quotes, those of booleans and integers are plain. -/
theorem literal_cases {v : Value} {literal : Text} (hv : v.isExact) (h : v.encode = .ok literal) :
    (∃ t, v = .string t ∧ literal = Json.quote t) ∨
      literal ≠ [] ∧ (∀ c ∈ literal, isPlainChar c) ∧
        ∃ j, Json.Value.parse? literal = some j ∧ ofJson j = .ok v := by
  cases v with
  | null => contradiction
  | bool b =>
    right
    cases b with
    | false =>
      cases h
      exact ⟨by decide, List.all_eq_true.1 (by decide), .bool false, rfl, rfl⟩
    | true =>
      cases h
      exact ⟨by decide, List.all_eq_true.1 (by decide), .bool true, rfl, rfl⟩
  | number n =>
    cases n with
    | float negative m => contradiction
    | integer n low high =>
      right
      cases h
      refine ⟨?_, ?_, .number (.integer n low high), Json.parse?_writeInt n low high, rfl⟩
      · change Json.writeInt n ≠ []
        unfold Json.writeInt
        split_ifs
        · simp
        · exact Nat.toDigits_ne_nil
      · intro c hc
        exact isPlainChar_of_mem_writeInt hc
  | string t =>
    cases h
    exact .inl ⟨t, rfl, rfl⟩

theorem literal_ne_nil {v : Value} {literal : Text} (hv : v.isExact) (h : v.encode = .ok literal) :
    literal ≠ [] := by
  rcases literal_cases hv h with ⟨t, -, rfl⟩ | ⟨hne, -⟩
  · exact List.cons_ne_nil _ _
  · exact hne

theorem isBlank_of_isPlainChar {c : Char} (h : isPlainChar c) : Text.isBlank c = false := by
  simp only [isPlainChar, Bool.or_eq_true, beq_iff_eq] at h
  rcases h with h | rfl
  · exact Text.isBlank_of_isAlphanum h
  · decide

theorem trim_literal {v : Value} {literal : Text} (hv : v.isExact) (h : v.encode = .ok literal) :
    literal.trim = literal := by
  rcases literal_cases hv h with ⟨t, -, rfl⟩ | ⟨-, hp, -⟩
  · exact Text.trim_quoted (by decide) _
  · exact Text.trim_of_no_blank fun c hc => isBlank_of_isPlainChar (hp c hc)

/-- A text without blanks and single quotes is read as it is. -/
theorem decode_bare {t : Text} (hb : ∀ c ∈ t, Text.isBlank c = false) (hq : '\'' ∉ t) :
    decode t = match Json.Value.parse? t with
      | none => .error (.notLiteral t)
      | some j =>
        match ofJson j with
        | .ok v => .ok v
        | .error _ => .error (.notLiteral t) := by
  have hjson : jsonText? t = some t := by
    rw [jsonText?.eq_def]
    split
    · simp at hq
    · rfl
  cases hj : Json.Value.parse? t with
  | none => simp only [decode, Text.trim_of_no_blank hb, hjson, hj]
  | some j =>
    cases ho : ofJson j with
    | ok v => simp only [decode, Text.trim_of_no_blank hb, hjson, hj, ho]
    | error e => simp only [decode, Text.trim_of_no_blank hb, hjson, hj, ho]

/-- Reading undoes writing. -/
theorem decode_literal {v : Value} {literal : Text} (hv : v.isExact) (h : v.encode = .ok literal) :
    decode literal = .ok v := by
  have htrim := trim_literal hv h
  rcases literal_cases hv h with ⟨t, rfl, rfl⟩ | ⟨-, hp, j, hj, ho⟩
  · have hjson : jsonText? (Json.quote t) = some (Json.quote t) := rfl
    simp only [decode, htrim, hjson, Json.parse?_quote]
    rfl
  · have hq : '\'' ∉ literal := fun hm => absurd (hp _ hm) (by decide)
    simp only [decode_bare (fun c hc => isBlank_of_isPlainChar (hp c hc)) hq, hj, ho]

theorem le_toNat_of_isPlainChar {c : Char} (h : isPlainChar c) : 0x20 ≤ c.toNat := by
  by_contra hlt
  exact Text.ascii_induction (P := fun c => c.toNat < 0x20 → ¬isPlainChar c) (by decide +kernel)
    (by omega) (by omega) h

/-- A literal has no control characters. -/
theorem le_toNat_of_mem_literal {v : Value} {literal : Text} (hv : v.isExact)
    (h : v.encode = .ok literal) : ∀ c ∈ literal, 0x20 ≤ c.toNat := by
  intro c hc
  rcases literal_cases hv h with ⟨t, -, rfl⟩ | ⟨-, hp, -⟩
  · exact Json.le_toNat_of_mem_quote hc
  · exact le_toNat_of_isPlainChar (hp c hc)

/-- Blanks around a literal do not matter. -/
theorem decode_blanks {a b : Text} (ha : ∀ c ∈ a, Text.isBlank c) (hb : ∀ c ∈ b, Text.isBlank c)
    (t : Text) : decode (a ++ t ++ b) = decode t := by
  rw [decode, Text.trim_blanks ha hb, decode]

/-- The literal of a boolean, an integer or a string is read as the same value, with blanks around
it or not, and has no control characters. It is the normal form of every text that is read as the
value: written and read again, the text gives the same value and then the same literal. -/
theorem decode_normalForm {v : Value} (hv : v.isExact) :
    ∃ literal, v.encode = .ok literal ∧ (∀ c ∈ literal, 0x20 ≤ c.toNat) ∧
      (∀ before after, (∀ c ∈ before, Text.isBlank c) → (∀ c ∈ after, Text.isBlank c) →
        decode (before ++ literal ++ after) = .ok v) ∧
      ∀ t, decode t = .ok v →
        decode t >>= encode = .ok literal ∧
        decode t >>= encode >>= decode = decode t ∧
        decode t >>= encode >>= decode >>= encode = .ok literal := by
  obtain ⟨literal, hl⟩ := exists_encode hv
  have hdecode := decode_literal hv hl
  refine ⟨literal, hl, le_toNat_of_mem_literal hv hl, ?_, ?_⟩
  · intro before after hbefore hafter
    rw [decode_blanks hbefore hafter, hdecode]
  · intro t ht
    have hwritten : decode t >>= encode = .ok literal := by
      rw [ht]
      exact hl
    have hagain : decode t >>= encode >>= decode = .ok v := by
      rw [hwritten]
      exact hdecode
    refine ⟨hwritten, hagain.trans ht.symm, ?_⟩
    rw [hagain]
    exact hl

/-- A string that begins with a single quote and ends with a line feed, and the least integer. -/
theorem decode_normalForm_escapes :
    (∃ literal, (Value.string "'\n".toList).encode = .ok literal ∧
      decode ("\u00a0\n".toList ++ literal ++ "\t ".toList) = .ok (.string "'\n".toList) ∧
      decode "'\\'\\n' ".toList >>= encode = .ok literal) ∧
    ∃ literal, (Value.number (.integer (-0x8000000000000000) (by decide) (by decide))).encode =
        .ok literal ∧
      decode (" ".toList ++ literal ++ []) =
        .ok (.number (.integer (-0x8000000000000000) (by decide) (by decide))) := by
  constructor
  · obtain ⟨literal, hl, -, hblanks, hnormal⟩ := decode_normalForm (v := .string "'\n".toList) rfl
    exact ⟨literal, hl, hblanks _ _ (List.all_eq_true.1 (by decide))
      (List.all_eq_true.1 (by decide)), (hnormal _ (by decide +kernel)).1⟩
  · obtain ⟨literal, hl, -, hblanks, -⟩ :=
      decode_normalForm (v := .number (.integer (-0x8000000000000000) (by decide) (by decide))) rfl
    exact ⟨literal, hl, hblanks _ _ (List.all_eq_true.1 (by decide)) (by simp)⟩

end Value

end AssemblyInfo
