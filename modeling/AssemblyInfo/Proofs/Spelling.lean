import AssemblyInfo.Proofs.Literal
import AssemblyInfo.Proofs.LiteralForm

/-! The inside of quoted strings. It spells a text character by character, from left to right: some
characters stand for themselves, the others are written as escapes. The reader of JSON strings
accepts what spells a text in its escapes, and nothing else, and gives the text that is spelled. -/

namespace AssemblyInfo.Json

/-- The inside of quotes and the text that it spells. A character stands for itself or is escaped:
by one sign after a backslash, or by its 16-bit unit or its two units in hexadecimal digits. -/
inductive Spells (self : Char → Prop) (short : Char → Option Char) : Text → Text → Prop where
  | nil : Spells self short [] []
  | self {c : Char} {t s : Text} (stands : self c) (rest : Spells self short t s) :
      Spells self short (c :: t) (c :: s)
  | short {e c : Char} {t s : Text} (stands : short e = some c) (rest : Spells self short t s) :
      Spells self short ('\\' :: e :: t) (c :: s)
  | unit {a b c d : Char} {n : Nat} {t s : Text} (digits : unit? a b c d = some n)
      (high : ¬isHighSurrogate n) (low : ¬isLowSurrogate n) (rest : Spells self short t s) :
      Spells self short ('\\' :: 'u' :: a :: b :: c :: d :: t) (Char.ofNat n :: s)
  | pair {a b c d a' b' c' d' : Char} {n m : Nat} {t s : Text} (digits : unit? a b c d = some n)
      (digits' : unit? a' b' c' d' = some m) (high : isHighSurrogate n) (low : isLowSurrogate m)
      (rest : Spells self short t s) :
      Spells self short
        ('\\' :: 'u' :: a :: b :: c :: d :: '\\' :: 'u' :: a' :: b' :: c' :: d' :: t)
        (Char.ofNat (0x10000 + (n - 0xD800) * 0x400 + (m - 0xDC00)) :: s)

/-- A character that stands for itself in a JSON string. -/
def IsPlain (c : Char) : Prop := c ≠ '"' ∧ c ≠ '\\' ∧ 0x20 ≤ c.toNat

/-- The inside of a JSON string and the text that it spells. -/
abbrev SpellsString : Text → Text → Prop := Spells IsPlain unescape?

variable {self : Char → Prop} {short : Char → Option Char} {t s s' rest : Text}

/-- At most one text is spelled. -/
theorem Spells.unique (hself : ∀ c, self c → c ≠ '\\') (hshort : short 'u' = none)
    (h : Spells self short t s) (h' : Spells self short t s') : s = s' := by
  induction h generalizing s' with
  | nil =>
    cases h'
    rfl
  | self hc _ ih =>
    cases h' with
    | self _ h' => rw [ih h']
    | short => exact absurd rfl (hself _ hc)
    | unit => exact absurd rfl (hself _ hc)
    | pair => exact absurd rfl (hself _ hc)
  | short he _ ih =>
    cases h' with
    | self hc => exact absurd rfl (hself _ hc)
    | short he' h' => rw [ih h', Option.some.inj (he.symm.trans he')]
    | unit => simp [hshort] at he
    | pair => simp [hshort] at he
  | unit hn hhigh _ _ ih =>
    cases h' with
    | self hc => exact absurd rfl (hself _ hc)
    | short he => simp [hshort] at he
    | unit hn' _ _ h' => rw [ih h', Option.some.inj (hn.symm.trans hn')]
    | pair hn' _ hhigh' =>
      rw [Option.some.inj (hn.symm.trans hn')] at hhigh
      exact absurd hhigh' hhigh
  | pair hn hm hhigh _ _ ih =>
    cases h' with
    | self hc => exact absurd rfl (hself _ hc)
    | short he => simp [hshort] at he
    | unit hn' hhigh' =>
      rw [Option.some.inj (hn.symm.trans hn')] at hhigh
      exact absurd hhigh hhigh'
    | pair hn' hm' _ _ h' =>
      rw [ih h', Option.some.inj (hn.symm.trans hn'), Option.some.inj (hm.symm.trans hm')]

/-! ### The reader of JSON strings -/

/-- The reader stops at a quote, or takes a character, a short escape or a unit. -/
theorem readPieces?_cases {ps : List Piece} (h : readPieces? t = some (ps, rest)) :
    (t = '"' :: rest ∧ ps = []) ∨
      (∃ c u qs, t = c :: u ∧ IsPlain c ∧ ps = .char c :: qs ∧
        readPieces? u = some (qs, rest)) ∨
      (∃ e c u qs, t = '\\' :: e :: u ∧ unescape? e = some c ∧ ps = .char c :: qs ∧
        readPieces? u = some (qs, rest)) ∨
      ∃ a b c d n u qs, t = '\\' :: 'u' :: a :: b :: c :: d :: u ∧ unit? a b c d = some n ∧
        ps = .unit n :: qs ∧ readPieces? u = some (qs, rest) := by
  rw [readPieces?.eq_def] at h
  split at h
  · contradiction
  · next c u =>
    split_ifs at h with hquote hbackslash hcontrol
    · cases h
      exact .inl ⟨by rw [hquote], rfl⟩
    · subst hbackslash
      split at h
      · next a b c d u =>
        obtain ⟨n, hn, h⟩ := Option.bind_eq_some_iff.1 h
        obtain ⟨qs, hps, hu⟩ := Text.exists_of_map_cons h
        exact .inr (.inr (.inr ⟨a, b, c, d, n, u, qs, rfl, hn, hps, hu⟩))
      · next e u _ =>
        obtain ⟨c, hc, h⟩ := Option.bind_eq_some_iff.1 h
        obtain ⟨qs, hps, hu⟩ := Text.exists_of_map_cons h
        exact .inr (.inr (.inl ⟨e, c, u, qs, rfl, hc, hps, hu⟩))
      · contradiction
    · obtain ⟨qs, hps, hu⟩ := Text.exists_of_map_cons h
      exact .inr (.inl ⟨c, u, qs, rfl, ⟨hquote, hbackslash, Nat.not_lt.1 hcontrol⟩, hps, hu⟩)

/-- A unit is read from its hexadecimal digits. -/
theorem exists_of_readPieces?_unit {n : Nat} {qs : List Piece}
    (h : readPieces? t = some (.unit n :: qs, rest)) :
    ∃ a b c d u, t = '\\' :: 'u' :: a :: b :: c :: d :: u ∧ unit? a b c d = some n ∧
      readPieces? u = some (qs, rest) := by
  rcases readPieces?_cases h with ⟨-, hps⟩ | ⟨c, u, qs, -, -, hps, -⟩ |
    ⟨e, c, u, qs, -, -, hps, -⟩ | ⟨a, b, c, d, n, u, qs, ht, hn, hps, hu⟩
  · contradiction
  · cases hps
  · cases hps
  · cases hps
    exact ⟨a, b, c, d, u, ht, hn, hu⟩

/-- What the reader takes up to the quote spells the text that the pieces join to. -/
theorem exists_spells_of_readPieces? {ps : List Piece} (h : readPieces? t = some (ps, rest))
    (hs : joinPieces? ps = some s) : ∃ u, t = u ++ '"' :: rest ∧ SpellsString u s := by
  fun_induction joinPieces? ps generalizing t s with
  | case1 =>
    cases hs
    rcases readPieces?_cases h with ⟨ht, -⟩ | ⟨_, _, _, -, -, hps, -⟩ |
      ⟨_, _, _, _, -, -, hps, -⟩ | ⟨_, _, _, _, _, _, _, -, -, hps, -⟩
    · exact ⟨[], ht, .nil⟩
    · contradiction
    · contradiction
    · contradiction
  | case2 c qs ih =>
    obtain ⟨v, hv, rfl⟩ := Option.map_eq_some_iff.1 hs
    rcases readPieces?_cases h with ⟨-, hps⟩ | ⟨c, u, qs, rfl, hc, hps, hu⟩ |
      ⟨e, c, u, qs, rfl, he, hps, hu⟩ | ⟨_, _, _, _, _, _, _, -, -, hps, -⟩
    · contradiction
    · cases hps
      obtain ⟨w, rfl, hw⟩ := ih hu hv
      exact ⟨c :: w, rfl, .self hc hw⟩
    · cases hps
      obtain ⟨w, rfl, hw⟩ := ih hu hv
      exact ⟨'\\' :: e :: w, rfl, .short he hw⟩
    · cases hps
  | case3 n hhigh m qs hlow ih =>
    obtain ⟨v, hv, rfl⟩ := Option.map_eq_some_iff.1 hs
    obtain ⟨a, b, c, d, u, rfl, hn, h⟩ := exists_of_readPieces?_unit h
    obtain ⟨a', b', c', d', u, rfl, hm, h⟩ := exists_of_readPieces?_unit h
    obtain ⟨u, rfl, hu⟩ := ih h hv
    exact ⟨'\\' :: 'u' :: a :: b :: c :: d :: '\\' :: 'u' :: a' :: b' :: c' :: d' :: u, rfl,
      .pair hn hm hhigh hlow hu⟩
  | case4 => contradiction
  | case5 => contradiction
  | case6 => contradiction
  | case7 n qs hhigh hlow ih =>
    obtain ⟨v, hv, rfl⟩ := Option.map_eq_some_iff.1 hs
    obtain ⟨a, b, c, d, u, rfl, hn, h⟩ := exists_of_readPieces?_unit h
    obtain ⟨u, rfl, hu⟩ := ih h hv
    exact ⟨'\\' :: 'u' :: a :: b :: c :: d :: u, rfl, .unit hn hhigh hlow hu⟩

/-- What spells a text is read up to the quote as pieces that join to it. -/
theorem Spells.exists_readPieces? (h : SpellsString t s) (rest : Text) :
    ∃ ps, readPieces? (t ++ '"' :: rest) = some (ps, rest) ∧ joinPieces? ps = some s := by
  induction h with
  | nil => exact ⟨[], by simp [readPieces?.eq_def], rfl⟩
  | @self c t s hc _ ih =>
    obtain ⟨ps, hps, hs⟩ := ih
    obtain ⟨hquote, hbackslash, hcontrol⟩ := hc
    refine ⟨.char c :: ps, ?_, by simp [joinPieces?, hs]⟩
    rw [List.cons_append, readPieces?.eq_def]
    simp [hquote, hbackslash, Nat.not_lt.2 hcontrol, hps]
  | @short e c t s he _ ih =>
    obtain ⟨ps, hps, hs⟩ := ih
    refine ⟨.char c :: ps, ?_, by simp [joinPieces?, hs]⟩
    have hne : e ≠ 'u' := by
      rintro rfl
      contradiction
    rw [List.cons_append, List.cons_append, readPieces?.eq_def]
    simp [he, hps, hne]
  | @unit a b c d n t s hn hhigh hlow _ ih =>
    obtain ⟨ps, hps, hs⟩ := ih
    refine ⟨.unit n :: ps, ?_, by simp [joinPieces?.eq_def (_ :: ps), hhigh, hlow, hs]⟩
    simp [readPieces?, hn, hps]
  | @pair a b c d a' b' c' d' n m t s hn hm hhigh hlow _ ih =>
    obtain ⟨ps, hps, hs⟩ := ih
    refine ⟨.unit n :: .unit m :: ps, ?_, by simp [joinPieces?, hhigh, hlow, hs]⟩
    simp [readPieces?, hn, hm, hps]

/-! ### Texts in quotes -/

theorem Value.parse?_cons_quote (t : Text) : Value.parse? ('"' :: t) =
    (readPieces? t).bind fun r =>
      if Shape.skipBlanks r.2 = [] then (joinPieces? r.1).map .string else none := by
  have hread : Shape.read? (('"' :: t).length + 1) ('"' :: t) =
      (readPieces? t).map fun r => (.string r.1, r.2) := by
    simp [Shape.read?, Shape.skipBlanks, Shape.isBlank]
  rw [Value.parse?, Shape.parse?, hread]
  cases readPieces? t with
  | none => rfl
  | some r =>
    by_cases hr : Shape.skipBlanks r.2 = []
    · simp [hr, Shape.value?]
    · simp [hr]

/-- A text in quotes is a JSON text if and only if its inside spells a text, and then its value is
the string of that text. -/
theorem Value.parse?_quoted {j : Value} :
    Value.parse? ('"' :: (t ++ ['"'])) = some j ↔ ∃ s, j = .string s ∧ SpellsString t s := by
  rw [parse?_cons_quote]
  constructor
  · intro h
    obtain ⟨⟨ps, rest⟩, hps, h⟩ := Option.bind_eq_some_iff.1 h
    dsimp only at h
    split_ifs at h with hrest
    obtain ⟨s, hs, rfl⟩ := Option.map_eq_some_iff.1 h
    obtain ⟨u, ht, hu⟩ := exists_spells_of_readPieces? hps hs
    -- the quote at the end is not a blank, so the string is closed by it
    rcases List.eq_nil_or_concat rest with rfl | ⟨r, c, rfl⟩
    · obtain rfl := List.append_cancel_right ht
      exact ⟨s, rfl, hu⟩
    · rw [List.concat_eq_append, ← List.cons_append, ← List.append_assoc] at ht
      obtain rfl : '"' = c := List.singleton_inj.1 (List.append_inj' ht rfl).2
      have hblank : Shape.isBlank '"' := List.dropWhile_eq_nil_iff.1 hrest '"' (by simp)
      exact absurd hblank (by decide)
  · rintro ⟨s, rfl, h⟩
    obtain ⟨ps, hps, hs⟩ := h.exists_readPieces? []
    have hblanks : Shape.skipBlanks [] = [] := rfl
    rw [hps, Option.bind_some, if_pos hblanks, hs, Option.map_some]

/-- Every text is spelled by its escaped characters. -/
theorem spells_flatMap_escape (s : Text) : SpellsString (s.flatMap escape) s := by
  obtain ⟨s', hs', h⟩ := Value.parse?_quoted.1 (parse?_quote s)
  cases hs'
  exact h

end AssemblyInfo.Json
