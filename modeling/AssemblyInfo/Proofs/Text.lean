import AssemblyInfo.Text.Alphanumeric
import AssemblyInfo.Text.Blank
import Mathlib

/-! Classes of characters, blanks at the ends of texts, and lines. -/

namespace AssemblyInfo.Text

/-! ### ASCII characters -/

/-- What holds of the first 128 characters, one by one, holds of each ASCII character. -/
theorem ascii_induction {P : Char → Prop} (h : ∀ n < 128, P (Char.ofNat n)) {c : Char}
    (hc : c.toNat < 128) : P c := by
  have := h c.toNat hc
  rwa [Char.ofNat_toNat] at this

theorem toNat_lt_of_isAlphanum {c : Char} (h : c.isAlphanum) : c.toNat < 128 := by
  simp only [Char.isAlphanum, Char.isAlpha, Char.isUpper, Char.isLower, Char.isDigit,
    Bool.or_eq_true, Bool.and_eq_true, decide_eq_true_eq, ge_iff_le, UInt32.le_iff_toNat_le] at h
  change c.val.toNat < 128
  rcases h with (h | h) | h
  · exact Nat.lt_of_le_of_lt h.2 (by decide)
  · exact Nat.lt_of_le_of_lt h.2 (by decide)
  · exact Nat.lt_of_le_of_lt h.2 (by decide)

theorem isBlank_of_isAlphanum {c : Char} (h : c.isAlphanum) : isBlank c = false :=
  ascii_induction (P := fun c => c.isAlphanum → isBlank c = false) (by decide)
    (toNat_lt_of_isAlphanum h) h

/-! ### Classes by ranges -/

theorem exists_range_of_covers {ranges : List (Nat × Nat)} {n : Nat} (h : covers ranges n) :
    ∃ r ∈ ranges, r.1 ≤ n ∧ n ≤ r.2 := by
  induction ranges with
  | nil => contradiction
  | cons r ranges ih =>
    obtain ⟨low, high⟩ := r
    rw [covers] at h
    split_ifs at h with hlow
    simp only [Bool.or_eq_true, decide_eq_true_eq] at h
    rcases h with h | h
    · exact ⟨(low, high), List.mem_cons_self, by omega, h⟩
    · obtain ⟨r, hr, hn⟩ := ih h
      exact ⟨r, List.mem_cons_of_mem _ hr, hn⟩

theorem isBlank_of_isAlphanumeric {c : Char} (h : isAlphanumeric c) : isBlank c = false := by
  by_contra hb
  obtain ⟨r, hr, h₁, h₂⟩ := exists_range_of_covers h
  obtain ⟨r', hr', h₃, h₄⟩ := exists_range_of_covers (by simpa using hb : isBlank c = true)
  have hdisjoint : ∀ r ∈ alphanumericRanges, ∀ r' ∈ blankRanges, r.2 < r'.1 ∨ r'.2 < r.1 := by
    decide +kernel
  have := hdisjoint r hr r' hr'
  omega

theorem isBlank_of_isIdentifierChar {c : Char} (h : isIdentifierChar c) : isBlank c = false := by
  simp only [isIdentifierChar, Bool.or_eq_true, beq_iff_eq] at h
  rcases h with (h | rfl) | rfl
  · exact isBlank_of_isAlphanumeric h
  · decide
  · decide

/-! ### Runs of characters -/

variable {p : Char → Bool} {run t : Text}

theorem not_mem_of_forall {c : Char} (h : ∀ d ∈ t, p d) (hc : p c = false) : c ∉ t := by
  intro hm
  rw [h c hm] at hc
  contradiction

/-- A run of characters of a class ends where a character of another class follows. -/
theorem span_run (h : ∀ c ∈ run, p c) (ht : ∀ c ∈ t.head?, p c = false) :
    (run ++ t).takeWhile p = run ∧ (run ++ t).dropWhile p = t := by
  rw [List.takeWhile_append_of_pos h, List.dropWhile_append_of_pos h]
  cases t with
  | nil => simp
  | cons c t =>
    have hc : ¬p c := by simp [ht c rfl]
    simp [hc]

theorem span_run_cons {c : Char} (h : ∀ d ∈ run, p d) (hc : p c = false) :
    (run ++ c :: t).takeWhile p = run ∧ (run ++ c :: t).dropWhile p = c :: t :=
  span_run h (by rintro d ⟨⟩; exact hc)

/-- A character that does not occur in the first part of a text stands after it. -/
theorem exists_of_append_eq_append_cons {u v a z : Text} {c : Char} (hc : c ∉ u)
    (h : u ++ v = a ++ c :: z) : ∃ b, a = u ++ b ∧ v = b ++ c :: z := by
  rcases List.append_eq_append_iff.1 h with ⟨b, hb, hv⟩ | ⟨b, hb, hz⟩
  · exact ⟨b, hb, hv⟩
  · cases b with
    | nil => exact ⟨[], by simpa using hb.symm, by simpa using hz.symm⟩
    | cons d b =>
      cases hz
      simp [hb] at hc

/-- A character that does not stand in the second part of a text stands in the first one. -/
theorem exists_of_append_cons_eq_append {u v a z : Text} {c : Char} (hc : c ∉ z)
    (h : u ++ c :: v = a ++ z) : ∃ b, a = u ++ c :: b ∧ v = b ++ z := by
  rcases List.append_eq_append_iff.1 h with ⟨b, rfl, hb⟩ | ⟨b, -, hb⟩
  · cases b with
    | nil =>
      rw [List.nil_append] at hb
      simp [← hb] at hc
    | cons d b =>
      obtain ⟨rfl, rfl⟩ := List.cons.inj hb
      exact ⟨b, rfl, rfl⟩
  · simp [hb] at hc

/-- The reading of a run does not go beyond a character of another class. -/
theorem span_append_cons {c : Char} (hc : p c = false) (u : Text) :
    (t ++ c :: u).takeWhile p = t.takeWhile p ∧
      (t ++ c :: u).dropWhile p = t.dropWhile p ++ c :: u := by
  induction t with
  | nil => simp [hc]
  | cons d t ih =>
    by_cases hd : p d
    · simp [hd, ih]
    · simp [hd]

/-- The reading of a word does not go beyond a character that the word does not have. -/
theorem isPrefixOf?_append_cons {word : Text} {c : Char} (hc : c ∉ word) (t u : Text) :
    word.isPrefixOf? (t ++ c :: u) = (word.isPrefixOf? t).map (· ++ c :: u) := by
  induction word generalizing t with
  | nil => rfl
  | cons w word ih =>
    simp only [List.mem_cons, not_or] at hc
    cases t with
    | nil => simp [List.isPrefixOf?, Ne.symm hc.1]
    | cons d t =>
      by_cases hd : w = d
      · simp [List.isPrefixOf?, hd, ih hc.2]
      · simp [List.isPrefixOf?, hd]

theorem suffix_of_isPrefixOf? {word r : Text} (h : word.isPrefixOf? t = some r) : r <:+ t :=
  ⟨word, List.isPrefixOf?_eq_some_iff_append_eq.1 h⟩

@[simp] theorem isPrefixOf?_append (word r : Text) : word.isPrefixOf? (word ++ r) = some r :=
  List.isPrefixOf?_eq_some_iff_append_eq.2 rfl

@[simp] theorem isPrefixOf?_singleton (c : Char) (t : Text) : [c].isPrefixOf? (c :: t) = some t :=
  isPrefixOf?_append [c] t

/-! ### Blanks at the ends -/

theorem trimEnd_of_not_isBlank {t : Text} {c : Char} (hc : isBlank c = false) :
    trimEnd (t ++ [c]) = t ++ [c] := by
  simp [trimEnd, hc]

/-- A text that neither starts nor ends with a blank is left as it is. -/
theorem trim_eq_self {t : Text} (hh : ∀ c t', t = c :: t' → isBlank c = false)
    (hl : ∀ t' c, t = t' ++ [c] → isBlank c = false) : trim t = t := by
  have hs : trimStart t = t := by
    cases t with
    | nil => rfl
    | cons c t => rw [trimStart, List.dropWhile_cons_of_neg (by simp [hh c t rfl])]
  rw [trim, hs]
  rcases List.eq_nil_or_concat' t with rfl | ⟨t', c, rfl⟩
  · rfl
  · exact trimEnd_of_not_isBlank (hl t' c rfl)

theorem trim_of_no_blank {t : Text} (h : ∀ c ∈ t, isBlank c = false) : trim t = t := by
  apply trim_eq_self
  · rintro c t' rfl
    exact h c (by simp)
  · rintro t' c rfl
    exact h c (by simp)

theorem trim_quoted {q : Char} (hq : isBlank q = false) (t : Text) :
    trim (q :: (t ++ [q])) = q :: (t ++ [q]) := by
  apply trim_eq_self
  · rintro c t' ht
    obtain ⟨rfl, -⟩ := List.cons.inj ht
    exact hq
  · rintro t' c ht
    rw [← List.cons_append] at ht
    obtain rfl : q = c := List.singleton_inj.1 (List.append_inj' ht rfl).2
    exact hq

theorem trim_cons_of_isBlank {c : Char} (t : Text) (hc : isBlank c) : trim (c :: t) = trim t := by
  rw [trim, trim, trimStart, List.dropWhile_cons_of_pos hc, trimStart]

theorem trimEnd_eq_nil_iff {t : Text} : trimEnd t = [] ↔ ∀ c ∈ t, isBlank c := by
  rw [trimEnd, List.reverse_eq_nil_iff, List.dropWhile_eq_nil_iff]
  simp

theorem trim_eq_nil_iff {t : Text} : trim t = [] ↔ ∀ c ∈ t, isBlank c := by
  rw [trim, trimEnd_eq_nil_iff]
  constructor
  · intro h
    rw [← List.dropWhile_eq_nil_iff, trimStart, List.dropWhile_idempotent] at h
    exact List.dropWhile_eq_nil_iff.1 h
  · intro h c hc
    exact h c ((List.dropWhile_sublist _).mem hc)

theorem isBlank_of_trim_eq_concat {t u : Text} {c : Char} (h : trim t = u ++ [c]) :
    isBlank c = false := by
  have hhead : (t.trimStart.reverse.dropWhile isBlank).head? = some c := by
    rw [trim, trimEnd] at h
    rw [← List.reverse_reverse (List.dropWhile _ _), h]
    simp
  have hnot := List.head?_dropWhile_not isBlank t.trimStart.reverse
  rw [hhead] at hnot
  exact hnot

/-- A text that does not end with a blank is not made of blanks only. -/
theorem eq_nil_of_isBlank {t : Text} (ht : ∀ u c, t = u ++ [c] → isBlank c = false)
    (h : ∀ c ∈ t, isBlank c) : t = [] := by
  rcases List.eq_nil_or_concat' t with hnil | ⟨u, c, hc⟩
  · exact hnil
  · have hblank := h c (by simp [hc])
    rw [ht u c hc] at hblank
    contradiction

/-- Blanks around a text are trimmed. -/
theorem trim_blanks {a b : Text} (ha : ∀ c ∈ a, isBlank c) (hb : ∀ c ∈ b, isBlank c) (t : Text) :
    trim (a ++ t ++ b) = trim t := by
  have hstart : trimStart (a ++ t ++ b) = trimStart (t ++ b) := by
    rw [trimStart, List.append_assoc, List.dropWhile_append_of_pos ha, trimStart]
  have hend (u : Text) : trimEnd (u ++ b) = trimEnd u := by
    rw [trimEnd, List.reverse_append, List.dropWhile_append_of_pos (by simpa using hb), trimEnd]
  rw [trim, hstart, trimStart, List.dropWhile_append]
  split_ifs with hnil
  · rw [List.isEmpty_iff] at hnil
    rw [trim, trimStart, hnil, List.dropWhile_eq_nil_iff.2 hb]
  · exact hend _

theorem trailingBlanks_append_cons {c : Char} (a b : Text) (hc : isBlank c = false) :
    trailingBlanks (a ++ c :: b) = trailingBlanks b := by
  unfold trailingBlanks
  congr 1
  rw [List.reverse_append, List.reverse_cons, List.append_assoc, List.takeWhile_append]
  split_ifs with h
  · have hb := List.takeWhile_eq_self_iff.1 (List.IsPrefix.eq_of_length (List.takeWhile_prefix _) h)
    rw [List.singleton_append, List.takeWhile_cons_of_neg (by simp [hc]), List.append_nil,
      List.takeWhile_eq_self_iff.2 hb]
  · rfl

/-! ### Lines -/

theorem cutLine_of_newline {l : Text} (hl : '\n' ∉ l) (u : Text) :
    cutLine (l ++ '\n' :: u) = (l ++ ['\n'], u) := by
  induction l with
  | nil => rfl
  | cons c l ih =>
    simp only [List.mem_cons, not_or] at hl
    rw [List.cons_append, cutLine, if_neg (Ne.symm hl.1), ih hl.2]
    rfl

theorem cutLine_of_not_mem {l : Text} (hl : '\n' ∉ l) : cutLine l = (l, []) := by
  induction l with
  | nil => rfl
  | cons c l ih =>
    simp only [List.mem_cons, not_or] at hl
    rw [cutLine, if_neg (Ne.symm hl.1), ih hl.2]

/-- A text is a single line, or a line with its line feed before the rest. -/
theorem eq_line_or_line_append (t : Text) :
    '\n' ∉ t ∨ ∃ l u, '\n' ∉ l ∧ t = l ++ '\n' :: u := by
  induction t with
  | nil => exact .inl List.not_mem_nil
  | cons c t ih =>
    by_cases hc : c = '\n'
    · exact .inr ⟨[], t, List.not_mem_nil, by rw [hc]; rfl⟩
    · rcases ih with h | ⟨l, u, hl, rfl⟩
      · exact .inl (by simp [Ne.symm hc, h])
      · exact .inr ⟨c :: l, u, by simp [Ne.symm hc, hl], rfl⟩

/-- A rest of a text that begins where a line begins. -/
def LineSuffix (s t : Text) : Prop := s = t ∨ ∃ a, t = a ++ '\n' :: s

theorem LineSuffix.of_append {a s u : Text} (h : LineSuffix s u) :
    LineSuffix s (a ++ '\n' :: u) := by
  rcases h with rfl | ⟨b, rfl⟩
  · exact .inr ⟨a, rfl⟩
  · exact .inr ⟨a ++ '\n' :: b, by simp⟩

/-- A rest that is one line lies after each line feed. -/
theorem LineSuffix.append {a s u : Text} (hs : '\n' ∉ s) (h : LineSuffix s (a ++ '\n' :: u)) :
    LineSuffix s u := by
  rcases h with rfl | ⟨b, hb⟩
  · simp at hs
  · rcases List.append_eq_append_iff.1 hb with ⟨c, rfl, hc⟩ | ⟨c, rfl, hc⟩
    · cases c with
      | nil => exact .inl (List.cons.inj hc).2.symm
      | cons x c => exact .inr ⟨c, (List.cons.inj hc).2⟩
    · cases c with
      | nil => exact .inl (List.cons.inj hc).2
      | cons x c =>
        obtain ⟨-, rfl⟩ := List.cons.inj hc
        simp at hs

/-- A rest that is one line lies in each rest. -/
theorem LineSuffix.of_lineSuffix {s t u : Text} (hs : '\n' ∉ s) (h : LineSuffix s t)
    (hu : LineSuffix u t) : LineSuffix s u := by
  rcases hu with rfl | ⟨a, rfl⟩
  · exact h
  · exact h.append hs

/-- What follows a line feed lies after the first line. -/
theorem lineSuffix_of_append_eq {a l s u : Text} (hl : '\n' ∉ l)
    (h : l ++ '\n' :: u = a ++ '\n' :: s) : LineSuffix s u := by
  obtain ⟨b, -, hb⟩ := exists_of_append_eq_append_cons hl h
  cases b with
  | nil => exact .inl (List.cons.inj hb).2.symm
  | cons x b => exact .inr ⟨b, (List.cons.inj hb).2⟩

theorem LineSuffix.eq_of_not_mem {s t : Text} (ht : '\n' ∉ t) (h : LineSuffix s t) : s = t := by
  rcases h with rfl | ⟨a, rfl⟩
  · rfl
  · simp at ht

/-! ### Splitting at a character -/

theorem splitAt?_of_not_mem {c : Char} {t : Text} (h : c ∉ t) : splitAt? c t = none := by
  induction t with
  | nil => rfl
  | cons d t ih =>
    obtain ⟨hd, ht⟩ := List.ne_and_not_mem_of_not_mem_cons h
    rw [splitAt?, if_neg (Ne.symm hd), ih ht]
    rfl

theorem splitAt?_append {c : Char} {s : Text} (h : c ∉ s) (t : Text) :
    splitAt? c (s ++ c :: t) = some (s, t) := by
  induction s with
  | nil => simp [splitAt?]
  | cons d s ih =>
    obtain ⟨hd, hs⟩ := List.ne_and_not_mem_of_not_mem_cons h
    rw [List.cons_append, splitAt?, if_neg (Ne.symm hd), ih hs]
    rfl

end AssemblyInfo.Text
