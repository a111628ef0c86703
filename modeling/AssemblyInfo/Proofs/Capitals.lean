import AssemblyInfo.Proofs.Text
import AssemblyInfo.Proofs.Uppercase

/-! Classes of characters and their upper-case forms. A form has no blanks and does not start with a
digit, and the form of a letter is made of letters. The exceptions are letters that have no capital
with their diacritics: the form is a capital and the diacritics, which are no letters. -/

namespace AssemblyInfo.Text

variable {c d : Char}

/-- What holds of the character and of all forms in the tables holds of its own form. -/
theorem forall_mem_uppercase {P : Char → Prop} (hc : P c)
    (hshifted : ∀ a ∈ shiftedRuns, ∀ n, a.contains n → P (Char.ofNat n))
    (hexpanded : ∀ ms, (c.toNat, ms) ∈ uppercaseExpansions → ∀ n ∈ ms, P (Char.ofNat n)) :
    ∀ d ∈ uppercase c, P d := by
  rcases uppercase_shape c with h | ⟨n, h, a, ha, hn⟩ | ⟨ms, h, hms⟩
  · rw [h]
    exact List.forall_mem_singleton.2 hc
  · rw [h]
    exact List.forall_mem_singleton.2 (hshifted a ha n hn)
  · rw [h]
    exact List.forall_mem_map.2 (hexpanded ms hms)

theorem toNat_ofNat_of_contains {a : CodeRun} {n : Nat} (ha : a ∈ shiftedRuns)
    (hn : a.contains n) : (Char.ofNat n).toNat = n := by
  rw [Char.toNat_ofNat, if_pos (isValidChar_of_mem (List.mem_append_left _ ha) hn)]

/-! ### Blanks -/

theorem isBlank_of_mem_uppercase (hc : isBlank c = false) (hd : d ∈ uppercase c) :
    isBlank d = false := by
  refine forall_mem_uppercase (P := fun d => isBlank d = false) hc ?_ ?_ d hd
  · intro a ha n hn
    by_contra hblank
    have hcovers : covers blankRanges n := by
      rw [isBlank, toNat_ofNat_of_contains ha hn] at hblank
      simpa using hblank
    obtain ⟨r, hr, hlow, hhigh⟩ := exists_range_of_covers hcovers
    have hapart : ∀ a ∈ shiftedRuns, ∀ r ∈ blankRanges, a.last < r.1 ∨ r.2 < a.first := by
      decide +kernel
    have hrange := hapart a ha r hr
    rw [CodeRun.contains_iff] at hn
    omega
  · intro ms hms
    have hall : ∀ p ∈ uppercaseExpansions, ∀ n ∈ p.2, isBlank (Char.ofNat n) = false := by
      decide +kernel
    exact hall _ hms

/-- A capitalized text has no blanks that it did not have before. -/
theorem isBlank_of_mem_capitalize {t : Text} (h : ∀ c ∈ t, isBlank c = false) :
    ∀ c ∈ t.capitalize, isBlank c = false := by
  cases t with
  | nil => simp [capitalize]
  | cons c t =>
    intro d hd
    rcases List.mem_append.1 hd with hd | hd
    · exact isBlank_of_mem_uppercase (h c List.mem_cons_self) hd
    · exact h d (List.mem_cons_of_mem c hd)

/-! ### Identifiers -/

/-- Whether one of the ranges holds all from `first` to `last`. -/
def coversRun : List (Nat × Nat) → (first last : Nat) → Bool
  | [], _, _ => false
  | (low, high) :: ranges, first, last =>
    !first.blt low && (last.ble high || coversRun ranges first last)

theorem covers_of_coversRun {ranges : List (Nat × Nat)} {first last n : Nat}
    (h : coversRun ranges first last) (hfirst : first ≤ n) (hlast : n ≤ last) :
    covers ranges n := by
  induction ranges with
  | nil => contradiction
  | cons r ranges ih =>
    obtain ⟨low, high⟩ := r
    simp only [coversRun, Bool.and_eq_true, Bool.not_eq_true', Bool.or_eq_true, Nat.ble_eq,
      ← Bool.not_eq_true, Nat.blt_eq, Nat.not_lt] at h
    rw [covers, if_neg (Nat.not_lt.2 (h.1.trans hfirst))]
    simp only [Bool.or_eq_true, decide_eq_true_eq]
    exact h.2.imp hlast.trans ih

/-- Whether all code points of a run lie in the ranges: most runs do so with all that is between
them. -/
def CodeRun.liesIn (ranges : List (Nat × Nat)) (a : CodeRun) : Bool :=
  coversRun ranges a.first a.last ||
    (List.range (a.last + 1 - a.first)).all fun i => i % a.step != 0 || covers ranges (a.first + i)

theorem CodeRun.covers_of_liesIn {ranges : List (Nat × Nat)} {a : CodeRun} {n : Nat}
    (h : a.liesIn ranges) (hn : a.contains n) : covers ranges n := by
  obtain ⟨hfirst, hlast, hstep⟩ := contains_iff.1 hn
  rcases Bool.or_eq_true_iff.1 h with h | h
  · exact covers_of_coversRun h hfirst hlast
  · have hmem : n - a.first ∈ List.range (a.last + 1 - a.first) := List.mem_range.2 (by omega)
    have hcovers := List.all_eq_true.1 h _ hmem
    rwa [hstep, Nat.add_sub_cancel' hfirst] at hcovers

/-- Letters whose upper-case form has a diacritic that is no character of identifiers. -/
def markedLetters : List Nat :=
  [0x1F0, 0x390, 0x3B0, 0x1E96, 0x1E97, 0x1E98, 0x1E99, 0x1F50, 0x1F52, 0x1F54, 0x1F56, 0x1FB6,
   0x1FB7, 0x1FC6, 0x1FC7, 0x1FD2, 0x1FD3, 0x1FD6, 0x1FD7, 0x1FE2, 0x1FE3, 0x1FE4, 0x1FE6, 0x1FE7,
   0x1FF6, 0x1FF7]

theorem isIdentifierChar_of_mem_uppercase (hc : isIdentifierChar c) (hm : c.toNat ∉ markedLetters)
    (hd : d ∈ uppercase c) : isIdentifierChar d := by
  refine forall_mem_uppercase (P := fun d => isIdentifierChar d) hc ?_ ?_ d hd
  · intro a ha n hn
    have hall : shiftedRuns.all (CodeRun.liesIn alphanumericRanges) = true := by decide +kernel
    have hcovers := CodeRun.covers_of_liesIn (List.all_eq_true.1 hall a ha) hn
    rw [← toNat_ofNat_of_contains ha hn] at hcovers
    simp only [isIdentifierChar, isAlphanumeric, hcovers, Bool.true_or]
  · intro ms hms
    have hall : uppercaseExpansions.all (fun p => markedLetters.elem p.1 ||
        p.2.all fun n => isIdentifierChar (Char.ofNat n)) = true := by
      decide +kernel
    have hp := List.all_eq_true.1 hall _ hms
    simp only [Bool.or_eq_true, List.elem_eq_mem, decide_eq_true_eq, hm, false_or] at hp
    exact List.all_eq_true.1 hp

/-- The form of a marked letter is no identifier. -/
theorem exists_mem_uppercase_of_mem (hm : c.toNat ∈ markedLetters) :
    ∃ d ∈ uppercase c, isIdentifierChar d = false := by
  have hall : markedLetters.all (fun n =>
      (uppercase (Char.ofNat n)).any fun d => !isIdentifierChar d) = true := by
    decide +kernel
  have h := List.all_eq_true.1 hall c.toNat hm
  rw [Char.ofNat_toNat] at h
  simpa using h

/-- No form starts with a digit, but that of the digit. -/
theorem isDigit_head_uppercase {t : Text} (hc : c.isDigit = false) (h : uppercase c = d :: t) :
    d.isDigit = false := by
  rcases uppercase_cases c with hself | ⟨n, t', hn, a, ha, hcontains⟩
  · rw [hself] at h
    obtain ⟨rfl, -⟩ := List.cons.inj h
    exact hc
  · rw [hn] at h
    obtain ⟨rfl, -⟩ := List.cons.inj h
    have hapart : ∀ a ∈ upperRuns, a.last < 0x30 ∨ 0x39 < a.first := by decide +kernel
    have hrange := hapart a ha
    have hvalue : (Char.ofNat n).toNat = n := by
      rw [Char.toNat_ofNat, if_pos (isValidChar_of_mem ha hcontains)]
    rw [CodeRun.contains_iff] at hcontains
    by_contra hdigit
    have hlow : 0x30 ≤ (Char.ofNat n).toNat ∧ (Char.ofNat n).toNat ≤ 0x39 := by
      simpa [Char.isDigit, UInt32.le_iff_toNat_le] using hdigit
    omega

end AssemblyInfo.Text
