import AssemblyInfo.Text.Uppercase
import Mathlib

/-! The upper-case mapping does nothing more the second time. The characters that it changes, and
those that its results start with, are runs of code points, and the runs of one kind are apart from
those of the other. -/

namespace AssemblyInfo.Text

/-- Code points `first`, `first + step`, ..., `last`. -/
structure CodeRun where
  first : Nat
  last : Nat
  step : Nat

namespace CodeRun

def contains (r : CodeRun) (n : Nat) : Bool :=
  r.first ≤ n && n ≤ r.last && (n - r.first) % r.step == 0

/-- Whether two runs are seen to have no code point in common: one ends before the other starts, or
they have different parities. -/
def apart (a b : CodeRun) : Bool :=
  a.last.blt b.first || b.last.blt a.first ||
    ((a.first == a.last || a.step == 2) && b.step == 2 && (a.first + b.first) % 2 == 1)

theorem contains_iff {r : CodeRun} {n : Nat} :
    r.contains n ↔ r.first ≤ n ∧ n ≤ r.last ∧ (n - r.first) % r.step = 0 := by
  simp [contains, and_assoc]

theorem not_contains_of_apart {a b : CodeRun} {n : Nat} (h : a.apart b) (ha : a.contains n) :
    ¬b.contains n := by
  intro hb
  rw [contains_iff] at ha hb
  simp only [apart, Bool.or_eq_true, Bool.and_eq_true, Nat.blt_eq, beq_iff_eq] at h
  obtain ⟨ha₁, ha₂, ha₃⟩ := ha
  obtain ⟨hb₁, hb₂, hb₃⟩ := hb
  rcases h with (h | h) | ⟨⟨h | h, hstep⟩, hparity⟩
  · omega
  · omega
  · rw [hstep] at hb₃
    omega
  · rw [hstep] at hb₃
    rw [h] at ha₃
    omega

end CodeRun

/-- The characters that have another upper-case form. -/
def lowerRuns : List CodeRun :=
  uppercaseRuns.map (fun (first, last, step, _) => ⟨first, last, step⟩) ++
    uppercaseExpansions.map fun (n, _) => ⟨n, n, 1⟩

/-- The first characters of these upper-case forms. -/
def upperRuns : List CodeRun :=
  uppercaseRuns.map (fun (first, last, step, shift) =>
    ⟨(first + shift).toNat, (last + shift).toNat, step⟩) ++
      uppercaseExpansions.map fun (_, ms) => ⟨ms.headD 0, ms.headD 0, 1⟩

theorem apart_of_mem {a b : CodeRun} (ha : a ∈ upperRuns) (hb : b ∈ lowerRuns) : a.apart b := by
  have h : upperRuns.all (fun a => lowerRuns.all a.apart) = true := by decide +kernel
  exact List.all_eq_true.1 (List.all_eq_true.1 h a ha) b hb

theorem isValidChar_of_mem {a : CodeRun} {n : Nat} (ha : a ∈ upperRuns) (hn : a.contains n) :
    n.isValidChar := by
  have h : upperRuns.all (fun a => a.last.blt 0xD800 ||
      (Nat.blt 0xDFFF a.first && a.last.blt 0x110000)) = true := by decide +kernel
  have h := List.all_eq_true.1 h a ha
  simp only [Bool.or_eq_true, Bool.and_eq_true, Nat.blt_eq] at h
  rw [CodeRun.contains_iff] at hn
  rw [Nat.isValidChar]
  omega

theorem uppercase_eq_self {c : Char} (h : ∀ b ∈ lowerRuns, ¬b.contains c.toNat) :
    uppercase c = [c] := by
  have hexpansions : uppercaseExpansions.lookup c.toNat = none := by
    rw [List.lookup_eq_none_iff]
    intro p hp
    have hb := h _ (List.mem_append_right _ (List.mem_map_of_mem hp))
    rw [bne_iff_ne]
    intro heq
    simp [CodeRun.contains, heq] at hb
  have hruns : uppercaseRuns.find? (fun (first, last, step, _) =>
      first ≤ c.toNat && c.toNat ≤ last && (c.toNat - first) % step == 0) = none := by
    rw [List.find?_eq_none]
    intro r hr
    exact h _ (List.mem_append_left _ (List.mem_map_of_mem hr))
  simp only [uppercase, hexpansions, hruns]

/-- The upper-case forms of one character. -/
def shiftedRuns : List CodeRun :=
  uppercaseRuns.map fun (first, last, step, shift) =>
    ⟨(first + shift).toNat, (last + shift).toNat, step⟩

/-- The form of a character is the character itself, a shifted one, or an expansion. -/
theorem uppercase_shape (c : Char) :
    uppercase c = [c] ∨
      (∃ n, uppercase c = [Char.ofNat n] ∧ ∃ a ∈ shiftedRuns, a.contains n) ∨
      ∃ ms, uppercase c = ms.map Char.ofNat ∧ (c.toNat, ms) ∈ uppercaseExpansions := by
  unfold uppercase
  dsimp only
  split
  · next ms hms =>
    obtain ⟨before, after, htable, -⟩ := List.lookup_eq_some_iff.1 hms
    exact .inr (.inr ⟨ms, rfl, by simp [htable]⟩)
  · split
    · next first last step shift hfind =>
      have hmem := List.mem_of_find?_eq_some hfind
      have hruns := List.find?_some hfind
      simp only [Bool.and_eq_true, decide_eq_true_eq, beq_iff_eq] at hruns
      have hpos : uppercaseRuns.all (fun (first, _, _, shift) => 0 ≤ first + shift) = true := by
        decide +kernel
      have hpos : 0 ≤ first + shift := by simpa using List.all_eq_true.1 hpos _ hmem
      refine .inr (.inl ⟨_, rfl, ⟨(first + shift).toNat, (last + shift).toNat, step⟩,
        List.mem_map.2 ⟨_, hmem, rfl⟩, ?_⟩)
      obtain ⟨⟨hfirst, hlast⟩, hstep⟩ := hruns
      have hshift : (c.toNat + shift).toNat - (first + shift).toNat = c.toNat - first := by omega
      rw [CodeRun.contains_iff]
      dsimp only
      rw [hshift]
      exact ⟨by omega, by omega, hstep⟩
    · exact .inl rfl

/-- A character is its own upper-case form, or that form starts with a character of an upper run. -/
theorem uppercase_cases (c : Char) :
    uppercase c = [c] ∨
      ∃ n t, uppercase c = Char.ofNat n :: t ∧ ∃ a ∈ upperRuns, a.contains n := by
  rcases uppercase_shape c with h | ⟨n, h, a, ha, hn⟩ | ⟨ms, h, hms⟩
  · exact .inl h
  · exact .inr ⟨n, [], h, a, List.mem_append_left _ ha, hn⟩
  · have hne : uppercaseExpansions.all (fun p => !p.2.isEmpty) = true := by decide +kernel
    cases ms with
    | nil => exact absurd (List.all_eq_true.1 hne _ hms) (by simp)
    | cons n ms =>
      refine .inr ⟨n, ms.map Char.ofNat, h, ⟨n, n, 1⟩, ?_, by simp [CodeRun.contains]⟩
      exact List.mem_append_right _ (List.mem_map.2 ⟨_, hms, rfl⟩)

theorem uppercase_ne_nil (c : Char) : uppercase c ≠ [] := by
  rcases uppercase_cases c with h | ⟨n, t, h, -⟩
  · simp [h]
  · simp [h]

/-- The first character of an upper-case form is its own upper-case form. -/
theorem uppercase_head {c d : Char} {t : Text} (h : uppercase c = d :: t) : uppercase d = [d] := by
  rcases uppercase_cases c with hc | ⟨n, t', hn, a, ha, hcontains⟩
  · rw [hc] at h
    obtain ⟨rfl, -⟩ := List.cons.inj h
    exact hc
  · rw [hn] at h
    obtain ⟨rfl, -⟩ := List.cons.inj h
    apply uppercase_eq_self
    intro b hb
    rw [Char.toNat_ofNat, if_pos (isValidChar_of_mem ha hcontains)]
    exact CodeRun.not_contains_of_apart (apart_of_mem ha hb) hcontains

theorem capitalize_capitalize (t : Text) : t.capitalize.capitalize = t.capitalize := by
  cases t with
  | nil => rfl
  | cons c t =>
    obtain ⟨d, r, hd⟩ := List.exists_cons_of_ne_nil (uppercase_ne_nil c)
    simp [capitalize, hd, uppercase_head hd]

end AssemblyInfo.Text
