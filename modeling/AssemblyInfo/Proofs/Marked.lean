import AssemblyInfo.Text.Basic
import Mathlib

/-! Texts in which some pieces stand as single symbols. Two ways to cut a source into plain pieces
and declarations that differ only in how the plain pieces are cut are the same marked text. -/

namespace AssemblyInfo

/-- A text of characters and items. -/
abbrev Marked (α : Type) := List (Char ⊕ α)

namespace Marked

variable {α : Type}

/-- A text without items. -/
def plain (t : Text) : Marked α := t.map .inl

/-- The text with each item written out. -/
def text (write : α → Text) (w : Marked α) : Text := w.flatMap (Sum.elim (fun c => [c]) write)

/-- The items in order. -/
def items (w : Marked α) : List α := w.filterMap Sum.getRight?

variable (write : α → Text) (a : α) (t : Text) (w w' : Marked α)

@[simp] theorem plain_nil : plain (α := α) [] = [] := rfl

@[simp] theorem plain_cons (c : Char) : plain (α := α) (c :: t) = .inl c :: plain t := rfl

@[simp] theorem plain_append (s : Text) : plain (α := α) (s ++ t) = plain s ++ plain t :=
  List.map_append

@[simp] theorem text_nil : text write [] = [] := rfl

@[simp] theorem text_append : text write (w ++ w') = text write w ++ text write w' :=
  List.flatMap_append

@[simp] theorem text_inl (c : Char) : text write (.inl c :: w) = c :: text write w := rfl

@[simp] theorem text_inr : text write (.inr a :: w) = write a ++ text write w := rfl

@[simp] theorem text_plain : text write (plain t) = t := by
  induction t with
  | nil => rfl
  | cons c t ih => exact congrArg (c :: ·) ih

theorem mem_items : a ∈ items w ↔ .inr a ∈ w := by
  simp [items, List.mem_filterMap, Sum.getRight?_eq_some_iff]

@[simp] theorem items_nil : items (α := α) [] = [] := rfl

@[simp] theorem items_append : items (w ++ w') = items w ++ items w' := List.filterMap_append

@[simp] theorem items_inl (c : Char) : items (.inl c :: w) = items w := rfl

@[simp] theorem items_inr : items (.inr a :: w) = a :: items w := rfl

@[simp] theorem items_plain : items (plain (α := α) t) = [] := by
  induction t with
  | nil => rfl
  | cons c t ih => exact ih

variable {write a t w w'}

theorem inr_not_mem_plain : Sum.inr a ∉ plain t := by
  simp [plain]

theorem mem_of_mem_plain_append (h : .inr a ∈ plain t ++ w) : .inr a ∈ w :=
  (List.mem_append.1 h).resolve_left inr_not_mem_plain

theorem plain_ne {b c : Marked α} : plain t ≠ b ++ .inr a :: c := by
  intro h
  have hm : Sum.inr a ∈ plain t := by simp [h]
  exact inr_not_mem_plain hm

/-- An item in a marked text that starts with plain text stands after that text. -/
theorem exists_of_plain_append_eq {b c : Marked α} (h : plain t ++ w = b ++ .inr a :: c) :
    ∃ b', b = plain t ++ b' ∧ w = b' ++ .inr a :: c := by
  rcases List.append_eq_append_iff.1 h with ⟨b', hb, hw⟩ | ⟨b', hb, hc⟩
  · exact ⟨b', hb, hw⟩
  · cases b' with
    | nil => exact ⟨[], by simpa using hb.symm, by simpa using hc.symm⟩
    | cons x b' =>
      cases hc
      exact absurd (hb ▸ List.mem_append_right b List.mem_cons_self) inr_not_mem_plain

/-- A marked text is plain, or plain up to its first item. -/
theorem eq_plain_or_first (w : Marked α) :
    (∃ t, w = plain t) ∨ ∃ t a w', w = plain t ++ .inr a :: w' := by
  induction w with
  | nil => exact .inl ⟨[], rfl⟩
  | cons x w ih =>
    cases x with
    | inr a => exact .inr ⟨[], a, w, rfl⟩
    | inl c =>
      rcases ih with ⟨t, rfl⟩ | ⟨t, a, w', rfl⟩
      · exact .inl ⟨c :: t, rfl⟩
      · exact .inr ⟨c :: t, a, w', rfl⟩

/-- The first item of a marked text stands in the same place after another item is changed. -/
theorem first_of_replace (b c : Marked α) (a a' : α) :
    ∃ t e e' w w', b ++ .inr a :: c = plain t ++ .inr e :: w ∧
      b ++ .inr a' :: c = plain t ++ .inr e' :: w' := by
  rcases eq_plain_or_first b with ⟨t, rfl⟩ | ⟨t, e, w, rfl⟩
  · exact ⟨t, a, a', c, c, rfl, rfl⟩
  · exact ⟨t, e, e, w ++ .inr a :: c, w ++ .inr a' :: c, by simp, by simp⟩

end Marked

end AssemblyInfo
