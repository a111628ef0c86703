import AssemblyInfo.Proofs.Relayout
import AssemblyInfo.Proofs.Slices

/-! The declarations of a source with their offsets, line by line. A line without a declaration only
moves the offset. A declaration is listed at the offset of its bracket, and the list goes on after
the line that it ends on. In JScript what follows a line feed is scanned as a source of its own. -/

namespace AssemblyInfo

open Segment (readIndented? cut declaration?)

/-- A line begins after the text. -/
def Text.LineStart (before : Text) : Prop := before = [] ∨ ∃ a, before = a ++ ['\n']

theorem Segment.filterMap_declaration?_addGap (start : Nat) (t : Text) (segments : List Segment) :
    (addGap start t segments).filterMap declaration? = segments.filterMap declaration? := by
  rw [addGap.eq_def]
  split
  · rfl
  · split
    · rfl
    · rfl

theorem Segment.Placed.stop_le {offset : Nat} {segments : List Segment}
    (h : Placed offset segments) : ∀ s ∈ segments.map slice,
      s.stop ≤ offset + Text.byteSize (segments.flatMap text) := by
  induction segments generalizing offset with
  | nil => simp
  | cons x segments ih =>
    obtain ⟨hx, -, hrest⟩ := h
    have hstop : x.slice.stop = offset + x.text.byteSize := by
      rw [Slice.stop, hx, text_slice]
    have hsize : Text.byteSize ((x :: segments).flatMap text) =
        x.text.byteSize + Text.byteSize (segments.flatMap text) := by
      rw [List.flatMap_cons, Text.byteSize_append]
    intro s hs
    rw [List.map_cons] at hs
    rcases List.mem_cons.1 hs with rfl | hs
    · omega
    · have := ih hrest s hs
      omega

namespace Declaration

/-- The declarations of a source from the start of a line, at a byte offset. -/
def scanFrom (dialect : Dialect) (offset : Nat) (t : Text) : List (Nat × Declaration) :=
  (cut dialect offset t).filterMap declaration?

variable {dialect : Dialect} {d : Declaration} {indent l u : Text}

theorem scanFrom_of_none {t : Text} (offset : Nat) (h : readIndented? dialect t = none) :
    scanFrom dialect offset t =
      scanFrom dialect (offset + t.cutLine.1.byteSize) t.cutLine.2 := by
  by_cases ht : t = []
  · subst ht
    rfl
  · rw [scanFrom, Segment.cut_of_none offset ht h]
    exact Segment.filterMap_declaration?_addGap _ _ _

theorem scanFrom_of_some {t rest : Text} (offset : Nat)
    (h : readIndented? dialect t = some (d, rest)) :
    scanFrom dialect offset t =
      (offset + Text.byteSize (t.takeWhile Text.isSpaceOrTab), d) ::
        scanFrom dialect (offset + Text.byteSize (t.takeWhile Text.isSpaceOrTab) +
          d.text.byteSize + rest.cutLine.1.byteSize) rest.cutLine.2 := by
  rw [scanFrom, Segment.cut_of_some offset h, Segment.filterMap_declaration?_addGap,
    List.filterMap_cons]
  simp only [declaration?, Segment.filterMap_declaration?_addGap]
  rfl

@[simp] theorem scanFrom_nil (dialect : Dialect) (offset : Nat) : scanFrom dialect offset [] = [] := by
  rw [scanFrom, Segment.cut_nil]
  rfl

/-! ### Lines -/

theorem scanFrom_last (offset : Nat) (hl : '\n' ∉ l) (h : readIndented? dialect l = none) :
    scanFrom dialect offset l = [] := by
  rw [scanFrom_of_none offset h, Text.cutLine_of_not_mem hl, scanFrom_nil]

theorem scanFrom_line (offset : Nat) (hl : '\n' ∉ l)
    (h : readIndented? dialect (l ++ '\n' :: u) = none) :
    scanFrom dialect offset (l ++ '\n' :: u) =
      scanFrom dialect (offset + Text.byteSize (l ++ ['\n'])) u := by
  rw [scanFrom_of_none offset h, Text.cutLine_of_newline hl]

theorem scanFrom_lastDeclaration (offset : Nat) (hi : ∀ c ∈ indent, Text.isSpaceOrTab c)
    (hl : '\n' ∉ l) (h : read? dialect (d.text ++ l) = some (d, l)) :
    scanFrom dialect offset (indent ++ (d.text ++ l)) = [(offset + indent.byteSize, d)] := by
  obtain ⟨hr, hindent⟩ := readIndented?_indent hi h
  rw [scanFrom_of_some offset hr, hindent, Text.cutLine_of_not_mem hl, scanFrom_nil]

theorem scanFrom_declaration (offset : Nat) (hi : ∀ c ∈ indent, Text.isSpaceOrTab c)
    (hl : '\n' ∉ l)
    (h : read? dialect (d.text ++ (l ++ '\n' :: u)) = some (d, l ++ '\n' :: u)) :
    scanFrom dialect offset (indent ++ (d.text ++ (l ++ '\n' :: u))) =
      (offset + indent.byteSize, d) ::
        scanFrom dialect (offset + Text.byteSize (indent ++ (d.text ++ (l ++ ['\n'])))) u := by
  obtain ⟨hr, hindent⟩ := readIndented?_indent hi h
  rw [scanFrom_of_some offset hr, hindent, Text.cutLine_of_newline hl]
  simp only [Text.byteSize_append, Nat.add_assoc]

/-! ### Offsets -/

/-- Declarations lie in the text that they are listed for. -/
theorem bounds_of_mem_scanFrom {offset : Nat} {t : Text} {p : Nat × Declaration}
    (h : p ∈ scanFrom dialect offset t) :
    offset ≤ p.1 ∧ p.1 + p.2.text.byteSize ≤ offset + t.byteSize := by
  obtain ⟨x, hx, hp⟩ := List.mem_filterMap.1 h
  have hplaced := Segment.placed_cut dialect offset t
  have hslice : x.slice = ⟨p.1, p.2.text⟩ := by
    cases x with
    | gap s => contradiction
    | declaration start d =>
      cases hp
      rfl
  have hmem : (⟨p.1, p.2.text⟩ : Slice) ∈ (cut dialect offset t).map Segment.slice :=
    List.mem_map.2 ⟨x, hx, hslice⟩
  have hstop := hplaced.stop_le _ hmem
  rw [Segment.flatMap_text_cut] at hstop
  exact ⟨(hplaced.lt_stop _ hmem).1, hstop⟩

/-- From a later offset the same declarations are listed, each as much later. -/
theorem scanFrom_add (shift offset : Nat) (t : Text) :
    scanFrom dialect (offset + shift) t =
      (scanFrom dialect offset t).map fun p => (p.1 + shift, p.2) := by
  induction hn : t.length using Nat.strongRecOn generalizing t offset with
  | ind n ih =>
  cases h : readIndented? dialect t with
  | none =>
    by_cases ht : t = []
    · subst ht
      rw [scanFrom_nil, scanFrom_nil, List.map_nil]
    · have hlt := Text.length_cutLine_lt ht
      rw [scanFrom_of_none _ h, scanFrom_of_none _ h, Nat.add_right_comm]
      exact ih _ (hn ▸ hlt) _ _ rfl
  | some r =>
    obtain ⟨d, rest⟩ := r
    have hlt : rest.cutLine.2.length < n :=
      hn ▸ (Text.length_cutLine_le rest).trans_lt (Segment.length_lt_of_readIndented? h)
    have hnext := ih _ hlt (offset + Text.byteSize (t.takeWhile Text.isSpaceOrTab) +
      d.text.byteSize + rest.cutLine.1.byteSize) _ rfl
    rw [scanFrom_of_some _ h, scanFrom_of_some _ h, List.map_cons, ← hnext]
    simp only [Nat.add_right_comm _ shift]

/-! ### JScript -/

/-- In JScript what follows a line feed is scanned as a source of its own. -/
theorem scanFrom_jscript_append (offset : Nat) (a u : Text) :
    scanFrom .jscript offset (a ++ '\n' :: u) =
      scanFrom .jscript offset a ++ scanFrom .jscript (offset + Text.byteSize (a ++ ['\n'])) u := by
  obtain ⟨w, h⟩ : ∃ w, Laid .jscript a w := ⟨_, laid_iff.2 rfl⟩
  induction h generalizing offset with
  | @last l hl hr =>
    have hr' : readIndented? .jscript (l ++ '\n' :: u) = none := by
      rw [JScript.readIndented?_newline hl, hr, Option.map_none]
    rw [scanFrom_last offset hl hr, scanFrom_line offset hl hr', List.nil_append]
  | @line l v w hl hr hv ih =>
    have hr' : readIndented? .jscript (l ++ '\n' :: (v ++ '\n' :: u)) = none := by
      rw [JScript.readIndented?_newline hl, Option.map_eq_none_iff] at hr ⊢
      exact hr
    rw [List.append_assoc, List.cons_append, scanFrom_line offset hl hr', ih,
      scanFrom_line offset hl hr]
    simp [Nat.add_assoc]
  | @lastDeclaration indent l d hi hl hr =>
    have hr' := read?_newline hl hr u
    rw [scanFrom_lastDeclaration offset hi hl hr, List.append_assoc, List.append_assoc,
      scanFrom_declaration offset hi hl hr']
    simp
  | @declaration indent l v d w hi hl hr hv ih =>
    have hr' := read?_newline hl (read?_line hl hr) (v ++ '\n' :: u)
    rw [scanFrom_declaration offset hi hl hr, List.append_assoc, List.append_assoc,
      List.append_assoc, List.cons_append, scanFrom_declaration offset hi hl hr', ih]
    simp [Nat.add_assoc]

end Declaration

end AssemblyInfo
