import AssemblyInfo.Proofs.Marked
import AssemblyInfo.Proofs.Text
import AssemblyInfo.Segment

/-! The layout of a source: the source with each of its declarations as one symbol. It is built line
by line. From the start of a line, either there is no declaration and the line is plain, or there is
one after the indentation, and the line that it ends on is plain from there. -/

namespace AssemblyInfo

theorem Declaration.text_eq_cons (d : Declaration) : ∃ u, d.text = '[' :: u := by
  cases d with
  | csharp d => simp [text, CSharp.text]
  | jscript d => simp [text, JScript.text]

theorem Declaration.text_eq_concat (d : Declaration) : ∃ u, d.text = u ++ [']'] := by
  cases d with
  | csharp d => exact ⟨_, rfl⟩
  | jscript d => exact ⟨_, rfl⟩

namespace Segment

/-- A segment as marked text. -/
def marked : Segment → Marked Declaration
  | .gap s => Marked.plain s.text
  | .declaration _ d => [.inr d]

theorem flatMap_marked_addGap (start : Nat) (t : Text) (segments : List Segment) :
    (addGap start t segments).flatMap marked = Marked.plain t ++ segments.flatMap marked := by
  rw [addGap.eq_def]
  split
  · simp [marked]
  · split
    · next ht => simp [ht]
    · simp [marked]

theorem flatMap_marked_cut_of_none {dialect : Dialect} {t : Text} (offset : Nat) (ht : t ≠ [])
    (h : readIndented? dialect t = none) :
    (cut dialect offset t).flatMap marked = Marked.plain t.cutLine.1 ++
      (cut dialect (offset + t.cutLine.1.byteSize) t.cutLine.2).flatMap marked := by
  rw [cut_of_none offset ht h, flatMap_marked_addGap]

theorem flatMap_marked_cut_of_some {dialect : Dialect} {t rest : Text} {d : Declaration}
    (offset : Nat) (h : readIndented? dialect t = some (d, rest)) :
    ∃ offset', (cut dialect offset t).flatMap marked =
      Marked.plain (t.takeWhile Text.isSpaceOrTab) ++ .inr d :: (Marked.plain rest.cutLine.1 ++
        (cut dialect offset' rest.cutLine.2).flatMap marked) := by
  refine ⟨offset + Text.byteSize (t.takeWhile Text.isSpaceOrTab) + d.text.byteSize +
    rest.cutLine.1.byteSize, ?_⟩
  rw [cut_of_some offset h, flatMap_marked_addGap, List.flatMap_cons, flatMap_marked_addGap]
  rfl

/-- Segments in which no gap is empty, and no two gaps follow each other. -/
def Separated (segments : List Segment) : Prop :=
  (∀ s, .gap s ∈ segments → s.text ≠ []) ∧
    segments.IsChain fun x y => x.declaration?.isSome ∨ y.declaration?.isSome

theorem Separated.addGap {segments : List Segment} (h : Separated segments) (start : Nat)
    (t : Text) : Separated (addGap start t segments) := by
  obtain ⟨hgaps, hchain⟩ := h
  cases segments with
  | nil =>
    by_cases ht : t = []
    · simp [Segment.addGap, ht, Separated]
    · simp [Segment.addGap, ht, Separated]
  | cons x segments =>
    cases x with
    | gap s =>
      have hs := hgaps s (by simp)
      refine ⟨fun s' hs' => ?_, ?_⟩
      · rcases List.mem_cons.1 hs' with hs' | hs'
        · cases hs'
          simp [hs]
        · exact hgaps s' (List.mem_cons_of_mem _ hs')
      · cases segments with
        | nil => exact .singleton _
        | cons y segments =>
          rw [List.isChain_cons_cons] at hchain
          exact .cons_cons hchain.1 hchain.2
    | declaration start' d =>
      by_cases ht : t = []
      · rw [Segment.addGap, if_pos ht]
        · exact ⟨hgaps, hchain⟩
        · simp
      · rw [Segment.addGap, if_neg ht]
        · refine ⟨fun s hs => ?_, .cons_cons (by simp [declaration?]) hchain⟩
          rcases List.mem_cons.1 hs with hs | hs
          · cases hs
            exact ht
          · exact hgaps s hs
        · simp

theorem Separated.declaration {segments : List Segment} (h : Separated segments) (start : Nat)
    (d : Declaration) : Separated (.declaration start d :: segments) := by
  refine ⟨fun s hs => h.1 s (by simpa using hs), ?_⟩
  cases segments with
  | nil => exact .singleton _
  | cons x segments => exact .cons_cons (by simp [declaration?]) h.2

theorem separated_cut (dialect : Dialect) (offset : Nat) (t : Text) :
    Separated (cut dialect offset t) := by
  fun_induction cut dialect offset t with
  | case1 => exact ⟨by simp, .nil⟩
  | case2 offset t ht h line hl ih => exact ih.addGap _ _
  | case3 offset t ht d rest h indent start stop line hl ih =>
    exact ((ih.addGap _ _).declaration _ _).addGap _ _

/-- The blanks at the end of a source are those of its last segment. -/
theorem Separated.trailingBlanks_eq {segments : List Segment} {x : Segment}
    (h : Separated (segments ++ [x])) :
    x.text ≠ [] ∧
      Text.trailingBlanks (segments.flatMap text ++ x.text) = x.text.trailingBlanks := by
  obtain ⟨hgaps, hchain⟩ := h
  cases x with
  | declaration start d =>
    obtain ⟨u, hu⟩ := d.text_eq_concat
    refine ⟨by simp [text, hu], ?_⟩
    rw [text, hu, ← List.append_assoc, Text.trailingBlanks_append_cons _ _ (by decide),
      Text.trailingBlanks_append_cons _ _ (by decide)]
  | gap s =>
    refine ⟨hgaps s (by simp), ?_⟩
    rcases List.eq_nil_or_concat' segments with rfl | ⟨segments, y, rfl⟩
    · rfl
    -- the segment before a gap is a declaration, which ends with a bracket
    rw [List.append_assoc, List.singleton_append, List.isChain_append_cons_cons] at hchain
    cases y with
    | gap s' => simp [declaration?] at hchain
    | declaration start d =>
      obtain ⟨u, hu⟩ := d.text_eq_concat
      have htext : (Segment.declaration start d).text = u ++ [']'] := hu
      rw [List.flatMap_append, List.flatMap_singleton, htext, ← List.append_assoc,
        List.append_assoc _ [']']]
      exact Text.trailingBlanks_append_cons _ _ (by decide)

end Segment

open Segment (readIndented? cut)

/-- A source with its declarations as symbols. -/
def layout (dialect : Dialect) (t : Text) : Marked Declaration :=
  (Segment.ofSource dialect t).flatMap Segment.marked

/-- The declarations in the layout are those that the scan finds. -/
theorem items_layout (dialect : Dialect) (t : Text) :
    Marked.items (layout dialect t) = (Declaration.scan dialect t).map Prod.snd := by
  rw [Declaration.scan, layout]
  induction Segment.ofSource dialect t with
  | nil => rfl
  | cons segment segments ih =>
    rw [List.flatMap_cons, Marked.items_append, ih]
    cases segment with
    | gap s =>
      rw [List.filterMap_cons_none rfl]
      simp [Segment.marked]
    | declaration start d => rfl

variable {dialect : Dialect}

/-- The layout of a source, line by line. -/
inductive Laid (dialect : Dialect) : Text → Marked Declaration → Prop where
  /-- The last line, without a declaration. -/
  | last {l : Text} (line : '\n' ∉ l) (read : readIndented? dialect l = none) :
      Laid dialect l (Marked.plain l)
  /-- A line without a declaration. -/
  | line {l u : Text} {w : Marked Declaration} (line : '\n' ∉ l)
      (read : readIndented? dialect (l ++ '\n' :: u) = none) (rest : Laid dialect u w) :
      Laid dialect (l ++ '\n' :: u) (Marked.plain (l ++ ['\n']) ++ w)
  /-- A declaration that ends on the last line. -/
  | lastDeclaration {indent l : Text} {d : Declaration}
      (blank : ∀ c ∈ indent, Text.isSpaceOrTab c) (line : '\n' ∉ l)
      (read : Declaration.read? dialect (d.text ++ l) = some (d, l)) :
      Laid dialect (indent ++ (d.text ++ l)) (Marked.plain indent ++ .inr d :: Marked.plain l)
  /-- A declaration, up to the end of the line that it ends on. -/
  | declaration {indent l u : Text} {d : Declaration} {w : Marked Declaration}
      (blank : ∀ c ∈ indent, Text.isSpaceOrTab c) (line : '\n' ∉ l)
      (read : Declaration.read? dialect (d.text ++ (l ++ '\n' :: u)) = some (d, l ++ '\n' :: u))
      (rest : Laid dialect u w) :
      Laid dialect (indent ++ (d.text ++ (l ++ '\n' :: u)))
        (Marked.plain indent ++ .inr d :: (Marked.plain (l ++ ['\n']) ++ w))

namespace Laid

variable {t : Text} {w : Marked Declaration}

/-- The layout gives the source back. -/
theorem text_eq (h : Laid dialect t w) : Marked.text Declaration.text w = t := by
  induction h with
  | last => simp
  | line _ _ _ ih => simp [ih]
  | lastDeclaration => simp
  | declaration _ _ _ _ ih => simp [ih]

end Laid

theorem readIndented?_indent {indent t rest : Text} {d : Declaration}
    (hi : ∀ c ∈ indent, Text.isSpaceOrTab c) (h : Declaration.read? dialect t = some (d, rest)) :
    readIndented? dialect (indent ++ t) = some (d, rest) ∧
      (indent ++ t).takeWhile Text.isSpaceOrTab = indent := by
  obtain ⟨u, hu⟩ := d.text_eq_cons
  have ht : t = '[' :: (u ++ rest) := by rw [← Declaration.text_append_of_read? h, hu]; rfl
  have hspan := Text.span_run_cons (t := u ++ rest) hi (by decide : Text.isSpaceOrTab '[' = false)
  rw [← ht] at hspan
  exact ⟨by rw [readIndented?, hspan.2, h], hspan.1⟩

theorem laid_cut (offset : Nat) (t : Text) :
    Laid dialect t ((cut dialect offset t).flatMap Segment.marked) := by
  induction hn : t.length using Nat.strongRecOn generalizing t offset with
  | ind n ih =>
  by_cases ht : t = []
  · subst ht
    rw [Segment.cut_nil]
    exact .last List.not_mem_nil (by cases dialect <;> rfl)
  cases h : readIndented? dialect t with
  | none =>
    rw [Segment.flatMap_marked_cut_of_none offset ht h]
    rcases Text.eq_line_or_line_append t with hl | ⟨l, u, hl, rfl⟩
    · rw [Text.cutLine_of_not_mem hl, Segment.cut_nil, List.flatMap_nil, List.append_nil]
      exact .last hl h
    · rw [Text.cutLine_of_newline hl]
      have hlt : u.length < n := by
        simp only [List.length_append, List.length_cons] at hn
        omega
      exact .line hl h (ih u.length hlt _ u rfl)
  | some r =>
    obtain ⟨d, rest⟩ := r
    obtain ⟨offset', ho⟩ := Segment.flatMap_marked_cut_of_some offset h
    have hi : ∀ c ∈ t.takeWhile Text.isSpaceOrTab, Text.isSpaceOrTab c := fun c =>
      List.mem_takeWhile_imp
    have hlt := Segment.length_lt_of_readIndented? h
    have htext := Segment.append_of_readIndented? h
    have hd : Declaration.read? dialect (d.text ++ rest) = some (d, rest) := by
      rwa [Declaration.text_append_of_read? h]
    rw [ho]
    rcases Text.eq_line_or_line_append rest with hl | ⟨l, u, hl, rfl⟩
    · rw [Text.cutLine_of_not_mem hl, Segment.cut_nil, List.flatMap_nil, List.append_nil]
      have := Laid.lastDeclaration hi hl hd
      rwa [htext] at this
    · rw [Text.cutLine_of_newline hl]
      simp only [List.length_append, List.length_cons] at hlt
      have := Laid.declaration hi hl hd (ih u.length (by omega) offset' u rfl)
      rwa [htext] at this

theorem Laid.flatMap_marked_cut {t : Text} {w : Marked Declaration} (h : Laid dialect t w)
    (offset : Nat) : (cut dialect offset t).flatMap Segment.marked = w := by
  induction h generalizing offset with
  | @last l hl hr =>
    by_cases hne : l = []
    · subst hne
      rw [Segment.cut_nil]
      rfl
    · rw [Segment.flatMap_marked_cut_of_none offset hne hr, Text.cutLine_of_not_mem hl,
        Segment.cut_nil, List.flatMap_nil, List.append_nil]
  | line hl hr _ ih =>
    rw [Segment.flatMap_marked_cut_of_none offset (by simp) hr, Text.cutLine_of_newline hl, ih]
  | lastDeclaration hi hl hr =>
    obtain ⟨hs, hindent⟩ := readIndented?_indent hi hr
    obtain ⟨offset', ho⟩ := Segment.flatMap_marked_cut_of_some offset hs
    rw [ho, hindent, Text.cutLine_of_not_mem hl, Segment.cut_nil, List.flatMap_nil,
      List.append_nil]
  | declaration hi hl hr _ ih =>
    obtain ⟨hs, hindent⟩ := readIndented?_indent hi hr
    obtain ⟨offset', ho⟩ := Segment.flatMap_marked_cut_of_some offset hs
    rw [ho, hindent, Text.cutLine_of_newline hl, ih]

theorem laid_iff {t : Text} {w : Marked Declaration} : Laid dialect t w ↔ layout dialect t = w := by
  constructor
  · intro h
    exact h.flatMap_marked_cut 0
  · rintro rfl
    exact laid_cut 0 t

end AssemblyInfo
