import AssemblyInfo.Proofs.Declaration.CSharp
import AssemblyInfo.Proofs.Declaration.JScript
import AssemblyInfo.Proofs.Layout

/-! The layout of a source after an edit. Another declaration in the place of one, or one more at
the end, leaves the rest of the layout as it is. In JScript this is so because a line is read
without regard to the others. In C# a text may open a declaration and go on over line ends, but not
up to another declaration: it would have closed there before the edit. Only at the end of a source
such a text could swallow what is appended, so that this is excluded. -/

namespace AssemblyInfo

open Segment (readIndented?)

variable {dialect : Dialect}

/-! ### Reading with another rest -/

namespace Declaration

variable {d : Declaration} {l u : Text}

theorem read?_csharp_iff {t rest : Text} : read? .csharp t = some (d, rest) ↔
    ∃ e : CSharp, d = .csharp e ∧ e.WellFormed ∧ t = e.text ++ rest := by
  rw [read?, Option.map_eq_some_iff]
  constructor
  · rintro ⟨⟨e, r⟩, he, heq⟩
    obtain ⟨rfl, rfl⟩ := Prod.mk.inj heq
    exact ⟨e, rfl, CSharp.read?_eq_some_iff.1 he⟩
  · rintro ⟨e, rfl, he⟩
    exact ⟨(e, rest), CSharp.read?_eq_some_iff.2 he, rfl⟩

/-- A C# declaration is read whatever follows it. -/
theorem read?_csharp_rest {t rest : Text} (h : read? .csharp t = some (d, rest)) (rest' : Text) :
    read? .csharp (d.text ++ rest') = some (d, rest') := by
  obtain ⟨e, rfl, he, -⟩ := read?_csharp_iff.1 h
  exact read?_csharp_iff.2 ⟨e, rfl, he, rfl⟩

/-- A declaration is read again if what follows its line is changed. -/
theorem read?_newline (hl : '\n' ∉ l) (h : read? dialect (d.text ++ l) = some (d, l)) (u : Text) :
    read? dialect (d.text ++ (l ++ '\n' :: u)) = some (d, l ++ '\n' :: u) := by
  cases dialect with
  | csharp => exact read?_csharp_rest h _
  | jscript =>
    obtain ⟨⟨d, r⟩, hd, he⟩ := Option.map_eq_some_iff.1 h
    obtain ⟨rfl, rfl⟩ := Prod.mk.inj he
    have hx : '\n' ∉ d.text ++ r := by simp [JScript.newline_not_mem_text hd, hl]
    have hread := JScript.read?_newline hx u
    rw [show JScript.read? (d.text ++ r) = _ from hd, List.append_assoc] at hread
    simp only [read?, text, hread, Option.map_some, JScript.extend]

theorem read?_line (hl : '\n' ∉ l)
    (h : read? dialect (d.text ++ (l ++ '\n' :: u)) = some (d, l ++ '\n' :: u)) :
    read? dialect (d.text ++ l) = some (d, l) := by
  cases dialect with
  | csharp => exact read?_csharp_rest h _
  | jscript =>
    obtain ⟨⟨d, r⟩, hd, he⟩ := Option.map_eq_some_iff.1 h
    obtain ⟨rfl, rfl⟩ := Prod.mk.inj he
    have hx : '\n' ∉ d.text ++ l := by simp [JScript.newline_not_mem_text hd, hl]
    have hread := JScript.read?_newline hx u
    rw [List.append_assoc, show JScript.read? (d.text ++ (l ++ '\n' :: u)) = _ from hd] at hread
    obtain ⟨⟨d', r⟩, hr, he⟩ := Option.map_eq_some_iff.1 hread.symm
    obtain ⟨rfl, hrest⟩ := Prod.mk.inj he
    obtain rfl := List.append_cancel_right hrest
    simp only [read?, text, hr, Option.map_some]

end Declaration

/-! ### Lines without a declaration -/

namespace Declaration.CSharp

/-- A text that opens a declaration, after its indentation, and does not close its arguments. -/
def IsOpen (t : Text) : Prop :=
  ∃ indent, (∀ c ∈ indent, Text.isSpaceOrTab c) ∧
    ∃ d : CSharp, d.Opens ∧ t = indent ++ (d.opening ++ d.arguments)

theorem Opens.withArguments {d : CSharp} {arguments : Text} (h : d.Opens) (ha : ')' ∉ arguments)
    (afterArguments : Text) : Opens { d with arguments, afterArguments } :=
  ⟨h.afterBracket, h.afterKeyword, h.afterColon, h.name_ne_nil, h.name, h.afterName, ha⟩

theorem Opens.not_mem_opening {d : CSharp} (h : d.Opens) : ')' ∉ d.opening := by
  have htail : ')' ∉ d.opening.tail := h.not_mem_tail (by decide) (by decide) (by decide)
  have hopen : d.opening = '[' :: d.opening.tail := rfl
  rw [hopen]
  simp [htail]

theorem IsOpen.not_mem {t : Text} (h : IsOpen t) : ')' ∉ t := by
  obtain ⟨indent, hi, d, hd, rfl⟩ := h
  have hindent : ')' ∉ indent := Text.not_mem_of_forall hi (by decide)
  simp [hindent, hd.not_mem_opening, hd.arguments]

theorem not_isOpen_nil : ¬IsOpen [] := by
  rintro ⟨indent, -, d, -, h⟩
  simp [opening] at h

theorem IsOpen.of_concat {t : Text} (h : IsOpen (t ++ ['\n'])) : IsOpen t := by
  obtain ⟨indent, hi, d, hd, ht⟩ := h
  rcases List.eq_nil_or_concat' d.arguments with hnil | ⟨arguments, c, hc⟩
  · -- the opening ends with a parenthesis
    rw [hnil, opening, List.append_nil, ← List.cons_append, ← List.append_assoc] at ht
    exact absurd (List.append_inj' ht rfl).2 (by decide)
  · rw [hc, ← List.append_assoc, ← List.append_assoc] at ht
    obtain ⟨rfl, -⟩ := List.append_inj' ht rfl
    have harguments : ')' ∉ arguments := by
      intro hm
      exact hd.arguments (by simp [hc, hm])
    exact ⟨indent, hi, _, hd.withArguments harguments [], by simp [opening]⟩

theorem IsOpen.concat {t : Text} (h : IsOpen t) : IsOpen (t ++ ['\n']) := by
  obtain ⟨indent, hi, d, hd, rfl⟩ := h
  have harguments : ')' ∉ d.arguments ++ ['\n'] := by simp [hd.arguments]
  exact ⟨indent, hi, _, hd.withArguments harguments [], by simp [opening]⟩

/-- An open text is closed by the end of the arguments of the next declaration. The two make one
declaration, which takes the opening of the second among its arguments. -/
theorem IsOpen.swallows {a : Text} {e : CSharp} (ha : IsOpen a) (he : e.WellFormed) :
    ∃ (indent : Text) (f : CSharp) (x : Text), (∀ c ∈ indent, Text.isSpaceOrTab c) ∧ f.WellFormed ∧
      f.arguments = x ++ (e.opening ++ e.arguments) ∧ a ++ e.text = indent ++ f.text := by
  obtain ⟨indent, hi, d, hd, rfl⟩ := ha
  have harguments : ')' ∉ d.arguments ++ (e.opening ++ e.arguments) := by
    simp [hd.arguments, he.not_mem_opening, he.arguments]
  let f : CSharp :=
    { d with arguments := d.arguments ++ (e.opening ++ e.arguments)
             afterArguments := e.afterArguments }
  have hf : f.Opens := hd.withArguments harguments e.afterArguments
  refine ⟨indent, f, d.arguments, hi, ⟨hf, by simp [f, opening], he.afterArguments⟩, rfl, ?_⟩
  simp [f, text_eq, opening]

/-- So it is read. -/
theorem readIndented?_of_isOpen {a : Text} {e : CSharp} (ha : IsOpen a) (he : e.WellFormed)
    (rest : Text) : readIndented? .csharp (a ++ (e.text ++ rest)) ≠ none := by
  obtain ⟨indent, f, x, hi, hf, -, htext⟩ := ha.swallows he
  have hread : Declaration.read? .csharp (f.text ++ rest) = some (.csharp f, rest) :=
    read?_csharp_iff.2 ⟨f, rfl, hf, rfl⟩
  rw [← List.append_assoc, htext, List.append_assoc, (readIndented?_indent hi hread).1]
  simp

/-- If no declaration is read in a text, and the text up to some place is not open there, then none
is read after a bracket has been put in that place. -/
theorem readIndented?_bracket {a x : Text} (z : Text) (ha : ∃ c ∈ a, ¬Text.isSpaceOrTab c)
    (h : readIndented? .csharp (a ++ x) = none) (ho : ¬IsOpen a) :
    readIndented? .csharp (a ++ '[' :: z) = none := by
  by_contra hsome
  obtain ⟨⟨e, r⟩, he⟩ := Option.ne_none_iff_exists'.1 hsome
  have hi : ∀ c ∈ a.takeWhile Text.isSpaceOrTab, Text.isSpaceOrTab c := fun c =>
    List.mem_takeWhile_imp
  have hne : a.dropWhile Text.isSpaceOrTab ≠ [] := by
    intro hnil
    obtain ⟨c, hc, hs⟩ := ha
    exact hs (List.dropWhile_eq_nil_iff.1 hnil c hc)
  have hsplit : a.takeWhile Text.isSpaceOrTab ++ a.dropWhile Text.isSpaceOrTab = a :=
    List.takeWhile_append_dropWhile
  rw [readIndented?, (Text.span_append_cons (by decide) z).2] at he
  obtain ⟨d, -, hwf, htext⟩ := read?_csharp_iff.1 he
  rcases eq_append_or_opening hwf hne htext.symm with ⟨b, hb⟩ | ⟨args, hargs, hb⟩
  · -- the declaration was there before
    have hread : Declaration.read? .csharp (d.text ++ (b ++ x)) = some (.csharp d, b ++ x) :=
      read?_csharp_iff.2 ⟨d, rfl, hwf, rfl⟩
    have hold := (readIndented?_indent hi hread).1
    rw [← List.append_assoc d.text, ← hb, ← List.append_assoc, hsplit, h] at hold
    contradiction
  · refine ho ⟨a.takeWhile Text.isSpaceOrTab, hi, _, hwf.toOpens.withArguments hargs [], ?_⟩
    rw [hb] at hsplit
    exact hsplit.symm

end Declaration.CSharp

/-- In JScript a line is read without regard to the others. -/
theorem Declaration.JScript.readIndented?_newline {l : Text} (hl : '\n' ∉ l) (u : Text) :
    readIndented? .jscript (l ++ '\n' :: u) =
      (readIndented? .jscript l).map (extend ('\n' :: u)) := by
  have hd : '\n' ∉ l.dropWhile Text.isSpaceOrTab := by
    intro hm
    exact hl ((List.dropWhile_suffix _).mem hm)
  rw [readIndented?, (Text.span_append_cons (by decide) u).2, Declaration.read?,
    JScript.read?_newline hd, readIndented?, Declaration.read?, Option.map_map, Option.map_map]
  rfl

variable {l g x z : Text}

/-- A line without a declaration stays so if a declaration that follows is changed or added. -/
theorem readIndented?_bracket (z : Text) (hl : '\n' ∉ l)
    (h : readIndented? dialect (l ++ '\n' :: (g ++ x)) = none)
    (ho : dialect = .csharp → ¬Declaration.CSharp.IsOpen (l ++ '\n' :: g)) :
    readIndented? dialect (l ++ '\n' :: (g ++ '[' :: z)) = none := by
  cases dialect with
  | csharp =>
    have hn : ∃ c ∈ l ++ '\n' :: g, ¬Text.isSpaceOrTab c := ⟨'\n', by simp, by decide⟩
    have := Declaration.CSharp.readIndented?_bracket (x := x) z hn (by simpa using h) (ho rfl)
    simpa using this
  | jscript =>
    rw [Declaration.JScript.readIndented?_newline hl, Option.map_eq_none_iff] at h ⊢
    exact h

/-- The text before a declaration is not open: it would have been closed there. -/
theorem not_isOpen_of_read? {d : Declaration} {rest rest' : Text}
    (hd : Declaration.read? dialect (d.text ++ rest) = some (d, rest))
    (h : readIndented? dialect (x ++ (d.text ++ rest')) = none) :
    dialect = .csharp → ¬Declaration.CSharp.IsOpen x := by
  rintro rfl ho
  obtain ⟨e, rfl, hwf, -⟩ := Declaration.read?_csharp_iff.1 hd
  exact Declaration.CSharp.readIndented?_of_isOpen ho hwf _ h

/-! ### Another declaration in the place of one -/

/-- A declaration that is read whatever follows it. -/
def Declaration.Stands (dialect : Dialect) (d : Declaration) : Prop :=
  ∀ rest, Declaration.read? dialect (d.text ++ rest) = some (d, rest)

namespace Laid

variable {t : Text} {w a b : Marked Declaration} {d d' : Declaration}

/-- Each declaration in a layout is read. -/
theorem exists_read? (h : Laid dialect t w) (hd : .inr d ∈ w) :
    ∃ rest, Declaration.read? dialect (d.text ++ rest) = some (d, rest) := by
  induction h with
  | last => exact absurd hd Marked.inr_not_mem_plain
  | line _ _ _ ih => exact ih (Marked.mem_of_mem_plain_append hd)
  | lastDeclaration _ _ hr =>
    rcases List.mem_cons.1 (Marked.mem_of_mem_plain_append hd) with hd | hd
    · cases hd
      exact ⟨_, hr⟩
    · exact absurd hd Marked.inr_not_mem_plain
  | declaration _ _ hr _ ih =>
    rcases List.mem_cons.1 (Marked.mem_of_mem_plain_append hd) with hd | hd
    · cases hd
      exact ⟨_, hr⟩
    · exact ih (Marked.mem_of_mem_plain_append hd)

/-- The line before a layout with a declaration stays without one. -/
theorem readIndented?_line {u : Text} {w' : Marked Declaration}
    (hu : Laid dialect u (Marked.plain g ++ .inr d :: w)) (hl : '\n' ∉ l)
    (hr : readIndented? dialect (l ++ '\n' :: u) = none) :
    readIndented? dialect (l ++ '\n' ::
      Marked.text Declaration.text (Marked.plain g ++ .inr d' :: w')) = none := by
  obtain ⟨rest, hread⟩ := hu.exists_read? (d := d) (by simp)
  rw [← hu.text_eq, Marked.text_append, Marked.text_plain, Marked.text_inr] at hr
  obtain ⟨z, hz⟩ := d'.text_eq_cons
  rw [Marked.text_append, Marked.text_plain, Marked.text_inr, hz, List.cons_append]
  apply readIndented?_bracket _ hl hr
  apply not_isOpen_of_read? hread
  simpa using hr

/-- A declaration that stands may take the place of another. -/
theorem replace (h : Laid dialect t (a ++ .inr d :: b)) (hd : d'.Stands dialect) :
    Laid dialect (Marked.text Declaration.text (a ++ .inr d' :: b)) (a ++ .inr d' :: b) := by
  generalize hw : a ++ .inr d :: b = w at h
  induction h generalizing a with
  | last => exact absurd hw.symm Marked.plain_ne
  | @line l u w hl hr hu ih =>
    obtain ⟨a, rfl, rfl⟩ := Marked.exists_of_plain_append_eq hw.symm
    have hnew := ih rfl
    obtain ⟨g, e, e', w, w', h₁, h₂⟩ := Marked.first_of_replace a b d d'
    rw [h₁] at hu
    rw [h₂] at hnew
    rw [List.append_assoc, h₂]
    simpa using Laid.line hl (hu.readIndented?_line hl hr) hnew
  | @lastDeclaration indent l e hi hl hr =>
    obtain ⟨a, rfl, ha⟩ := Marked.exists_of_plain_append_eq hw.symm
    cases a with
    | nil =>
      obtain ⟨-, rfl⟩ := List.cons.inj ha
      simpa using Laid.lastDeclaration hi hl (hd l)
    | cons y a =>
      obtain ⟨-, hb⟩ := List.cons.inj ha
      exact absurd hb Marked.plain_ne
  | @declaration indent l u e w hi hl hr hu ih =>
    obtain ⟨a, rfl, ha⟩ := Marked.exists_of_plain_append_eq hw.symm
    cases a with
    | nil =>
      obtain ⟨-, rfl⟩ := List.cons.inj ha
      simpa [hu.text_eq] using Laid.declaration hi hl (hd _) hu
    | cons y a =>
      obtain ⟨rfl, hb⟩ := List.cons.inj ha
      obtain ⟨a, rfl, rfl⟩ := Marked.exists_of_plain_append_eq hb
      have he := Declaration.read?_newline hl (Declaration.read?_line hl hr)
      simpa using Laid.declaration hi hl (he _) (ih rfl)

end Laid

/-! ### A declaration at the end -/

namespace Declaration.CSharp

/-- No declaration that a line of the text opens is still open at the end. -/
def Closed (t : Text) : Prop := ∀ s, Text.LineSuffix s t → ¬IsOpen s

theorem Closed.of_append {a u : Text} (h : Closed (a ++ '\n' :: u)) : Closed u :=
  fun s hs => h s hs.of_append

theorem Closed.newline {t : Text} (h : Closed t) : Closed (t ++ ['\n']) := by
  intro s hs ho
  rcases List.eq_nil_or_concat' s with rfl | ⟨s, c, rfl⟩
  · exact not_isOpen_nil ho
  · rcases hs with hs | ⟨a, ha⟩
    · obtain ⟨rfl, hc⟩ := List.append_inj' hs rfl
      rw [hc] at ho
      exact h s (.inl rfl) ho.of_concat
    · rw [← List.cons_append, ← List.append_assoc] at ha
      obtain ⟨rfl, hc⟩ := List.append_inj' ha rfl
      rw [← hc] at ho
      exact h s (.inr ⟨a, rfl⟩) ho.of_concat

/-- What is open at the end lies after the end of each declaration. -/
theorem closed_of_bracket {t : Text} (u : Text) (h : ∀ a s, t = a ++ '\n' :: s → ¬IsOpen s) :
    Closed (u ++ ')' :: ']' :: t) := by
  intro s hs ho
  have hparen := ho.not_mem
  rcases hs with rfl | ⟨a, ha⟩
  · simp at hparen
  · obtain ⟨b, -, hb⟩ := Text.exists_of_append_cons_eq_append (by simp [hparen]) ha
    cases b with
    | nil => exact absurd (List.cons.inj hb).1 (by decide)
    | cons x b => exact h b s (List.cons.inj hb).2 ho

/-- A line feed at the end closes nothing. -/
theorem readIndented?_concat {t : Text} (h : readIndented? .csharp t = none) :
    readIndented? .csharp (t ++ ['\n']) = none := by
  by_contra hsome
  obtain ⟨⟨e, r⟩, he⟩ := Option.ne_none_iff_exists'.1 hsome
  rw [readIndented?, (Text.span_append_cons (by decide) []).2] at he
  have htext := Declaration.text_append_of_read? he
  rcases List.eq_nil_or_concat' r with rfl | ⟨r, c, rfl⟩
  · obtain ⟨u, hu⟩ := e.text_eq_concat
    rw [List.append_nil, hu] at htext
    exact absurd (List.append_inj' htext rfl).2 (by decide)
  · rw [← List.append_assoc] at htext
    obtain ⟨ht, -⟩ := List.append_inj' htext rfl
    rw [readIndented?, ← ht, read?_csharp_rest he] at h
    contradiction

end Declaration.CSharp

/-- No declaration is read because of a line feed at the end. -/
theorem readIndented?_concat {t : Text} (h : readIndented? dialect t = none) :
    readIndented? dialect (t ++ ['\n']) = none := by
  cases dialect with
  | csharp => exact Declaration.CSharp.readIndented?_concat h
  | jscript =>
    rcases Text.eq_line_or_line_append t with ht | ⟨l, u, hl, rfl⟩
    · rw [Declaration.JScript.readIndented?_newline ht, h, Option.map_none]
    · rw [Declaration.JScript.readIndented?_newline hl, Option.map_eq_none_iff] at h
      rw [List.append_assoc, List.cons_append, Declaration.JScript.readIndented?_newline hl, h,
        Option.map_none]

namespace Laid

variable {t : Text} {w : Marked Declaration} {d : Declaration}

/-- A line feed at the end adds no declaration. -/
theorem newline (h : Laid dialect t w) : Laid dialect (t ++ ['\n']) (w ++ [.inl '\n']) := by
  have hend : Laid dialect [] [] := .last List.not_mem_nil (by cases dialect <;> rfl)
  induction h with
  | last hl hr => simpa using Laid.line hl (readIndented?_concat hr) hend
  | line hl hr _ ih =>
    have hr' := readIndented?_concat hr
    rw [List.append_assoc, List.cons_append] at hr'
    simpa using Laid.line hl hr' ih
  | lastDeclaration hi hl hr =>
    simpa using Laid.declaration hi hl (Declaration.read?_newline hl hr []) hend
  | declaration hi hl hr _ ih =>
    have hr' := Declaration.read?_newline hl (Declaration.read?_line hl hr)
    simpa using Laid.declaration hi hl (hr' _) ih

/-- What begins with a bracket is added to the last line, if no declaration is open there. -/
theorem append_bracket {z : Text} {v : Marked Declaration} (h : Laid dialect t w)
    (hc : dialect = .csharp → Declaration.CSharp.Closed t)
    (hlast : ∀ l, Text.LineSuffix l t → '\n' ∉ l → readIndented? dialect l = none →
      Laid dialect (l ++ '[' :: z) (Marked.plain l ++ v))
    (hdeclaration : ∀ indent d l, Text.LineSuffix (indent ++ (d.text ++ l)) t →
      (∀ c ∈ indent, Text.isSpaceOrTab c) → '\n' ∉ l →
      Declaration.read? dialect (d.text ++ l) = some (d, l) →
      Laid dialect (indent ++ (d.text ++ (l ++ '[' :: z)))
        (Marked.plain indent ++ .inr d :: (Marked.plain l ++ v))) :
    Laid dialect (t ++ '[' :: z) (w ++ v) := by
  induction h with
  | last hl hr => exact hlast _ (.inl rfl) hl hr
  | @line l u w hl hr hu ih =>
    have hnew := ih (fun hj => (hc hj).of_append) (fun l hl => hlast l hl.of_append)
      fun indent d l hl => hdeclaration indent d l hl.of_append
    have hr' : readIndented? dialect (l ++ '\n' :: (u ++ '[' :: z)) = none := by
      apply readIndented?_bracket (x := []) _ hl (by simpa using hr)
      intro hj
      exact hc hj _ (.inl rfl)
    simpa using Laid.line hl hr' hnew
  | lastDeclaration hi hl hr => simpa using hdeclaration _ _ _ (.inl rfl) hi hl hr
  | @declaration indent l u e w hi hl hr hu ih =>
    have hsplit : indent ++ (e.text ++ (l ++ '\n' :: u)) =
        indent ++ (e.text ++ l) ++ '\n' :: u := by simp
    rw [hsplit] at hc hlast hdeclaration
    have hnew := ih (fun hj => (hc hj).of_append) (fun l hl => hlast l hl.of_append)
      fun indent d l hl => hdeclaration indent d l hl.of_append
    have hr' := Declaration.read?_newline hl (Declaration.read?_line hl hr)
    simpa using Laid.declaration hi hl (hr' _) hnew

/-- A declaration may be added on a last line that is blank, if no declaration is open there. -/
theorem append {s : Text} (h : Laid dialect t w) (hs : Text.LineSuffix s t)
    (hblank : ∀ c ∈ s, Text.isSpaceOrTab c) (hc : dialect = .csharp → Declaration.CSharp.Closed t)
    (hd : d.Stands dialect) : Laid dialect (t ++ d.text) (w ++ [.inr d]) := by
  have hs' : '\n' ∉ s := Text.not_mem_of_forall hblank (by decide)
  obtain ⟨z, hz⟩ := d.text_eq_cons
  rw [hz]
  apply h.append_bracket hc
  · intro l hl hline hr
    obtain rfl := (hs.of_lineSuffix hs' hl).eq_of_not_mem hline
    rw [← hz]
    simpa using Laid.lastDeclaration hblank List.not_mem_nil (hd [])
  · intro indent e l hl hi hline hr
    -- the last line holds the end of a declaration
    obtain ⟨u, hu⟩ := e.text_eq_concat
    have hsplit : indent ++ (e.text ++ l) = (indent ++ u) ++ ']' :: l := by simp [hu]
    have hb : ']' ∉ s := Text.not_mem_of_forall hblank (by decide)
    have hsuffix := hs.of_lineSuffix hs' hl
    rw [hsplit] at hsuffix
    rcases hsuffix with rfl | ⟨a, ha⟩
    · simp at hb
    · obtain ⟨b, -, rfl⟩ := Text.exists_of_append_cons_eq_append (by simp [hb]) ha
      simp at hline

/-- On a last line that is not blank nothing is read, if no declaration is open there. -/
theorem append_plain {s z : Text} (h : Laid .csharp t w) (hs : Text.LineSuffix s t)
    (hline : '\n' ∉ s) (hblank : ∃ c ∈ s, ¬Text.isSpaceOrTab c)
    (hc : Declaration.CSharp.Closed t) (hz : '\n' ∉ z) :
    Laid .csharp (t ++ '[' :: z) (w ++ Marked.plain ('[' :: z)) := by
  apply h.append_bracket fun _ => hc
  · intro l hl hl' hr
    obtain rfl := (hs.of_lineSuffix hline hl).eq_of_not_mem hl'
    have hr' := Declaration.CSharp.readIndented?_bracket (x := []) z hblank (by simpa using hr)
      (hc s hl)
    simpa using Laid.last (by simp [hl', hz]) hr'
  · intro indent e l hl hi hl' hr
    have hr' := Declaration.read?_csharp_rest hr (l ++ '[' :: z)
    simpa using Laid.lastDeclaration hi (by simp [hl', hz]) hr'

end Laid

end AssemblyInfo
