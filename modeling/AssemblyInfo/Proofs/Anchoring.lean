import AssemblyInfo.Proofs.FloatLiteral
import AssemblyInfo.Proofs.Reloading
import AssemblyInfo.Proofs.Scan

/-! Header lines and declarations. Every declaration of a JScript document ends on the line where it
begins, and that line is blank before it: so it was read, and so it is written. A line with a
declaration is therefore no header line, whatever the declaration says. What is set neither adds a
header line nor takes one away. -/

namespace AssemblyInfo

open Text (isBlank LineStart)

/-! ### Header lines -/

theorem Text.lines_newline (t u : Text) : lines (t ++ '\n' :: u) = lines t ++ lines u :=
  List.splitOn_append_cons_self t u

theorem Text.lines_of_not_mem {l : Text} (h : '\n' ∉ l) : lines l = [l] :=
  List.splitOn_eq_singleton h

namespace Dialect

variable {x y z u : Text}

theorem hasHeader_newline (t u : Text) :
    hasHeader .jscript (t ++ '\n' :: u) = (hasHeader .jscript t || hasHeader .jscript u) := by
  simp only [hasHeader, Text.lines_newline, List.any_append]

theorem hasHeader_of_not_mem {l : Text} (h : '\n' ∉ l) : hasHeader .jscript l = isHeader l := by
  simp [hasHeader, Text.lines_of_not_mem h]

@[simp] theorem hasHeader_nil : hasHeader .jscript [] = false := rfl

/-- Only blanks may stand before an import. -/
theorem isHeader_blank_append (hy : ∀ c ∈ y, isBlank c) (hz : z = [] ∨ ∃ u, z = '[' :: u) :
    isHeader (y ++ z) = false := by
  induction y with
  | nil =>
    rcases hz with rfl | ⟨u, rfl⟩
    · rfl
    · rfl
  | cons c y ih =>
    by_cases hc : Text.isSpaceOrTab c
    · have hdrop : (c :: y ++ z).dropWhile Text.isSpaceOrTab =
          (y ++ z).dropWhile Text.isSpaceOrTab := by
        rw [List.cons_append, List.dropWhile_cons_of_pos hc]
      rw [isHeader, hdrop]
      exact ih fun d hd => hy d (List.mem_cons_of_mem c hd)
    · have hi : 'i' ≠ c := by
        rintro rfl
        exact absurd (hy 'i' List.mem_cons_self) (by decide)
      have hword : "import".toList.isPrefixOf? (c :: (y ++ z)) = none :=
        if_neg fun h => hi (beq_iff_eq.1 h)
      rw [isHeader, List.cons_append, List.dropWhile_cons_of_neg hc, hword]

/-- A text that begins with a line of its own. -/
theorem hasHeader_lineStart (hx : LineStart x) (z : Text) :
    hasHeader .jscript (x ++ z) = (hasHeader .jscript x || hasHeader .jscript z) := by
  rcases hx with rfl | ⟨x, rfl⟩
  · rfl
  · rw [List.append_assoc, List.singleton_append, hasHeader_newline, hasHeader_newline,
      hasHeader_nil, Bool.or_false]

/-- What stands in a line after a bracket does not matter. -/
theorem hasHeader_bracket (hy : ∀ c ∈ y, isBlank c) (hn : '\n' ∉ y) (hu : '\n' ∉ u) (z : Text) :
    hasHeader .jscript (y ++ ('[' :: u ++ z)) = hasHeader .jscript ('[' :: z) := by
  have hblank (v : Text) : isHeader (y ++ '[' :: v) = false :=
    isHeader_blank_append hy (.inr ⟨v, rfl⟩)
  have hempty (v : Text) : isHeader ('[' :: v) = false := rfl
  rcases Text.eq_line_or_line_append z with hz | ⟨l, v, hl, rfl⟩
  · rw [hasHeader_of_not_mem (by simp [hn, hu, hz]), hasHeader_of_not_mem (by simp [hz]),
      List.cons_append, hblank, hempty]
  · have hline : y ++ ('[' :: u ++ (l ++ '\n' :: v)) = y ++ '[' :: (u ++ l) ++ '\n' :: v := by simp
    have hline' : '[' :: (l ++ '\n' :: v) = '[' :: l ++ '\n' :: v := rfl
    have hfirst : hasHeader .jscript (y ++ '[' :: (u ++ l)) = false := by
      rw [hasHeader_of_not_mem (by simp [hn, hu, hl]), hblank]
    have hfirst' : hasHeader .jscript ('[' :: l) = false := by
      rw [hasHeader_of_not_mem (by simp [hl]), hempty]
    rw [hline, hline', hasHeader_newline, hasHeader_newline, hfirst, hfirst']

end Dialect

/-! ### Lines that are blank before an item -/

namespace Marked

variable {α : Type}

/-- Whether the last line is blank, if the line before the text is so or not. -/
def blankAfter (blank : Bool) : Marked α → Bool
  | [] => blank
  | .inl c :: w => blankAfter (c == '\n' || blank && isBlank c) w
  | .inr _ :: w => blankAfter false w

/-- Each item has a property and stands in a line that is blank before it. -/
def Anchored (p : α → Prop) (blank : Bool) : Marked α → Prop
  | [] => True
  | .inl c :: w => Anchored p (c == '\n' || blank && isBlank c) w
  | .inr a :: w => blank = true ∧ p a ∧ Anchored p false w

variable {p : α → Prop} {blank : Bool} {w w' : Marked α}

theorem blankAfter_append (blank : Bool) (w w' : Marked α) :
    blankAfter blank (w ++ w') = blankAfter (blankAfter blank w) w' := by
  fun_induction blankAfter blank w with
  | case1 => rfl
  | case2 blank c w ih => exact ih
  | case3 blank a w ih => exact ih

theorem anchored_append :
    Anchored p blank (w ++ w') ↔ Anchored p blank w ∧ Anchored p (blankAfter blank w) w' := by
  fun_induction blankAfter blank w with
  | case1 => simp [Anchored]
  | case2 blank c w ih => exact ih
  | case3 blank a w ih =>
    rw [List.cons_append, Anchored, Anchored, ih]
    tauto

theorem anchored_plain (t : Text) : Anchored p blank (plain t) := by
  induction t generalizing blank with
  | nil => trivial
  | cons c t ih => exact ih

theorem blankAfter_newline (blank : Bool) (w : Marked α) :
    blankAfter blank (w ++ [.inl '\n']) = true := by
  rw [blankAfter_append]
  rfl

/-- After a line feed all stands as at the start of a text. -/
theorem anchored_line (t : Text) (h : Anchored p true w) :
    Anchored p blank (plain (t ++ ['\n']) ++ w) := by
  rw [anchored_append, plain_append, plain_cons, plain_nil, blankAfter_newline]
  exact ⟨anchored_append.2 ⟨anchored_plain t, trivial⟩, h⟩

theorem blankAfter_plain {t : Text} (h : ∀ c ∈ t, isBlank c) :
    blankAfter true (plain (α := α) t) = true := by
  induction t with
  | nil => rfl
  | cons c t ih =>
    have hc := h c List.mem_cons_self
    simp only [plain_cons, blankAfter, hc, Bool.and_true, Bool.or_true]
    exact ih fun d hd => h d (List.mem_cons_of_mem c hd)

/-- An item with only blanks before it in its line. -/
theorem anchored_item {t : Text} {a : α} (ht : ∀ c ∈ t, isBlank c) (ha : p a)
    (h : Anchored p false w) : Anchored p true (plain t ++ .inr a :: w) := by
  rw [anchored_append, blankAfter_plain ht]
  exact ⟨anchored_plain t, rfl, ha, h⟩

/-- The last line, where it is blank. -/
theorem exists_blank_line {write : α → Text} (h : blankAfter true w = true) :
    ∃ x y, text write w = x ++ y ∧ LineStart x ∧ (∀ c ∈ y, isBlank c) ∧ '\n' ∉ y := by
  induction w using List.reverseRecOn with
  | nil => exact ⟨[], [], rfl, .inl rfl, by simp, by simp⟩
  | append_singleton w s ih =>
    rw [blankAfter_append] at h
    cases s with
    | inr a => contradiction
    | inl c =>
      by_cases hc : c = '\n'
      · exact ⟨text write w ++ ['\n'], [], by simp [hc], .inr ⟨_, rfl⟩, by simp, by simp⟩
      · have hb : blankAfter true w = true ∧ isBlank c = true := by
          simpa [blankAfter, hc] using h
        obtain ⟨x, y, htext, hx, hy, hn⟩ := ih hb.1
        refine ⟨x, y ++ [c], by simp [htext], hx, ?_, by simp [hn, Ne.symm hc]⟩
        intro d hd
        rcases List.mem_append.1 hd with hd | hd
        · exact hy d hd
        · rw [List.mem_singleton.1 hd]
          exact hb.2

end Marked

theorem Text.isBlank_of_isSpaceOrTab {c : Char} (h : isSpaceOrTab c) : isBlank c := by
  simp only [isSpaceOrTab, Bool.or_eq_true, beq_iff_eq] at h
  rcases h with rfl | rfl
  · decide
  · decide

theorem Declaration.newline_not_mem_of_read? {d : Declaration} {t rest : Text}
    (h : read? .jscript t = some (d, rest)) : '\n' ∉ d.text := by
  obtain ⟨⟨e, r⟩, he, heq⟩ := Option.map_eq_some_iff.1 h
  obtain ⟨rfl, rfl⟩ := Prod.mk.inj heq
  exact JScript.newline_not_mem_text he

/-- Declarations are read where their line is blank before them, and end on that line. -/
theorem Laid.anchored {t : Text} {w : Marked Declaration} (h : Laid .jscript t w) :
    Marked.Anchored (fun d => '\n' ∉ d.text) true w := by
  induction h with
  | last => exact Marked.anchored_plain _
  | line _ _ _ ih => exact Marked.anchored_line _ ih
  | lastDeclaration hi hl hr =>
    exact Marked.anchored_item (fun c hc => Text.isBlank_of_isSpaceOrTab (hi c hc))
      (Declaration.newline_not_mem_of_read? hr) (Marked.anchored_plain _)
  | declaration hi hl hr _ ih =>
    exact Marked.anchored_item (fun c hc => Text.isBlank_of_isSpaceOrTab (hi c hc))
      (Declaration.newline_not_mem_of_read? hr) (Marked.anchored_line _ ih)

/-! ### Literals on one line -/

theorem Text.Passes.newline_not_mem {q q' : Text.Quoting} {t : Text} (h : Text.Passes q t q') :
    '\n' ∉ t := by
  induction h with
  | nil => simp
  | cons hn _ _ ih => simp [Ne.symm hn, ih]

/-- A literal stands on one line. -/
theorem Value.newline_not_mem_literal {v : Value} {literal : Text} (h : v.encode = .ok literal) :
    '\n' ∉ literal :=
  (Text.Passes.of_encode h).newline_not_mem

/-! ### Slots on one line -/

/-- The slot is written on one line, under the name of its key. -/
structure Slot.OneLine (s : Slot) : Prop where
  bracket : ∃ u, s.text = '[' :: u
  newline : '\n' ∉ s.text
  writtenName : ∃ mode, s.writtenName = Name.written s.key mode

theorem Name.newline_not_mem_key {key : Text} (h : Name.IsPlain .jscript key) : '\n' ∉ key :=
  Text.not_mem_of_forall h.2.1 (by decide)

theorem Slot.oneLine_write {key literal : Text} {value : Value} (hk : '\n' ∉ key)
    (hv : value.encode = .ok literal) (mode : Bool) :
    (Slot.write key (Name.written key mode) value).OneLine := by
  have hname : '\n' ∉ Name.written key mode := by
    have hs : '\n' ∉ suffix := by decide
    unfold Name.written
    split_ifs
    · simp [hk, hs]
    · exact hk
  have hdisplay : '\n' ∉ value.display := by
    rw [Value.display, hv]
    exact Value.newline_not_mem_literal hv
  have hopening : "[assembly: ".toList = '[' :: "assembly: ".toList := by decide
  refine ⟨⟨"assembly: ".toList ++ (Name.written key mode ++ '(' :: value.display ++ [')', ']']), ?_⟩,
    ?_, mode, rfl⟩
  · simp [Slot.write, Fragment.ofAttribute, Fragment.text, hopening]
  · simp [Slot.write, Fragment.ofAttribute, Fragment.text, hopening, hname, hdisplay]

/-- The slots of declarations that are read in a text stand as the declarations do. -/
theorem Reads.anchored {dialect : Dialect} {mode mode' blank : Bool} {w : Marked Declaration}
    {r : Marked Slot} (h : Reads dialect mode w mode' r)
    (hw : w.Anchored (fun d => '\n' ∉ d.text) blank) : r.Anchored Slot.OneLine blank := by
  induction h generalizing blank with
  | nil => trivial
  | char c _ ih => exact ih hw
  | @declaration _ _ _ _ d name value _ _ ih =>
    obtain ⟨hblank, hn, hw⟩ := hw
    exact ⟨hblank, ⟨d.text_eq_cons, hn, _, rfl⟩, ih hw⟩

namespace Outline

variable {o : Outline} {key literal : Text} {value : Value}

open Marked (keys fill only plain blankAfter)

/-- A JScript outline whose slots stand in lines of their own. -/
structure Anchored (o : Outline) : Prop where
  dialect_eq : o.dialect = .jscript
  slots : o.body.Anchored Slot.OneLine true

theorem Readable.anchored (h : o.Readable) (hd : o.dialect = .jscript) : o.Anchored := by
  obtain ⟨dialect, body, mode⟩ := o
  obtain rfl : dialect = .jscript := hd
  exact ⟨rfl, Reads.anchored h (Laid.anchored (laid_iff.2 rfl))⟩

theorem eq_nil_of_text {w : Marked Slot} (h : Marked.text Slot.text w = []) : w = [] := by
  cases w with
  | nil => rfl
  | cons x w =>
    cases x with
    | inl c => contradiction
    | inr s => simp [s.text_ne_nil] at h

/-- Blanks at the end that hold a line feed end with a line that is blank so far. -/
theorem blankAfter_of_trailingBlanks {w : Marked Slot} {blank : Bool}
    (h : '\n' ∈ Text.trailingBlanks (Marked.text Slot.text w)) : blankAfter blank w = true := by
  induction w using List.reverseRecOn with
  | nil => contradiction
  | append_singleton w x ih =>
    cases x with
    | inr s =>
      rw [Marked.text_append, Marked.text_inr, s.trailingBlanks_append] at h
      contradiction
    | inl c =>
      rw [Marked.text_append, Marked.text_inl, Marked.text_nil] at h
      by_cases hb : Text.isBlank c
      · by_cases hc : c = '\n'
        · rw [hc]
          exact Marked.blankAfter_newline blank w
        · have hlast : '\n' ∈ Text.trailingBlanks (Marked.text Slot.text w) := by
            simpa [Text.trailingBlanks, hb, Ne.symm hc] using h
          simp [Marked.blankAfter_append, blankAfter, ih hlast, hb]
      · rw [Text.trailingBlanks_append_cons _ _ (by simpa using hb)] at h
        contradiction

/-- An added slot stands in a line that is blank before it. -/
theorem blankAfter_separator (w : Marked Slot) :
    blankAfter true (w ++ plain (separator (Marked.text Slot.text w))) = true := by
  unfold separator
  split_ifs with h
  · rw [Marked.plain_nil, List.append_nil]
    rcases h with h | h
    · rw [eq_nil_of_text h]
      rfl
    · exact blankAfter_of_trailingBlanks h
  · exact Marked.blankAfter_newline true w

/-- The line of a slot is no header line, whatever the slot says. -/
theorem hasHeader_slot {w : Marked Slot} {s : Slot} (h : blankAfter true w = true) (hs : s.OneLine)
    (z : Text) :
    Dialect.hasHeader .jscript (Marked.text Slot.text w ++ (s.text ++ z)) =
      (Dialect.hasHeader .jscript (Marked.text Slot.text w) ||
        Dialect.hasHeader .jscript ('[' :: z)) := by
  obtain ⟨x, y, htext, hx, hy, hn⟩ := Marked.exists_blank_line h
  obtain ⟨u, hu⟩ := hs.bracket
  have hnu : '\n' ∉ u := by
    have hnewline := hs.newline
    rw [hu] at hnewline
    exact fun hm => hnewline (List.mem_cons_of_mem _ hm)
  have hblank : Dialect.hasHeader .jscript y = false := by
    have hline := Dialect.isHeader_blank_append hy (.inl rfl)
    rw [List.append_nil] at hline
    rw [Dialect.hasHeader_of_not_mem hn, hline]
  rw [htext, List.append_assoc, Dialect.hasHeader_lineStart hx, hu,
    Dialect.hasHeader_bracket hy hn hnu, Dialect.hasHeader_lineStart hx, hblank, Bool.or_false]

theorem hasHeader_separator (t : Text) :
    Dialect.hasHeader .jscript (t ++ separator t) = Dialect.hasHeader .jscript t := by
  unfold separator
  split_ifs
  · rw [List.append_nil]
  · rw [Dialect.hasHeader_newline, Dialect.hasHeader_nil, Bool.or_false]

/-- A value for a known key changes no other line. -/
theorem Anchored.fill (h : o.Anchored) (hk : key ∈ keys o.body) (hn : '\n' ∉ key)
    (hv : value.encode = .ok literal) :
    Anchored { o with body := fill (only key value) o.body } ∧
      Dialect.hasHeader .jscript (Outline.text { o with body := fill (only key value) o.body }) =
        Dialect.hasHeader .jscript o.text := by
  obtain ⟨a, s, b, hbody, hs, hfill⟩ := Marked.exists_fill_only hk
  have hslots := h.slots
  rw [hbody, Marked.anchored_append] at hslots
  obtain ⟨ha, hblank, hold, hrest⟩ := hslots
  have hnew : (s.put value).OneLine := by
    obtain ⟨mode, hmode⟩ := hold.writtenName
    rw [Slot.put, hmode, hs]
    exact Slot.oneLine_write hn hv mode
  rw [text, text, hfill, hbody]
  refine ⟨⟨h.dialect_eq, Marked.anchored_append.2 ⟨ha, hblank, hnew, hrest⟩⟩, ?_⟩
  simp only [Marked.text_append, Marked.text_inr]
  rw [hasHeader_slot hblank hnew, hasHeader_slot hblank hold]

/-- An added declaration stands in a line that was blank. -/
theorem Anchored.append {name : Name} (h : o.Anchored) (hn : '\n' ∉ name.key)
    (hv : value.encode = .ok literal) :
    (o.append name value).Anchored ∧
      Dialect.hasHeader .jscript (o.append name value).text = Dialect.hasHeader .jscript o.text := by
  have hblank := blankAfter_separator o.body
  have hnew : (o.newSlot name value).OneLine := Slot.oneLine_write hn hv _
  constructor
  · refine ⟨h.dialect_eq, ?_⟩
    rw [Outline.append, ← List.append_assoc, Marked.anchored_append, Marked.anchored_append]
    exact ⟨⟨h.slots, Marked.anchored_plain _⟩, hblank, hnew, trivial⟩
  · have htext : (o.append name value).text =
        Marked.text Slot.text (o.body ++ plain (separator (Marked.text Slot.text o.body))) ++
          ((o.newSlot name value).text ++ []) := by
      simp [text, Outline.append]
    rw [htext, hasHeader_slot hblank hnew, Marked.text_append, Marked.text_plain,
      hasHeader_separator]
    exact Bool.or_false _

/-- Setting an attribute neither adds a header line nor takes one away. -/
theorem Anchored.set (h : o.Anchored) (hp : Name.IsPlain .jscript key)
    (hv : value.encode = .ok literal) :
    (o.set key value).Anchored ∧
      Dialect.hasHeader .jscript (o.set key value).text = Dialect.hasHeader .jscript o.text := by
  have hn : '\n' ∉ (Name.canonical o.dialect key).key := by
    rw [h.dialect_eq]
    exact Name.newline_not_mem_key (Name.isKey_canonical hp).isPlain
  by_cases hk : (Name.canonical o.dialect key).key ∈ keys o.body
  · rw [set_of_mem value hk]
    exact h.fill hk hn hv
  · rw [set_of_not_mem value hk]
    exact h.append hn hv

theorem Anchored.setAll {sets : List (Text × Value)} (h : o.Anchored)
    (hp : ∀ p ∈ sets, Name.IsPlain .jscript p.1)
    (hv : ∀ p ∈ sets, ∃ literal, p.2.encode = .ok literal) :
    (o.setAll sets).Anchored ∧
      Dialect.hasHeader .jscript (o.setAll sets).text = Dialect.hasHeader .jscript o.text := by
  induction sets generalizing o with
  | nil => exact ⟨h, rfl⟩
  | cons p sets ih =>
    obtain ⟨literal, hl⟩ := hv p List.mem_cons_self
    obtain ⟨hnext, hheader⟩ := h.set (hp p List.mem_cons_self) hl
    obtain ⟨hlast, hheaders⟩ := ih hnext (fun q hq => hp q (List.mem_cons_of_mem p hq))
      fun q hq => hv q (List.mem_cons_of_mem p hq)
    exact ⟨hlast, hheaders.trans hheader⟩

theorem text_set_ne_nil (key : Text) (value : Value) (h : o.text ≠ []) :
    (o.set key value).text ≠ [] := by
  by_cases hk : (Name.canonical o.dialect key).key ∈ keys o.body
  · rw [set_of_mem value hk]
    exact mt (text_fill_eq_nil _ _).1 h
  · rw [set_of_not_mem value hk]
    obtain ⟨u, hu⟩ := o.text_append_eq (Name.canonical o.dialect key) value
    simp [hu]

end Outline

end AssemblyInfo
