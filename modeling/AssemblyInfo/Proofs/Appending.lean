import AssemblyInfo.Proofs.OrderedMap
import AssemblyInfo.Proofs.Reloading
import AssemblyInfo.Proofs.Scan

/-! Declarations that are appended. An appended declaration stands on a line that is blank before
it: a line feed is put in front if the blanks at the end of the text hold none. Blanks are more than
spaces and tabs, though, and only these may stand before a declaration that is to be read. So the
blanks after the last line feed decide whether the declaration is found again. -/

namespace AssemblyInfo

open Text (LineStart LineSuffix isBlank isSpaceOrTab)

theorem Text.LineSuffix.exists_lineStart {s t : Text} (h : LineSuffix s t) :
    ∃ before, t = before ++ s ∧ LineStart before := by
  rcases h with rfl | ⟨a, rfl⟩
  · exact ⟨[], rfl, .inl rfl⟩
  · exact ⟨a ++ ['\n'], by simp, .inr ⟨a, rfl⟩⟩

namespace Document

variable {dialect : Dialect} {source : Text} {doc : Document}

theorem text_endLine (ht : doc.Tidy) :
    doc.endLine.text = doc.text ++ Outline.separator doc.text := by
  rcases ht.endLine_cases with ⟨hline, hsep⟩ | ⟨hline, hsep⟩
  · rw [hline, hsep]
    simp [text, push, Fragment.text]
  · rw [hline, hsep, List.append_nil]

theorem render_append {name : Name} (h : doc.registry.find? name.key = none) (value : Value)
    (literal : Text) :
    (doc.append name value literal).render false = doc.endLine.text ++ (Fragment.ofAttribute
      (Name.written name.key (doc.endLine.suffixMode || name.suffixed)) literal).text := by
  rw [render_false, text, fragments_append h, List.flatMap_append, List.flatMap_singleton]
  rfl

theorem tidy_trySetAll (h : ofText dialect source = .ok doc) (requests : List Request) :
    (doc.trySetAll requests).Tidy := by
  obtain ⟨mode, r, -, hs⟩ := exists_reads_of_ofText h
  refine (trySetAll_invariant (P := fun d => (∃ o, Shows d o) ∧ d.Tidy) ?_
    ⟨⟨_, hs⟩, tidy_of_ofText h⟩ requests).2
  rintro d key value d' ⟨⟨o, hd⟩, ht⟩ hset
  obtain ⟨literal, hl, -⟩ := set_cases hset
  obtain ⟨d'', hset', hs', ht'⟩ := hd.set ht hl key
  obtain rfl := Except.ok.inj (hset.symm.trans hset')
  exact ⟨⟨_, hs'⟩, ht'⟩

/-- An appended declaration follows the text, after a line feed if one is needed, and has only blanks
before it on its line. They are spaces and tabs if the text ended so, and only then. -/
theorem set_appends_on_blank_line {key literal : Text} {value : Value}
    (h : ofText dialect source = .ok doc) (requests : List Request)
    (hkey : (doc.trySetAll requests).get? key = none) (hl : value.encode = .ok literal) :
    ∃ edited before line name, (doc.trySetAll requests).set key value = .ok edited ∧
      edited.render false = before ++ (line ++ (Fragment.ofAttribute name literal).text) ∧
      before ++ line = (doc.trySetAll requests).render false ++
        Outline.separator ((doc.trySetAll requests).render false) ∧
      LineStart before ∧ (∀ c ∈ line, isBlank c) ∧ '\n' ∉ line ∧
      ((∀ c ∈ line, isSpaceOrTab c) ↔ ((doc.trySetAll requests).render false).EndsBlank) := by
  have ht := tidy_trySetAll h requests
  generalize doc.trySetAll requests = d at hkey ht
  have hfind : d.registry.find? (Name.canonical d.dialect key).key = none :=
    Option.map_eq_none_iff.1 hkey
  obtain ⟨line, hs, hblank, hline, hspace⟩ := Outline.exists_last_line d.text
  obtain ⟨before, hlast, hstart⟩ := hs.exists_lineStart
  have htext := render_append hfind value literal
  rw [text_endLine ht, hlast, List.append_assoc] at htext
  refine ⟨_, before, line, _, set_eq_append hl hfind, htext, ?_, hstart, hblank, hline, ?_⟩
  · rw [render_false, hlast]
  · rw [render_false]
    exact hspace

/-- An earlier request has changed the text before the line with the tab, which is kept. -/
theorem set_appends_on_blank_line_tab : ∃ doc edited before line name,
    ofText .jscript "[assembly: A(1)]\n\t".toList = .ok doc ∧
    (doc.trySetAll [("a".toList, .ok (.string "]".toList))]).get? "B".toList = none ∧
    (doc.trySetAll [("a".toList, .ok (.string "]".toList))]).set "B".toList (.bool true) =
      .ok edited ∧
    edited.render false = before ++ (line ++ (Fragment.ofAttribute name "true".toList).text) ∧
    LineStart before ∧ (∀ c ∈ line, isBlank c) ∧ '\n' ∉ line := by
  obtain ⟨doc, h⟩ : ∃ doc, ofText .jscript "[assembly: A(1)]\n\t".toList = .ok doc :=
    Except.exists_of_isOk (by decide +kernel)
  have hkey : (doc.trySetAll [("a".toList, .ok (.string "]".toList))]).get? "B".toList = none := by
    rw [get?_eq_find?, dialect_trySetAll, attributes_trySetAll (nodup_keys_of_ofText h),
      dialect_of_ofText h, attributes_of_ofText h]
    decide +kernel
  obtain ⟨edited, before, line, name, hset, hrender, -, hstart, hblank, hline, -⟩ :=
    set_appends_on_blank_line h _ hkey (rfl : (Value.bool true).encode = .ok "true".toList)
  exact ⟨doc, edited, before, line, name, h, hkey, hset, hrender, hstart, hblank, hline⟩

/-- A no-break space is blank, so that no line feed is put before the declaration, but it is neither
a space nor a tab. -/
theorem set_after_no_break_space : ∃ doc edited,
    ofText .csharp "\n\u00a0".toList = .ok doc ∧ doc.get? "A".toList = none ∧
    doc.set "A".toList (.bool true) = .ok edited ∧
    edited.render false = "\n\u00a0[assembly: A(true)]".toList ∧
    ¬∃ before line, edited.render false =
        before ++ (line ++ (Fragment.ofAttribute "A".toList "true".toList).text) ∧
      LineStart before ∧ ∀ c ∈ line, isSpaceOrTab c := by
  have h := Except.eq_ok_of_toOption (x := do
    let doc ← ofText .csharp "\n\u00a0".toList
    let edited ← doc.set "A".toList (.bool true)
    .ok (doc.get? "A".toList, edited.render false))
    (a := (none, "\n\u00a0[assembly: A(true)]".toList)) (by decide +kernel)
  obtain ⟨doc, hdoc, h⟩ := Except.bind_eq_ok_iff.1 h
  obtain ⟨edited, hset, h⟩ := Except.bind_eq_ok_iff.1 h
  obtain ⟨hkey, hrender⟩ := Prod.mk.inj (Except.ok.inj h)
  refine ⟨doc, edited, hdoc, hkey, hset, hrender, ?_⟩
  rintro ⟨before, line, htext, hstart, hspace⟩
  rw [hrender, ← List.append_assoc] at htext
  have hsplit : ['\n'] ++ ['\u00a0'] = before ++ line := List.append_cancel_right htext
  rcases List.eq_nil_or_concat' line with rfl | ⟨line, c, rfl⟩
  · rcases hstart with rfl | ⟨a, rfl⟩
    · exact absurd hsplit (by simp)
    · rw [List.append_nil] at hsplit
      exact absurd (List.append_inj' hsplit rfl).2 (by decide)
  · rw [← List.append_assoc] at hsplit
    obtain rfl := List.singleton_inj.1 (List.append_inj' hsplit rfl).2
    exact absurd (hspace '\u00a0' (by simp)) (by decide)

end Document

end AssemblyInfo
