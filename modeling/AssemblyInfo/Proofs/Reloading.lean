import AssemblyInfo.Proofs.Editing
import AssemblyInfo.Proofs.Name
import AssemblyInfo.Proofs.Relayout

/-! Documents that are saved and loaded again. An outline is readable if it is what its own text is
read as. Setting an attribute keeps an outline readable, so that the document in memory and the one
that is loaded from its text have one outline, and nothing tells them apart from then on. A
declaration that is written anew is read where the old one was. One that is added needs more: the
last line must be blank, and in C# no declaration may be open there. -/

namespace AssemblyInfo

open Declaration (CSharp Holds)
open Marked (keys fill only plain)

variable {dialect : Dialect}

/-- If the blanks that end a text hold a line feed, only spaces and tabs follow the last one. -/
def Text.EndsBlank (t : Text) : Prop :=
  '\n' ∈ t.trailingBlanks →
    ∃ a b, t.trailingBlanks = a ++ '\n' :: b ∧ ∀ c ∈ b, Text.isSpaceOrTab c

/-! ### Reading what was written -/

section Written

variable {key literal : Text} {value : Value} {m mode mode' : Bool}

theorem Slot.ofDeclaration_written (hm : (mode || m) = m)
    (hc : Name.canonical dialect (Name.written key m) = ⟨key, m⟩)
    (he : value.encode = .ok literal) :
    Slot.ofDeclaration dialect mode (Declaration.written dialect (Name.written key m) literal)
      (Name.written key m) value = Slot.write key (Name.written key m) value := by
  apply Slot.ext
  · simp [ofDeclaration, write, hc]
  · simp [ofDeclaration, write, hc, hm]
  · rfl
  · simp [ofDeclaration, write, Declaration.text_written, Value.display, he]

/-- A written declaration is read as the slot that it was written for. -/
theorem Reads.written {w : Marked Declaration} {r : Marked Slot} (hkey : Name.IsKey dialect key)
    (hc : Name.canonical dialect (Name.written key m) = ⟨key, m⟩) (hm : (mode || m) = m)
    (hl : Holds dialect value literal) (h : Reads dialect m w mode' r) :
    Reads dialect mode (.inr (Declaration.written dialect (Name.written key m) literal) :: w) mode'
      (.inr (Slot.write key (Name.written key m) value) :: r) := by
  have hdeclared := Declaration.declared_written (Name.isName_written hkey m) hl
  have hrest : Reads dialect (mode || (Name.canonical dialect (Name.written key m)).suffixed) w
      mode' r := by
    rw [hc, hm]
    exact h
  have hread := Reads.declaration hdeclared hrest
  rwa [Slot.ofDeclaration_written hm hc hl.encode_eq] at hread

end Written

/-! ### Readable outlines -/

namespace Outline

/-- The outline is what its text is read as. -/
def Readable (o : Outline) : Prop :=
  Reads o.dialect o.dialect.alwaysSuffixed (layout o.dialect o.text) o.suffixMode o.body

variable {o : Outline} {key literal : Text} {value : Value}

/-- A JScript document is in suffix mode from the start. -/
theorem alwaysSuffixed_of_reads {mode : Bool} {w : Marked Declaration} {r : Marked Slot}
    (h : Reads dialect dialect.alwaysSuffixed w mode r) : dialect = .jscript → mode = true := by
  rintro rfl
  exact h.mode_le rfl

theorem readable_of_laid {t : Text} {mode : Bool} {w : Marked Declaration} {r : Marked Slot}
    (hl : Laid dialect t w) (hr : Reads dialect dialect.alwaysSuffixed w mode r) :
    Readable ⟨dialect, r, mode⟩ := by
  have ht : Outline.text ⟨dialect, r, mode⟩ = t := by
    rw [Outline.text, hr.text_eq, hl.text_eq]
  rw [Readable, ht, laid_iff.1 hl]
  exact hr

/-- A value for a known key leaves the outline readable. -/
theorem Readable.fill (h : o.Readable) (hkey : Name.IsKey o.dialect key)
    (hl : Holds o.dialect value literal) (hk : key ∈ keys o.body) :
    Readable { o with body := fill (only key value) o.body } := by
  obtain ⟨a, s, b, hbody, hs, hfill⟩ := Marked.exists_fill_only hk
  rw [hfill]
  have hread := h
  rw [Readable, hbody] at hread
  obtain ⟨m, u, v, d, n, value', hw, hu, hd, rfl, hv⟩ := hread.split
  obtain rfl : (Name.canonical o.dialect n).key = key := hs
  have hc := Name.canonical_written hkey (alwaysSuffixed_of_reads hu)
  generalize hm : (m || (Name.canonical o.dialect n).suffixed) = m' at hc hv
  have hnew := hu.append (Reads.written hkey hc (by simp [← hm]) hl hv)
  have hput : (Slot.ofDeclaration o.dialect m d n value').put value =
      Slot.write (Name.canonical o.dialect n).key
        (Name.written (Name.canonical o.dialect n).key m') value := by
    rw [← hm]
    rfl
  have hlaid := (laid_iff.2 hw).replace
    (Declaration.read?_written (Name.isName_written hkey m') hl)
  rw [hput]
  exact readable_of_laid hlaid hnew

theorem laid_separator {t : Text} {w : Marked Declaration} (h : Laid dialect t w) :
    Laid dialect (t ++ separator t) (w ++ plain (separator t)) := by
  unfold separator
  split_ifs
  · simpa using h
  · exact h.newline

theorem closed_separator {t : Text} (h : CSharp.Closed t) : CSharp.Closed (t ++ separator t) := by
  unfold separator
  split_ifs
  · simpa using h
  · exact h.newline

/-- An added declaration stands on a line that is blank before it, with spaces and tabs if the text
ends so, and only then. -/
theorem exists_last_line (t : Text) :
    ∃ s, Text.LineSuffix s (t ++ separator t) ∧ (∀ c ∈ s, Text.isBlank c) ∧ '\n' ∉ s ∧
      ((∀ c ∈ s, Text.isSpaceOrTab c) ↔ t.EndsBlank) := by
  unfold separator
  split_ifs with hsep
  · rcases hsep with rfl | hmem
    · exact ⟨[], .inl rfl, by simp, by simp, by simp [Text.EndsBlank, Text.trailingBlanks]⟩
    -- the last line feed is the first one from behind
    · obtain ⟨b, a, hab, hb⟩ := List.eq_append_cons_of_mem (List.mem_reverse.2 hmem)
      have hsplit : t.trailingBlanks = a.reverse ++ '\n' :: b.reverse := by
        rw [← t.trailingBlanks.reverse_reverse, hab]
        simp
      have hblank : ∀ c ∈ t.trailingBlanks, Text.isBlank c := fun c hc =>
        List.mem_takeWhile_imp (List.mem_reverse.1 hc)
      have hline : '\n' ∉ b.reverse := by simpa using hb
      refine ⟨b.reverse, .inr ⟨t.trimEnd ++ a.reverse, ?_⟩, fun c hc => hblank c ?_, hline,
        fun h _ => ⟨a.reverse, b.reverse, hsplit, h⟩, fun h => ?_⟩
      · rw [List.append_nil, List.append_assoc, ← hsplit, Text.trimEnd_append_trailingBlanks]
      · rw [hsplit]
        exact List.mem_append_right _ (List.mem_cons_of_mem _ hc)
      · obtain ⟨a', b', hsplit', hspace⟩ := h hmem
        have hline' : '\n' ∉ b' := Text.not_mem_of_forall hspace (by decide)
        have hsuffix : Text.LineSuffix b' (a.reverse ++ '\n' :: b.reverse) :=
          .inr ⟨a', by rw [← hsplit, hsplit']⟩
        rwa [(hsuffix.append hline').eq_of_not_mem hline] at hspace
  · refine ⟨[], .inr ⟨t, rfl⟩, by simp, by simp, ?_⟩
    simp only [not_or] at hsep
    simp [Text.EndsBlank, hsep.2]

/-- An added declaration leaves the outline readable. -/
theorem Readable.append (h : o.Readable) (hends : o.text.EndsBlank)
    (hclosed : o.dialect = .csharp → CSharp.Closed o.text) (hp : Name.IsPlain o.dialect key)
    (hl : Holds o.dialect value literal) :
    (o.append (Name.canonical o.dialect key) value).Readable := by
  have hkey := Name.isKey_canonical hp
  have hc := Name.canonical_written hkey (alwaysSuffixed_of_reads h)
  rw [Outline.append, newSlot]
  generalize hname : Name.canonical o.dialect key = name at hkey hc
  generalize hm : (o.suffixMode || name.suffixed) = m at hc
  have hmode : (o.suffixMode || m) = m := by simp [← hm]
  obtain ⟨d, hd⟩ : ∃ d, d = Declaration.written o.dialect (Name.written name.key m) literal :=
    ⟨_, rfl⟩
  have hslot : Reads o.dialect o.suffixMode [.inr d] m
      [.inr (Slot.write name.key (Name.written name.key m) value)] := by
    rw [hd]
    exact Reads.written hkey hc hmode hl .nil
  have hnew := Reads.append h ((Reads.plain (separator o.text)).append hslot)
  have hstands : d.Stands o.dialect := by
    rw [hd]
    exact Declaration.read?_written (Name.isName_written hkey m) hl
  obtain ⟨s, hs, -, -, hblank⟩ := exists_last_line o.text
  have hlaid := (laid_separator (laid_iff.2 rfl)).append hs (hblank.2 hends)
    (fun hd => closed_separator (hclosed hd)) hstands
  simp only [List.append_assoc] at hlaid
  exact readable_of_laid hlaid hnew

/-! ### Sound outlines -/

/-- An outline that can be read again after any attribute is set. -/
structure Sound (o : Outline) : Prop where
  readable : o.Readable
  endsBlank : o.text.EndsBlank
  closed : o.dialect = .csharp → CSharp.Closed o.text

theorem closed_fill (hc : CSharp.Closed o.text) (hk : key ∈ keys o.body) :
    CSharp.Closed (Outline.text { o with body := Marked.fill (only key value) o.body }) := by
  obtain ⟨a, s, b, hbody, -, hfill⟩ := Marked.exists_fill_only hk
  rw [text, hbody] at hc
  rw [text, hfill]
  obtain ⟨u, hu⟩ : ∃ u, (s.put value).text = u ++ [')', ']'] := ⟨_, rfl⟩
  have htext : Marked.text Slot.text (a ++ .inr (s.put value) :: b) =
      Marked.text Slot.text a ++ u ++ ')' :: ']' :: Marked.text Slot.text b := by
    simp [hu]
  rw [htext]
  apply CSharp.closed_of_bracket
  intro x y hxy
  apply hc
  rw [Marked.text_append, Marked.text_inr, hxy]
  exact .inr ⟨Marked.text Slot.text a ++ (s.text ++ x), by simp⟩

theorem text_append_eq (o : Outline) (name : Name) (value : Value) :
    ∃ u, (o.append name value).text = u ++ [')', ']'] := by
  obtain ⟨u, hu⟩ : ∃ u, (o.newSlot name value).text = u ++ [')', ']'] := ⟨_, rfl⟩
  exact ⟨o.text ++ (separator o.text ++ u), by simp [text, append, hu]⟩

/-- Setting an attribute keeps an outline sound. -/
theorem Sound.set (h : o.Sound) (hp : Name.IsPlain o.dialect key)
    (hl : Holds o.dialect value literal) : (o.set key value).Sound := by
  by_cases hk : (Name.canonical o.dialect key).key ∈ keys o.body
  · rw [set_of_mem value hk]
    refine ⟨h.readable.fill (Name.isKey_canonical hp) hl hk, ?_,
      fun hd => closed_fill (h.closed hd) hk⟩
    rw [Text.EndsBlank, text, trailingBlanks_fill]
    exact h.endsBlank
  · rw [set_of_not_mem value hk]
    obtain ⟨u, hu⟩ := o.text_append_eq (Name.canonical o.dialect key) value
    refine ⟨h.readable.append h.endsBlank h.closed hp hl, ?_, fun _ => ?_⟩
    · intro hm
      rw [hu, Text.trailingBlanks_append_cons _ _ (by decide)] at hm
      exact absurd hm (by decide)
    · rw [hu]
      apply CSharp.closed_of_bracket
      simp

theorem dialect_set (o : Outline) (key : Text) (value : Value) :
    (o.set key value).dialect = o.dialect := by
  by_cases hk : (Name.canonical o.dialect key).key ∈ keys o.body
  · rw [set_of_mem value hk]
  · rw [set_of_not_mem value hk]
    rfl

theorem dialect_setAll (o : Outline) (sets : List (Text × Value)) :
    (o.setAll sets).dialect = o.dialect := by
  induction sets generalizing o with
  | nil => rfl
  | cons p sets ih => exact (ih (o.set p.1 p.2)).trans (o.dialect_set p.1 p.2)

theorem Sound.setAll {sets : List (Text × Value)} (h : o.Sound)
    (hp : ∀ p ∈ sets, Name.IsPlain o.dialect p.1)
    (hl : ∀ p ∈ sets, ∃ literal, Holds o.dialect p.2 literal) : (o.setAll sets).Sound := by
  induction sets generalizing o with
  | nil => exact h
  | cons p sets ih =>
    obtain ⟨key, value⟩ := p
    obtain ⟨literal, hlit⟩ := hl (key, value) List.mem_cons_self
    have hnext := h.set (hp (key, value) List.mem_cons_self) hlit
    apply ih hnext
    · intro q hq
      rw [dialect_set]
      exact hp q (List.mem_cons_of_mem _ hq)
    · intro q hq
      rw [dialect_set]
      exact hl q (List.mem_cons_of_mem _ hq)

end Outline

/-! ### Documents -/

namespace Document

variable {doc : Document} {t : Text}

theorem exists_readable_of_ofText (h : ofText dialect t = .ok doc) :
    ∃ o : Outline, o.dialect = dialect ∧ o.text = t ∧ o.Readable ∧ Shows doc o := by
  obtain ⟨mode, r, hr, hs⟩ := exists_reads_of_ofText h
  have hl : Laid dialect t (layout dialect t) := laid_iff.2 rfl
  refine ⟨⟨dialect, r, mode⟩, rfl, ?_, Outline.readable_of_laid hl hr, hs⟩
  rw [Outline.text, hr.text_eq, hl.text_eq]

/-- The text of a readable outline is loaded as a document that shows the outline. -/
theorem exists_ofText_of_readable {o : Outline} (h : o.Readable) :
    ∃ doc, ofText o.dialect o.text = .ok doc ∧ Shows doc o ∧ doc.Tidy := by
  obtain ⟨doc, hdoc, hs⟩ := shows_of_reads h
  exact ⟨doc, hdoc, hs, tidy_of_ofText hdoc⟩

/-- What is set can be looked up. -/
theorem get?_of_set {doc' : Document} {key : Text} {value : Value}
    (h : doc.set key value = .ok doc') : doc'.get? key = some value := by
  obtain ⟨literal, -, hdoc'⟩ := Except.map_eq_ok_iff.1 h
  have hend : doc.endLine.dialect = doc.dialect := by
    unfold endLine
    split_ifs
    · rfl
    · rfl
  cases hfind : doc.registry.find? (Name.canonical doc.dialect key).key with
  | some entry =>
    simp only [hfind] at hdoc'
    subst hdoc'
    simp [get?, replace]
  | none =>
    simp only [hfind] at hdoc'
    subst hdoc'
    simp [get?, append, register, push, hend]

/-- An attribute that can be looked up has a slot. -/
theorem Shows.mem_keys {o : Outline} {key : Text} (h : Shows doc o) (hk : doc.get? key ≠ none) :
    (Name.canonical o.dialect key).key ∈ keys o.body := by
  obtain ⟨parts, hp⟩ := h
  by_contra hm
  rw [get?, hp.dialect_eq, hp.registry_eq, Part.find?_registerAll _ _ (hp.body_eq ▸ hm)] at hk
  exact hk rfl

/-- Saving and loading cannot be noticed: the document that is loaded from the text of the edited
one has the same attributes, and whatever is set in both of them afterwards, they are written alike
and give the same values. -/
theorem reload_setAll {sets : List (Text × Value)} (h : ofText dialect t = .ok doc)
    (hends : t.EndsBlank) (hclosed : dialect = .csharp → CSharp.Closed t)
    (hsets : ∀ p ∈ sets, Name.IsPlain dialect p.1 ∧ p.2.isExact)
    (hparen : dialect = .csharp → ∀ p ∈ sets, ∀ literal, p.2.encode = .ok literal → ')' ∉ literal) :
    ∃ edited reloaded, doc.setAll sets = .ok edited ∧
      ofText dialect (edited.render false) = .ok reloaded ∧
      reloaded.attributes = edited.attributes ∧
      ∀ more : List (Text × Value), (∀ p ∈ more, ∃ literal, p.2.encode = .ok literal) →
        ∃ edited' reloaded', edited.setAll more = .ok edited' ∧
          reloaded.setAll more = .ok reloaded' ∧
          reloaded'.render false = edited'.render false ∧
          reloaded'.attributes = edited'.attributes ∧
          ∀ key, reloaded'.get? key = edited'.get? key := by
  obtain ⟨o, rfl, rfl, hr, hs⟩ := exists_readable_of_ofText h
  have hsound : o.Sound := ⟨hr, hends, hclosed⟩
  have hholds : ∀ p ∈ sets, ∃ literal, Holds o.dialect p.2 literal := by
    intro p hp
    obtain ⟨literal, hl⟩ := Value.exists_encode (hsets p hp).2
    exact ⟨literal, (hsets p hp).2, hl, fun hd => hparen hd p hp literal hl⟩
  have hencode : ∀ p ∈ sets, ∃ literal, p.2.encode = .ok literal := by
    intro p hp
    exact Value.exists_encode (hsets p hp).2
  obtain ⟨edited, hedited, hse, hte⟩ := hs.setAll (tidy_of_ofText h) hencode
  have hnew := hsound.setAll (fun p hp => (hsets p hp).1) hholds
  obtain ⟨reloaded, hreloaded, hsr, htr⟩ := exists_ofText_of_readable hnew.readable
  refine ⟨edited, reloaded, hedited, ?_, ?_, ?_⟩
  · rw [render_false, hse.text_eq, ← Outline.dialect_setAll o sets]
    exact hreloaded
  · rw [hse.attributes_eq, hsr.attributes_eq]
  · intro more hmore
    obtain ⟨edited', hedited', hse', -⟩ := hse.setAll hte hmore
    obtain ⟨reloaded', hreloaded', hsr', -⟩ := hsr.setAll htr hmore
    refine ⟨edited', reloaded', hedited', hreloaded', ?_, ?_, ?_⟩
    · rw [render_false, render_false, hse'.text_eq, hsr'.text_eq]
    · rw [hse'.attributes_eq, hsr'.attributes_eq]
    · intro key
      exact hsr'.get?_eq hse' key

/-- The text ends with a tab on a line of its own. One declaration is added there, and another one
is written anew with a bracket in its value. -/
theorem reload_setAll_added : ∃ doc edited reloaded,
    ofText .csharp "[assembly: A(1)]\n\t".toList = .ok doc ∧
      doc.setAll [("BAttribute".toList, .bool true), ("A".toList, .string "]".toList)] =
        .ok edited ∧
      ofText .csharp (edited.render false) = .ok reloaded ∧
      reloaded.attributes = edited.attributes := by
  obtain ⟨doc, h⟩ : ∃ doc, ofText .csharp "[assembly: A(1)]\n\t".toList = .ok doc :=
    Except.exists_of_isOk (by decide +kernel)
  have hclosed : CSharp.Closed "[assembly: A(1)]\n\t".toList := by
    apply CSharp.closed_of_bracket "[assembly: A(1".toList (t := ['\n', '\t'])
    intro a s hs ho
    obtain ⟨indent, -, d, -, rfl⟩ := ho
    have hm : '[' ∈ ['\n', '\t'] := by simp [hs, CSharp.opening]
    exact absurd hm (by decide)
  have hsets : ∀ p ∈ [("BAttribute".toList, Value.bool true), ("A".toList, .string "]".toList)],
      Name.IsPlain .csharp p.1 ∧ p.2.isExact := by decide
  have hparen : ∀ p ∈ [("BAttribute".toList, Value.bool true), ("A".toList, .string "]".toList)],
      ∀ literal, p.2.encode = .ok literal → ')' ∉ literal := by
    intro p hp literal hl
    rcases List.mem_pair.1 hp with rfl | rfl
    · cases hl
      decide
    · cases hl
      decide
  obtain ⟨edited, reloaded, hedited, hreloaded, hattributes, -⟩ := reload_setAll h
    (fun _ => ⟨[], ['\t'], by decide +kernel, by simp [Text.isSpaceOrTab]⟩) (fun _ => hclosed) hsets
    (fun _ => hparen)
  exact ⟨doc, edited, reloaded, h, hedited, hreloaded, hattributes⟩

/-- A string without closing parenthesis that is set for a declared attribute of a C# document is
there after saving and loading. -/
theorem get?_reload_string {key s : Text} (h : ofText .csharp t = .ok doc)
    (hp : Name.IsPlain .csharp key) (hk : doc.get? key ≠ none) (hs : ')' ∉ s) (header : Bool) :
    ∃ edited reloaded, doc.set key (.string s) = .ok edited ∧
      ofText .csharp (edited.render header) = .ok reloaded ∧
      reloaded.get? key = some (.string s) := by
  obtain ⟨o, hd, rfl, hr, hshows⟩ := exists_readable_of_ofText h
  have hl : Holds o.dialect (.string s) (Json.quote s) :=
    ⟨rfl, rfl, fun _ => Json.parenthesis_not_mem_quote hs⟩
  have hmem := hshows.mem_keys hk
  rw [← hd] at hp
  have hnew := hr.fill (Name.isKey_canonical hp) hl hmem
  obtain ⟨edited, hedited, hse, -⟩ := hshows.set (tidy_of_ofText h) hl.encode_eq key
  rw [Outline.set_of_mem _ hmem] at hse
  obtain ⟨reloaded, hreloaded, hsr, -⟩ := exists_ofText_of_readable hnew
  refine ⟨edited, reloaded, hedited, ?_, ?_⟩
  · rw [render_csharp (hse.dialect_eq.trans hd), hse.text_eq, ← hd]
    exact hreloaded
  · rw [hsr.get?_eq hse, get?_of_set hedited]

/-- An opening parenthesis, a bracket and a double quote in the string do not matter. -/
theorem get?_reload_string_bracket : ∃ doc edited reloaded,
    ofText .csharp "[assembly: A(1)]".toList = .ok doc ∧
      doc.set "A".toList (.string "a(]\"".toList) = .ok edited ∧
      ofText .csharp (edited.render true) = .ok reloaded ∧
      reloaded.get? "A".toList = some (.string "a(]\"".toList) := by
  obtain ⟨doc, h⟩ : ∃ doc, ofText .csharp "[assembly: A(1)]".toList = .ok doc :=
    Except.exists_of_isOk (by decide +kernel)
  have hk : doc.get? "A".toList ≠ none := by
    have hget : (ofText .csharp "[assembly: A(1)]".toList).toOption.bind
        (·.get? "A".toList) ≠ none := by decide +kernel
    rwa [h] at hget
  obtain ⟨edited, reloaded, hrest⟩ := get?_reload_string h (s := "a(]\"".toList) (by decide) hk
    (by decide) true
  exact ⟨doc, edited, reloaded, h, hrest⟩

/-- A string with a closing parenthesis is lost: the declaration that holds it is not read. -/
theorem get?_reload_parenthesis : ∃ doc edited reloaded,
    ofText .csharp "[assembly: A(1)]".toList = .ok doc ∧ doc.get? "A".toList ≠ none ∧
      doc.set "A".toList (.string ")".toList) = .ok edited ∧
      ofText .csharp (edited.render true) = .ok reloaded ∧ reloaded.get? "A".toList = none := by
  have h := Except.eq_ok_of_toOption (x := do
    let doc ← ofText .csharp "[assembly: A(1)]".toList
    let edited ← doc.set "A".toList (.string ")".toList)
    let reloaded ← ofText .csharp (edited.render true)
    .ok ((doc.get? "A".toList).isSome, reloaded.get? "A".toList)) (a := (true, none))
    (by decide +kernel)
  obtain ⟨doc, hdoc, h⟩ := Except.bind_eq_ok_iff.1 h
  obtain ⟨edited, hedited, h⟩ := Except.bind_eq_ok_iff.1 h
  obtain ⟨reloaded, hreloaded, h⟩ := Except.bind_eq_ok_iff.1 h
  obtain ⟨hget, hnone⟩ := Prod.mk.inj (Except.ok.inj h)
  refine ⟨doc, edited, reloaded, hdoc, ?_, hedited, hreloaded, hnone⟩
  exact Option.isSome_iff_ne_none.1 hget

end Document

end AssemblyInfo
