import AssemblyInfo.Proofs.Call
import AssemblyInfo.Proofs.Capitals
import AssemblyInfo.Proofs.Header
import AssemblyInfo.Proofs.OrderedMap
import AssemblyInfo.Proofs.WrittenNames

/-! Names of JScript declarations that are written anew. A declaration is written with the name that
its key and the suffix give, where the first letter of the key is in upper case. This is a name that
a call can have, unless the letter is one of those whose upper-case form has a diacritic that is no
character of identifiers. With any other name a declaration is read again after it was written,
whatever value was set, and it declares the same key. -/

namespace AssemblyInfo

namespace Call

open Text (isIdentifierChar markedLetters)

variable {name : Text}

/-- A text is a call without an argument list exactly if it is a name. -/
theorem parse_bare_iff : parse name = .ok ⟨name, none⟩ ↔ IsCallee name := by
  refine parse_eq_ok_iff.trans ⟨IsCall.callee, fun h => ?_⟩
  have htrim : name.trim = name := Text.trim_of_no_blank fun c hc =>
    Text.isBlank_of_isIdentifierChar (h.isIdentifierChar c hc)
  rw [htrim]
  exact ⟨h, [], (List.append_nil name).symm, .nothing⟩

theorem isCallee_append_suffix (hne : name ≠ []) : IsCallee (name ++ suffix) ↔ IsCallee name := by
  have hsuffix : ∀ c ∈ suffix, isIdentifierChar c := List.all_eq_true.1 (by decide +kernel)
  constructor
  · intro h
    refine ⟨hne, fun c hc => h.isIdentifierChar c (List.mem_append_left _ hc), ?_⟩
    rw [← List.head?_append_of_ne_nil _ hne]
    exact h.start
  · intro h
    refine ⟨by simp [hne], fun c hc => ?_, ?_⟩
    · exact (List.mem_append.1 hc).elim (h.isIdentifierChar c) (hsuffix c)
    · rw [List.head?_append_of_ne_nil _ hne]
      exact h.start

/-- A capitalized name is a name, unless it began with a marked letter. -/
theorem isCallee_capitalize_iff (h : IsCallee name) :
    IsCallee name.capitalize ↔ ∀ c ∈ name.head?, c.toNat ∉ markedLetters := by
  obtain ⟨c, t, rfl⟩ := List.exists_cons_of_ne_nil h.ne_nil
  constructor
  · rintro hcapital c ⟨⟩ hm
    obtain ⟨d, hd, hnot⟩ := Text.exists_mem_uppercase_of_mem hm
    rw [hcapital.isIdentifierChar d (List.mem_append_left _ hd)] at hnot
    contradiction
  · intro hm
    obtain ⟨d, form, hform⟩ := List.exists_cons_of_ne_nil (Text.uppercase_ne_nil c)
    refine ⟨by simp [Text.capitalize, hform], fun e he => ?_, ?_⟩
    · rcases List.mem_append.1 he with he | he
      · exact Text.isIdentifierChar_of_mem_uppercase (h.isIdentifierChar c List.mem_cons_self)
          (hm c rfl) he
      · exact h.isIdentifierChar e (List.mem_cons_of_mem c he)
    · have hdigit := Text.isDigit_head_uppercase (by simpa using h.start c rfl) hform
      simp [Text.capitalize, hform, hdigit]

theorem key_canonical_ne_nil (h : IsCallee name) : (Name.canonical .jscript name).key ≠ [] := by
  rcases Name.ofText_cases name.capitalize with ⟨-, hne, -⟩ | ht
  · exact hne
  · obtain ⟨c, t, rfl⟩ := List.exists_cons_of_ne_nil h.ne_nil
    rw [Name.canonical, ht]
    simp [Text.capitalize, Text.uppercase_ne_nil]

/-- So is the name that is written for its key. -/
theorem isCallee_written_iff (h : IsCallee name) :
    IsCallee (Name.written (Name.canonical .jscript name).key true) ↔
      ∀ c ∈ name.head?, c.toNat ∉ markedLetters := by
  have hne := key_canonical_ne_nil h
  rw [← isCallee_capitalize_iff h, Name.written, if_pos rfl]
  rw [Name.canonical] at hne ⊢
  rcases Name.ofText_cases name.capitalize with ⟨-, -, ht⟩ | ht
  · rw [← ht]
  · rw [ht] at hne ⊢
    exact isCallee_append_suffix hne

/-- The name that is written for a key is read back as the key. -/
theorem canonical_written (h : IsCallee name) :
    Name.canonical .jscript (Name.written (Name.canonical .jscript name).key true) =
      ⟨(Name.canonical .jscript name).key, true⟩ :=
  Name.IsCanonical.canonical_append_suffix ⟨name, rfl⟩ (key_canonical_ne_nil h)

end Call

/-! ### Slots written anew -/

/-- The slot as it is read after a declaration was written for it: with the text for a value, and
with the value that its literal is read as. -/
def Slot.reread (s : Slot) (value value' : Value) : Slot := { s.put value with value := value' }

theorem Slot.text_reread {s : Slot} {literal : Text} {value : Value} (value' : Value)
    (hl : value.encode = .ok literal) :
    (s.reread value value').text = (Declaration.written .jscript s.writtenName literal).text := by
  show (Fragment.ofAttribute s.writtenName value.display).text = _
  rw [Declaration.text_written, Value.display, hl]

theorem Slot.ofDeclaration_reread {s : Slot} {literal : Text} {value : Value} (value' : Value)
    (hw : s.writtenName = Name.written s.key true)
    (hc : Name.canonical .jscript s.writtenName = ⟨s.key, true⟩)
    (hl : value.encode = .ok literal) :
    Slot.ofDeclaration .jscript true (Declaration.written .jscript s.writtenName literal)
      s.writtenName value' = s.reread value value' := by
  apply Slot.ext
  · exact congrArg Name.key hc
  · show Name.written (Name.canonical .jscript s.writtenName).key
      (true || (Name.canonical .jscript s.writtenName).suffixed) = s.writtenName
    rw [hc, Bool.true_or, hw]
  · rfl
  · exact (Slot.text_reread value' hl).symm

namespace Outline

variable {o o' : Outline} {a b : Marked Slot} {s : Slot} {literal : Text} {value value' : Value}
  {d : Declaration}

theorem text_reread (o : Outline) (value value' : Value) :
    Outline.text { o with body := a ++ .inr (s.put value) :: b } =
      Outline.text { o with body := a ++ .inr (s.reread value value') :: b } := by
  simp [Outline.text, Slot.reread]

theorem attributes_reread (o : Outline) (value value' : Value) :
    Outline.attributes { o with body := a ++ .inr (s.reread value value') :: b } =
      Outline.attributes { o with body := a ++ .inr (s.put value') :: b } := by
  apply attributes_congr
  simp [Slot.reread, Slot.put, Slot.write]

/-- In a JScript document all names are written with the suffix. -/
theorem Readable.writtenName_eq (h : o.Readable) (hd : o.dialect = .jscript)
    (hbody : o.body = a ++ .inr s :: b) : s.writtenName = Name.written s.key true := by
  rw [Readable, hbody, hd] at h
  obtain ⟨m, u, v, e, n, old, -, hu, -, rfl, -⟩ := h.split
  obtain rfl : m = true := alwaysSuffixed_of_reads hu rfl
  rfl

/-- A JScript declaration may be written anew for any value if its name can be read. -/
theorem Readable.reread (h : o.Readable) (hd : o.dialect = .jscript)
    (hbody : o.body = a ++ .inr s :: b)
    (hc : Name.canonical .jscript (Name.written s.key true) = ⟨s.key, true⟩)
    (hn : Call.IsCallee (Name.written s.key true)) (hl : value.encode = .ok literal)
    (hdeclared : (Declaration.written .jscript (Name.written s.key true) literal).declared =
      .ok (Name.written s.key true, value')) :
    Readable { o with body := a ++ .inr (s.reread value value') :: b } := by
  have hwritten := h.writtenName_eq hd hbody
  rw [← hwritten] at hc hn hdeclared
  rw [Readable, hbody, hd] at h
  obtain ⟨m, u, v, e, n, old, hw, hu, -, -, hrest⟩ := h.split
  obtain rfl : m = true := alwaysSuffixed_of_reads hu rfl
  have hrest' : Reads .jscript (true || (Name.canonical .jscript s.writtenName).suffixed) v
      o.suffixMode b := by
    rwa [Bool.true_or] at hrest ⊢
  have hnew := hu.append (Reads.declaration hdeclared hrest')
  rw [Slot.ofDeclaration_reread value' hwritten hc hl] at hnew
  have hlaid := (laid_iff.2 hw).replace
    (Declaration.JScript.read?_of_passes hn (.of_encode hl))
  rw [hd]
  exact readable_of_laid hlaid hnew

/-- The scan finds the declarations of the slots. -/
theorem Readable.exists_mem_scan (h : o.Readable) (hs : .inr s ∈ o.body)
    (hd : d.Stands o.dialect) (ht : s.text = d.text) :
    ∃ start, (start, d) ∈ Declaration.scan o.dialect o.text := by
  obtain ⟨a, b, hbody⟩ := List.append_of_mem hs
  rw [Readable, hbody] at h
  obtain ⟨m, u, v, e, n, old, hw, -, -, rfl, -⟩ := h.split
  have he : .inr e ∈ layout o.dialect o.text := by simp [hw]
  obtain ⟨rest, hread⟩ := (laid_iff.2 rfl).exists_read? he
  -- what is read is told by the text
  have htext : e.text = d.text := ht
  rw [htext, hd rest] at hread
  obtain rfl := (Prod.mk.inj (Option.some.inj hread)).1
  rw [← Marked.mem_items, items_layout] at he
  obtain ⟨⟨start, f⟩, hmem, rfl⟩ := List.mem_map.1 he
  exact ⟨start, hmem⟩

theorem text_withHeader_congr (h : o.text = o'.text) : o.withHeader.text = o'.withHeader.text := by
  unfold withHeader
  rw [h]
  split_ifs
  · rw [text_headed, text_headed, h]
  · exact h

theorem mem_body_withHeader (h : .inr s ∈ o.body) : .inr s ∈ o.withHeader.body := by
  unfold withHeader
  split_ifs
  · exact List.mem_append_right _ h
  · exact h

end Outline

namespace Document

open OrderedMap (keys)

variable {doc : Document} {o : Outline} {t name literal : Text} {value : Value} {start : Nat}
  {d : Declaration}

theorem mem_keys_of_mem_scan {dialect : Dialect} (h : ofText dialect t = .ok doc)
    (hmem : (start, d) ∈ Declaration.scan dialect t) (hd : d.declared = .ok (name, value)) :
    (Name.canonical dialect name).key ∈ keys doc.attributes := by
  have hpair : d.pair? dialect = some ((Name.canonical dialect name).key, value) := by
    rw [Declaration.pair?, hd]
    rfl
  have hpairs : ((Name.canonical dialect name).key, value) ∈ Declaration.pairs dialect t :=
    List.mem_filterMap.2 ⟨(start, d), hmem, hpair⟩
  rw [attributes_of_ofText h, OrderedMap.keys_ofList, List.mem_eraseDups]
  exact List.mem_map_of_mem hpairs

/-- The outline that the text of a JScript document is read as. It need not be one that the document
shows, which may hold another value than the one that its literal is read as. -/
structure Rereads (doc : Document) (o : Outline) : Prop where
  exists_shows : ∃ shown, Shows doc shown ∧ shown.dialect = .jscript ∧ shown.text = o.text
  readable : o.Readable
  dialect_eq : o.dialect = .jscript

/-- With a header it is written as the outline with the header line in front. -/
theorem Rereads.exists_render (h : Rereads doc o) (header : Bool) :
    ∃ r : Outline, r.Readable ∧ r.dialect = .jscript ∧ doc.render header = r.text ∧
      r.attributes = o.attributes ∧ ∀ s, .inr s ∈ o.body → .inr s ∈ r.body := by
  obtain ⟨shown, hs, hd, ht⟩ := h.exists_shows
  cases header with
  | false => exact ⟨o, h.readable, h.dialect_eq, hs.render_false.trans ht, rfl, fun _ hb => hb⟩
  | true =>
    exact ⟨o.withHeader, h.readable.withHeader h.dialect_eq,
      o.dialect_withHeader.trans h.dialect_eq,
      (hs.render_true hd).trans (Outline.text_withHeader_congr ht),
      Outline.attributes_withHeader o, fun _ => Outline.mem_body_withHeader⟩

theorem Rereads.exists_ofText (h : Rereads doc o) (header : Bool) :
    ∃ reloaded, ofText .jscript (doc.render header) = .ok reloaded ∧
      reloaded.attributes = o.attributes := by
  obtain ⟨r, hr, hd, ht, ha, -⟩ := h.exists_render header
  obtain ⟨reloaded, hreloaded, hshows, -⟩ := exists_ofText_of_readable hr
  rw [hd, ← ht] at hreloaded
  exact ⟨reloaded, hreloaded, hshows.attributes_eq.trans ha⟩

theorem Rereads.exists_mem_scan {s : Slot} (h : Rereads doc o) (hs : .inr s ∈ o.body)
    (hd : d.Stands .jscript) (ht : s.text = d.text) (header : Bool) :
    ∃ start, (start, d) ∈ Declaration.scan .jscript (doc.render header) := by
  obtain ⟨r, hr, hdialect, htext, -, hbody⟩ := h.exists_render header
  rw [htext, ← hdialect]
  exact hr.exists_mem_scan (hbody s hs) (by rwa [hdialect]) ht

/-- Setting an attribute inserts its value in the outline as well. -/
theorem Shows.attributes_set {dialect : Dialect} (hs : Shows doc o)
    (h : ofText dialect t = .ok doc) (hl : value.encode = .ok literal) (key : Text) :
    (o.set key value).attributes =
      OrderedMap.insert doc.attributes (Name.canonical dialect key).key value := by
  obtain ⟨edited, hset, hshows, -⟩ := hs.set (tidy_of_ofText h) hl key
  rw [← hshows.attributes_eq, Document.attributes_set (nodup_keys_of_ofText h) hset,
    dialect_of_ofText h]

/-- After a value is set for a known key, the last slot of the key is reread with the new value. -/
theorem exists_set_rereads {key spelling : Text} {value' : Value}
    (h : ofText .jscript t = .ok doc) (hk : key ∈ keys doc.attributes)
    (hspelling : (Name.canonical .jscript spelling).key = key)
    (hc : Name.canonical .jscript (Name.written key true) = ⟨key, true⟩)
    (hn : Call.IsCallee (Name.written key true)) (hl : value.encode = .ok literal)
    (hreads : value.ReadsAs value')
    (hdeclared : (Declaration.written .jscript (Name.written key true) literal).declared =
      .ok (Name.written key true, value')) :
    ∃ edited o s, doc.set spelling value = .ok edited ∧ Rereads edited o ∧ .inr s ∈ o.body ∧
      s.text = (Declaration.written .jscript (Name.written key true) literal).text ∧
      o.attributes = OrderedMap.insert doc.attributes key value' := by
  obtain ⟨literal', hl'⟩ := hreads.exists_encode hl
  obtain ⟨o, hd, rfl, hr, hs⟩ := exists_readable_of_ofText h
  have hget : doc.get? spelling ≠ none := by
    rw [get?_eq_find?, dialect_of_ofText h, hspelling, ne_eq, OrderedMap.find?_eq_none_iff, not_not]
    exact hk
  have hmem := hs.mem_keys hget
  obtain ⟨a, s, b, hbody, hskey, hfill⟩ := Marked.exists_fill_only hmem
  have hset (v : Value) : o.set spelling v = { o with body := a ++ .inr (s.put v) :: b } := by
    rw [Outline.set_of_mem v hmem, hfill]
  rw [hd, hspelling] at hskey
  subst hskey
  obtain ⟨edited, hedited, hshows, -⟩ := hs.set (tidy_of_ofText h) hl spelling
  rw [hset] at hshows
  have hrereads : Rereads edited { o with body := a ++ .inr (s.reread value value') :: b } :=
    ⟨⟨_, hshows, hd, o.text_reread value value'⟩, hr.reread hd hbody hc hn hl hdeclared, hd⟩
  refine ⟨edited, _, s.reread value value', hedited, hrereads, by simp, ?_, ?_⟩
  · rw [Slot.text_reread value' hl, hr.writtenName_eq hd hbody]
  · -- the slot has the attribute that setting the value in memory would give it
    have hput := hs.attributes_set h hl' spelling
    rwa [hset, hspelling, ← Outline.attributes_reread o value value'] at hput

/-- The name that a declared name is written as has its key. It is a name that a call can have
exactly if the declared name does not begin with a marked letter. If so, an attribute that is
declared with it in a JScript document may be set, in any spelling and to any value with a literal:
with or without header, the edited text is loaded, the declaration that was written is read with
the written name and with what the literal is read as, and the attributes are otherwise the same. -/
theorem reload_writtenName (h : Call.parse name = .ok ⟨name, none⟩) :
    Name.canonical .jscript (Name.written (Name.canonical .jscript name).key true) =
      ⟨(Name.canonical .jscript name).key, true⟩ ∧
    (Call.parse (Name.written (Name.canonical .jscript name).key true) =
        .ok ⟨Name.written (Name.canonical .jscript name).key true, none⟩ ↔
      ∀ c ∈ name.head?, c.toNat ∉ Text.markedLetters) ∧
    ((∀ c ∈ name.head?, c.toNat ∉ Text.markedLetters) →
      ∀ t doc start d old, ofText .jscript t = .ok doc →
        (start, d) ∈ Declaration.scan .jscript t → d.declared = .ok (name, old) →
        ∀ spelling value literal,
          (Name.canonical .jscript spelling).key = (Name.canonical .jscript name).key →
          value.encode = .ok literal →
          ∃ edited value', doc.set spelling value = .ok edited ∧ value.ReadsAs value' ∧
            ∀ header, ∃ reloaded start' d',
              ofText .jscript (edited.render header) = .ok reloaded ∧
              (start', d') ∈ Declaration.scan .jscript (edited.render header) ∧
              d'.text = (Fragment.ofAttribute
                (Name.written (Name.canonical .jscript name).key true) literal).text ∧
              d'.declared =
                .ok (Name.written (Name.canonical .jscript name).key true, value') ∧
              reloaded.get? spelling = some value' ∧
              reloaded.attributes = doc.attributes.map fun p =>
                if p.1 = (Name.canonical .jscript name).key then
                  ((Name.canonical .jscript name).key, value')
                else p) := by
  have hcallee := Call.parse_bare_iff.1 h
  have hc := Call.canonical_written hcallee
  refine ⟨hc, Call.parse_bare_iff.trans (Call.isCallee_written_iff hcallee), ?_⟩
  intro hletter t doc start d old hload hmem hd spelling value literal hspelling hl
  have hk := mem_keys_of_mem_scan hload hmem hd
  have hn := (Call.isCallee_written_iff hcallee).2 hletter
  obtain ⟨value', hreads, hdeclared⟩ := Declaration.JScript.exists_declared_written hn hl
  obtain ⟨edited, o, s, hedited, hrereads, hs, htext, hattributes⟩ :=
    exists_set_rereads hload hk hspelling hc hn hl hreads hdeclared
  refine ⟨edited, value', hedited, hreads, fun header => ?_⟩
  obtain ⟨reloaded, hreloaded, hsame⟩ := hrereads.exists_ofText header
  obtain ⟨start', hstart⟩ := hrereads.exists_mem_scan hs
    (Declaration.JScript.read?_of_passes hn (.of_encode hl)) htext header
  refine ⟨reloaded, start', _, hreloaded, hstart, Declaration.text_written _ _ _, hdeclared, ?_, ?_⟩
  · rw [get?_eq_find?, dialect_of_ofText hreloaded, hspelling, hsame, hattributes,
      OrderedMap.find?_insert, if_pos rfl]
  · rw [hsame, hattributes, OrderedMap.insert_of_mem hk]

/-- The first letter of the name has two letters in upper case, and a bracket in the value does not
matter. -/
theorem reload_writtenName_expanded : ∃ doc edited reloaded,
    Call.parse "SSxAttribute".toList = .ok ⟨"SSxAttribute".toList, none⟩ ∧
    ofText .jscript "[assembly: ßx(1)]".toList = .ok doc ∧
    doc.set "ßxAttribute".toList (.string "']".toList) = .ok edited ∧
    ofText .jscript (edited.render true) = .ok reloaded ∧
    reloaded.get? "ßxAttribute".toList = some (.string "']".toList) := by
  obtain ⟨doc, hload⟩ := Except.exists_of_isOk (x := ofText .jscript "[assembly: ßx(1)]".toList)
    (by decide +kernel)
  obtain ⟨d, hmem, hd⟩ : ∃ d, (0, d) ∈ Declaration.scan .jscript "[assembly: ßx(1)]".toList ∧
      d.declared = .ok ("ßx".toList, .number (.integer 1 (by decide) (by decide))) := by
    refine ⟨.jscript ⟨[], [], " ßx(1)".toList⟩, by decide +kernel, ?_⟩
    exact Except.eq_ok_of_toOption (by decide +kernel)
  have hletter : ∀ c ∈ "ßx".toList.head?, c.toNat ∉ Text.markedLetters := by
    rintro c ⟨⟩
    decide
  have hname : Call.parse "ßx".toList = .ok ⟨"ßx".toList, none⟩ :=
    Except.eq_ok_of_toOption (by decide +kernel)
  obtain ⟨-, hparse, hset⟩ := reload_writtenName hname
  obtain ⟨edited, value', hedited, hreads, hreload⟩ := hset hletter _ _ _ _ _ hload hmem hd
    "ßxAttribute".toList (.string "']".toList) _ (by decide +kernel) rfl
  obtain ⟨reloaded, -, -, hreloaded, -, -, -, hget, -⟩ := hreload true
  obtain rfl : value' = .string "']".toList := hreads.resolve_right (by simp)
  have hkey : (Name.canonical .jscript "ßx".toList).key = "SSx".toList := by decide +kernel
  rw [hkey] at hparse
  exact ⟨doc, edited, reloaded, hparse.2 hletter, hload, hedited, hreloaded, hget⟩

/-- The upper-case form of `ǰ` is the letter and a diacritic, so that the name that is written for
it is no name, and a document in which it is set is not loaded again. -/
theorem reload_writtenName_caron :
    Call.parse "\u01f0".toList = .ok ⟨"\u01f0".toList, none⟩ ∧
    (∀ call, Call.parse (Name.written (Name.canonical .jscript "\u01f0".toList).key true) ≠
      .ok call) ∧
    ∃ doc edited, ofText .jscript "[assembly: \u01f0(1)]".toList = .ok doc ∧
      doc.set "\u01f0".toList (.bool true) = .ok edited ∧
      ∀ reloaded, ofText .jscript (edited.render false) ≠ .ok reloaded := by
  refine ⟨Except.eq_ok_of_toOption (by decide +kernel), ?_, ?_⟩
  · intro call hcall
    have hnone : (Call.parse (Name.written (Name.canonical .jscript "\u01f0".toList).key
        true)).isOk = false := by decide +kernel
    rw [hcall] at hnone
    contradiction
  · have hrun := Except.eq_ok_of_toOption (x := do
      let doc ← ofText .jscript "[assembly: \u01f0(1)]".toList
      let edited ← doc.set "\u01f0".toList (.bool true)
      .ok (ofText .jscript (edited.render false)).isOk) (a := false) (by decide +kernel)
    obtain ⟨doc, hdoc, hrun⟩ := Except.bind_eq_ok_iff.1 hrun
    obtain ⟨edited, hedited, hnone⟩ := Except.bind_eq_ok_iff.1 hrun
    refine ⟨doc, edited, hdoc, hedited, fun reloaded hreloaded => ?_⟩
    rw [hreloaded] at hnone
    cases hnone

end Document

end AssemblyInfo
