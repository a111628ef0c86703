import AssemblyInfo.Proofs.Except
import AssemblyInfo.Proofs.Registry

/-! Documents refine outlines. The fragments of a document are the parts of an outline, plain text
or slots, and its registry is what the slots give one after another, so that each entry points to
the last slot of its key. Loading a text establishes this, and setting an attribute keeps it: what a
document shows depends on its outline only. -/

namespace AssemblyInfo

namespace Document

/-- The fragments and the registry of a document are those of the parts of an outline. -/
structure ShownBy (doc : Document) (o : Outline) (parts : List Part) : Prop where
  dialect_eq : doc.dialect = o.dialect
  suffixMode_eq : doc.suffixMode = o.suffixMode
  fragments_eq : doc.fragments.map Fragment.text = parts.map Part.text
  registry_eq : doc.registry = Part.registerAll 0 [] parts
  body_eq : o.body = parts.flatMap Part.marked

/-- The document has the outline. -/
def Shows (doc : Document) (o : Outline) : Prop := ∃ parts, ShownBy doc o parts

/-- What a demotion keeps of each fragment it keeps of all. -/
theorem map_modify_demote {α : Type} {g : Fragment → α} (hg : ∀ f, g f.demote = g f)
    (fragments : List Fragment) (i : Nat) :
    (fragments.modify i Fragment.demote).map g = fragments.map g := by
  apply List.ext_getElem?
  intro n
  by_cases hn : i = n
  · simp [hn, Function.comp_def, hg]
  · simp [hn]

theorem map_text_register (doc : Document) (name : Name) (value : Value) (i : Nat) :
    (doc.register name value i).fragments.map Fragment.text = doc.fragments.map Fragment.text := by
  unfold register
  cases doc.registry.find? name.key with
  | none => rfl
  | some previous => exact map_modify_demote Fragment.text_demote _ _

variable {doc : Document} {o : Outline} {parts : List Part} {value : Value}

theorem ShownBy.length_eq (h : ShownBy doc o parts) : doc.fragments.length = parts.length := by
  simpa using congrArg List.length h.fragments_eq

theorem ShownBy.text_eq (h : ShownBy doc o parts) : doc.text = o.text := by
  rw [Outline.text, h.body_eq, Part.text_flatMap_marked, text, List.flatMap_def, h.fragments_eq,
    ← List.flatMap_def]

/-- A fragment of plain text. -/
theorem ShownBy.push {f : Fragment} (h : ShownBy doc o parts) :
    ShownBy (doc.push f) { o with body := o.body ++ Marked.plain f.text }
      (parts ++ [.inl f.text]) where
  dialect_eq := h.dialect_eq
  suffixMode_eq := h.suffixMode_eq
  fragments_eq := by
    rw [Document.push, List.map_append, List.map_append, h.fragments_eq]
    rfl
  registry_eq := by
    rw [Part.registerAll_append]
    exact h.registry_eq
  body_eq := by
    rw [List.flatMap_append, h.body_eq]
    simp [Part.marked]

/-- A fragment of a declaration that is registered. -/
theorem ShownBy.push_slot {doc' : Document} {s : Slot} {m : Bool}
    (h : ShownBy doc o parts) (hd : doc'.dialect = doc.dialect) (hm : doc'.suffixMode = m)
    (hr : doc'.registry = doc.registry.insert s.key ⟨s.writtenName, s.value, doc.fragments.length⟩)
    (hf : doc'.fragments.map Fragment.text = doc.fragments.map Fragment.text ++ [s.text]) :
    ShownBy doc' ⟨o.dialect, o.body ++ [.inr s], m⟩ (parts ++ [.inr s]) where
  dialect_eq := hd.trans h.dialect_eq
  suffixMode_eq := hm
  fragments_eq := by
    rw [hf, h.fragments_eq, List.map_append]
    rfl
  registry_eq := by
    rw [Part.registerAll_append, ← h.registry_eq, hr, h.length_eq, Nat.zero_add]
    rfl
  body_eq := by
    rw [List.flatMap_append, h.body_eq]
    simp [Part.marked]

theorem ShownBy.push_declared (h : ShownBy doc o parts) (start : Nat) (d : Declaration)
    (name : Text) (value : Value) :
    ShownBy ((doc.push (.declared ⟨start, d.text⟩)).register (Name.canonical o.dialect name) value
        doc.fragments.length)
      ⟨o.dialect, o.body ++ [.inr (Slot.ofDeclaration o.dialect o.suffixMode d name value)],
        o.suffixMode || (Name.canonical o.dialect name).suffixed⟩
      (parts ++ [.inr (Slot.ofDeclaration o.dialect o.suffixMode d name value)]) := by
  rw [← h.suffixMode_eq]
  apply h.push_slot
  · rfl
  · rfl
  · rfl
  · rw [map_text_register, Document.push, List.map_append]
    rfl

/-- Documents with one outline have the same attributes. -/
theorem Shows.attributes_eq (h : Shows doc o) : doc.attributes = o.attributes := by
  obtain ⟨parts, h⟩ := h
  rw [attributes, h.registry_eq, Outline.attributes, h.body_eq]
  exact Part.values_registerAll 0 rfl

theorem Shows.dialect_eq (h : Shows doc o) : doc.dialect = o.dialect := by
  obtain ⟨parts, h⟩ := h
  exact h.dialect_eq

theorem Shows.text_eq (h : Shows doc o) : doc.text = o.text := by
  obtain ⟨parts, h⟩ := h
  exact h.text_eq

theorem Shows.get?_eq {doc' : Document} (h : Shows doc o) (h' : Shows doc' o) (key : Text) :
    doc.get? key = doc'.get? key := by
  have hv : doc.registry.values = doc'.registry.values :=
    h.attributes_eq.trans h'.attributes_eq.symm
  rw [get?, get?, h.dialect_eq, h'.dialect_eq]
  exact Registry.value_find? hv

/-! ### Loading -/

variable {dialect : Dialect} {segments : List Segment} {mode mode' : Bool} {body r : Marked Slot}

/-- A text whose declarations are read is loaded, and shows what was read. -/
theorem Shows.foldlM_add (h : Shows doc ⟨dialect, body, mode⟩)
    (hr : Reads dialect mode (segments.flatMap Segment.marked) mode' r) :
    ∃ doc', segments.foldlM add doc = .ok doc' ∧ Shows doc' ⟨dialect, body ++ r, mode'⟩ := by
  induction segments generalizing doc body mode r with
  | nil =>
    cases hr
    exact ⟨doc, rfl, by simpa using h⟩
  | cons segment segments ih =>
    obtain ⟨parts, h⟩ := h
    cases segment with
    | gap s =>
      obtain ⟨r, rfl, hrest⟩ := hr.of_plain
      obtain ⟨doc', hdoc', hs⟩ := ih ⟨_, h.push (f := .literal s)⟩ hrest
      refine ⟨doc', hdoc', ?_⟩
      simpa [Fragment.text] using hs
    | declaration start d =>
      cases hr with
      | @declaration _ _ _ r _ name value hd hrest =>
        obtain ⟨doc', hdoc', hs⟩ := ih ⟨_, h.push_declared start d name value⟩ hrest
        refine ⟨doc', ?_, by simpa using hs⟩
        rw [List.foldlM_cons, add, hd, h.dialect_eq]
        exact hdoc'

/-- Where a text is loaded, its declarations are read. -/
theorem exists_reads_of_foldlM_add {doc' : Document} (h : segments.foldlM add doc = .ok doc')
    (dialect : Dialect) (mode : Bool) :
    ∃ mode' r, Reads dialect mode (segments.flatMap Segment.marked) mode' r := by
  induction segments generalizing doc mode with
  | nil => exact ⟨mode, [], .nil⟩
  | cons segment segments ih =>
    rw [List.foldlM_cons] at h
    obtain ⟨next, hnext, hrest⟩ := Except.bind_eq_ok_iff.1 h
    cases segment with
    | gap s =>
      obtain ⟨mode', r, hr⟩ := ih hrest mode
      exact ⟨mode', _, (Reads.plain s.text).append hr⟩
    | declaration start d =>
      obtain ⟨⟨name, value⟩, hd, -⟩ := Except.map_eq_ok_iff.1 hnext
      obtain ⟨mode', r, hr⟩ := ih hrest (mode || (Name.canonical dialect name).suffixed)
      exact ⟨mode', _, .declaration hd hr⟩

theorem shows_empty (dialect : Dialect) :
    Shows (empty dialect) ⟨dialect, [], dialect.alwaysSuffixed⟩ :=
  ⟨[], rfl, rfl, rfl, rfl, rfl⟩

/-- Loading gives a document with the outline that is read from the text, and fails only where
none is read. -/
theorem shows_of_reads {t : Text}
    (h : Reads dialect dialect.alwaysSuffixed (layout dialect t) mode r) :
    ∃ doc, ofText dialect t = .ok doc ∧ Shows doc ⟨dialect, r, mode⟩ :=
  (shows_empty dialect).foldlM_add h

theorem exists_reads_of_ofText {t : Text} (h : ofText dialect t = .ok doc) :
    ∃ mode r, Reads dialect dialect.alwaysSuffixed (layout dialect t) mode r ∧
      Shows doc ⟨dialect, r, mode⟩ := by
  obtain ⟨mode, r, hr⟩ := exists_reads_of_foldlM_add h dialect dialect.alwaysSuffixed
  obtain ⟨doc', hdoc', hs⟩ := shows_of_reads hr
  obtain rfl := Except.ok.inj (h.symm.trans hdoc')
  exact ⟨mode, r, hr, hs⟩

/-! ### The end of the text -/

/-- Whether the last line is ended can be told from the text: the blanks at its end are those at
the end of the last fragment. -/
def Tidy (doc : Document) : Prop :=
  doc.needsNewline = true ↔ doc.text ≠ [] ∧ '\n' ∉ doc.text.trailingBlanks

theorem map_text_of_foldlM_add {doc' : Document} (h : segments.foldlM add doc = .ok doc') :
    doc'.fragments.map Fragment.text =
      doc.fragments.map Fragment.text ++ segments.map Segment.text := by
  induction segments generalizing doc with
  | nil =>
    cases h
    simp
  | cons segment segments ih =>
    rw [List.foldlM_cons] at h
    obtain ⟨next, hnext, hrest⟩ := Except.bind_eq_ok_iff.1 h
    have hadd : next.fragments.map Fragment.text =
        doc.fragments.map Fragment.text ++ [segment.text] := by
      cases segment with
      | gap s =>
        cases hnext
        simp [push, Fragment.text, Segment.text]
      | declaration start d =>
        obtain ⟨⟨name, value⟩, -, rfl⟩ := Except.map_eq_ok_iff.1 hnext
        simp [map_text_register, push, Fragment.text, Segment.text]
    rw [ih hrest, hadd, List.map_cons, List.append_assoc, List.singleton_append]

theorem text_of_map_text {texts : List Text} (h : doc.fragments.map Fragment.text = texts) :
    doc.text = texts.flatten := by
  rw [text, List.flatMap_def, h]

/-- Only the last fragment tells whether the last line is ended. -/
theorem needsNewline_of_concat {texts : List Text} {t : Text}
    (h : doc.fragments.map Fragment.text = texts ++ [t]) :
    doc.needsNewline = !t.trailingBlanks.contains '\n' := by
  rcases List.eq_nil_or_concat' doc.fragments with hnil | ⟨fragments, f, hf⟩
  · simp [hnil] at h
  · have htext : f.text = t := by
      rw [hf, List.map_append] at h
      exact List.singleton_inj.1 (List.append_inj' h rfl).2
    simp [needsNewline, hf, Fragment.endsLine, htext]

/-- A document is tidy if the blanks at the end of its text are those of its last fragment. -/
theorem tidy_of_concat {texts : List Text} {t : Text}
    (h : doc.fragments.map Fragment.text = texts ++ [t]) (hne : t ≠ [])
    (hb : Text.trailingBlanks (texts.flatten ++ t) = t.trailingBlanks) : doc.Tidy := by
  rw [Tidy, needsNewline_of_concat h, text_of_map_text h, List.flatten_append,
    List.flatten_singleton, hb]
  simp [hne]

/-- A document that ends with a declaration is tidy. -/
theorem tidy_of_bracket {texts : List Text} {u : Text}
    (h : doc.fragments.map Fragment.text = texts ++ [u ++ [']']]) : doc.Tidy := by
  apply tidy_of_concat h (by simp)
  rw [← List.append_assoc, Text.trailingBlanks_append_cons _ _ (by decide),
    Text.trailingBlanks_append_cons _ _ (by decide)]

/-- A loaded document is tidy: two gaps never follow each other. -/
theorem tidy_of_ofText {t : Text} (h : ofText dialect t = .ok doc) : doc.Tidy := by
  have hmap : doc.fragments.map Fragment.text = (Segment.ofSource dialect t).map Segment.text :=
    map_text_of_foldlM_add h
  have hsep : Segment.Separated (Segment.ofSource dialect t) := Segment.separated_cut dialect 0 t
  rcases List.eq_nil_or_concat' (Segment.ofSource dialect t) with hnil | ⟨segments, x, hx⟩
  · rw [hnil, List.map_nil, List.map_eq_nil_iff] at hmap
    simp [Tidy, needsNewline, text, hmap]
  · rw [hx] at hsep
    rw [hx, List.map_append, List.map_singleton] at hmap
    obtain ⟨hne, hb⟩ := hsep.trailingBlanks_eq
    exact tidy_of_concat hmap hne (by rw [← List.flatMap_def, hb])

/-! ### Setting -/

/-- A slot of the outline is a part. -/
theorem exists_part {a b : Marked Slot} {s : Slot}
    (h : parts.flatMap Part.marked = a ++ .inr s :: b) :
    ∃ c d, parts = c ++ .inr s :: d ∧ c.flatMap Part.marked = a ∧ d.flatMap Part.marked = b := by
  induction parts generalizing a with
  | nil => simp at h
  | cons p parts ih =>
    rw [List.flatMap_cons] at h
    cases p with
    | inl t =>
      obtain ⟨a, rfl, ha⟩ := Marked.exists_of_plain_append_eq h
      obtain ⟨c, d, rfl, rfl, rfl⟩ := ih ha
      exact ⟨.inl t :: c, d, rfl, rfl, rfl⟩
    | inr s' =>
      cases a with
      | nil =>
        obtain ⟨hs, rfl⟩ := List.cons.inj h
        cases hs
        exact ⟨[], parts, rfl, rfl, rfl⟩
      | cons x a =>
        obtain ⟨rfl, ha⟩ := List.cons.inj h
        obtain ⟨c, d, rfl, rfl, rfl⟩ := ih ha
        exact ⟨.inr s' :: c, d, rfl, rfl, rfl⟩

theorem ShownBy.map_text_replace {a b : List Part} {s : Slot} (h : ShownBy doc o (a ++ .inr s :: b))
    (v : Value) :
    (doc.replace s.key ⟨s.writtenName, s.value, a.length⟩ v v.display).fragments.map Fragment.text =
      (a ++ .inr (s.put v) :: b).map Part.text := by
  rw [replace, List.map_set, h.fragments_eq]
  simp [Part.text, Slot.put, Slot.write]

/-- Setting a registered attribute puts the value into the last slot of its key. -/
theorem ShownBy.replace {a b : List Part} {s : Slot} (h : ShownBy doc o (a ++ .inr s :: b))
    (hb : s.key ∉ Marked.keys (b.flatMap Part.marked)) (v : Value) :
    ShownBy (doc.replace s.key ⟨s.writtenName, s.value, a.length⟩ v v.display)
      { o with body := Marked.fill (Marked.only s.key v) o.body } (a ++ .inr (s.put v) :: b) where
  dialect_eq := h.dialect_eq
  suffixMode_eq := h.suffixMode_eq
  fragments_eq := h.map_text_replace v
  registry_eq := by
    rw [Part.registerAll_put v hb, ← h.registry_eq]
    rfl
  body_eq := by
    rw [h.body_eq, List.flatMap_append, List.flatMap_append]
    exact Marked.fill_only rfl hb

theorem ShownBy.tidy_replace {a b : List Part} {s : Slot} (h : ShownBy doc o (a ++ .inr s :: b))
    (ht : doc.Tidy) (v : Value) :
    (doc.replace s.key ⟨s.writtenName, s.value, a.length⟩ v v.display).Tidy := by
  have hnew := h.map_text_replace v
  have hold := h.fragments_eq
  rcases List.eq_nil_or_concat' b with rfl | ⟨b, p, rfl⟩
  · obtain ⟨u, hu⟩ := (s.put v).closed
    rw [List.map_append, List.map_singleton, Part.text, Sum.elim_inr, hu] at hnew
    exact tidy_of_bracket hnew
  · -- the last fragment stays
    have hlast (s : Slot) : (a ++ .inr s :: (b ++ [p])).map Part.text =
        (a ++ .inr s :: b).map Part.text ++ [p.text] := by simp
    have htext (s : Slot) : ((a ++ .inr s :: (b ++ [p])).map Part.text).flatten =
        a.flatMap Part.text ++ (s.text ++ (b ++ [p]).flatMap Part.text) := by
      simp [Part.text, List.flatMap_def]
    rw [Tidy, needsNewline_of_concat (hold.trans (hlast s)), text_of_map_text hold, htext,
      Slot.trailingBlanks_append] at ht
    rw [Tidy, needsNewline_of_concat (hnew.trans (hlast (s.put v))), text_of_map_text hnew, htext,
      Slot.trailingBlanks_append]
    simpa [Slot.text_ne_nil] using ht

/-- What is put before an appended declaration can be told from the text. -/
theorem Tidy.endLine_cases (ht : doc.Tidy) :
    doc.endLine = doc.push .newline ∧ Outline.separator doc.text = ['\n'] ∨
      doc.endLine = doc ∧ Outline.separator doc.text = [] := by
  rw [Tidy] at ht
  unfold Document.endLine Outline.separator
  by_cases hn : doc.needsNewline = true
  · obtain ⟨hne, hb⟩ := ht.1 hn
    exact .inl ⟨if_pos hn, if_neg (by simp [hne, hb])⟩
  · have hends : doc.text = [] ∨ '\n' ∈ doc.text.trailingBlanks := by
      by_contra hcon
      rw [not_or] at hcon
      exact hn (ht.2 hcon)
    exact .inr ⟨if_neg hn, if_pos hends⟩

theorem ShownBy.endLine (h : ShownBy doc o parts) (ht : doc.Tidy) :
    ∃ parts', ShownBy doc.endLine
      { o with body := o.body ++ Marked.plain (Outline.separator o.text) } parts' := by
  rw [← h.text_eq]
  rcases ht.endLine_cases with ⟨hline, hsep⟩ | ⟨hline, hsep⟩
  · rw [hline, hsep]
    exact ⟨_, h.push (f := .newline)⟩
  · rw [hline, hsep]
    exact ⟨parts, by simpa using h⟩

/-- Setting another attribute adds a slot at the end. -/
theorem ShownBy.append (h : ShownBy doc o parts) (ht : doc.Tidy) (name : Name) (v : Value) :
    Shows (doc.append name v v.display) (o.append name v) ∧ (doc.append name v v.display).Tidy := by
  obtain ⟨parts', h'⟩ := h.endLine ht
  have hmode : doc.endLine.suffixMode = o.suffixMode := h'.suffixMode_eq
  have hshown : ShownBy (doc.append name v v.display) (o.append name v)
      (parts' ++ [.inr (o.newSlot name v)]) := by
    rw [Outline.append, ← List.append_assoc]
    apply h'.push_slot
    · rfl
    · rw [← hmode]
      rfl
    · rw [Outline.newSlot, ← hmode]
      rfl
    · rw [Document.append, Document.push, List.map_append, map_text_register, Outline.newSlot,
        ← hmode]
      rfl
  obtain ⟨u, hu⟩ := (o.newSlot name v).closed
  have hmap := hshown.fragments_eq
  rw [List.map_append, List.map_singleton, Part.text, Sum.elim_inr, hu] at hmap
  exact ⟨⟨_, hshown⟩, tidy_of_bracket hmap⟩

/-- Setting an attribute of a document sets it in the outline. -/
theorem Shows.set {literal : Text} (h : Shows doc o) (ht : doc.Tidy)
    (he : value.encode = .ok literal) (key : Text) :
    ∃ doc', doc.set key value = .ok doc' ∧ Shows doc' (o.set key value) ∧ doc'.Tidy := by
  obtain ⟨parts, h⟩ := h
  obtain rfl : value.display = literal := by rw [Value.display, he]
  rw [Document.set, he, h.dialect_eq]
  refine ⟨_, rfl, ?_⟩
  by_cases hk : (Name.canonical o.dialect key).key ∈ Marked.keys o.body
  · obtain ⟨a, s, b, hbody, hs, hb⟩ := Marked.exists_last hk
    obtain ⟨a, b, rfl, rfl, rfl⟩ := exists_part (h.body_eq.symm.trans hbody)
    rw [← hs] at hb
    have hfind := Part.find?_registerAll_last (a := a) hb
    rw [← h.registry_eq, hs] at hfind
    rw [Outline.set_of_mem value hk]
    simp only [hfind]
    rw [← hs]
    exact ⟨⟨_, h.replace hb value⟩, h.tidy_replace ht value⟩
  · have hfind : doc.registry.find? (Name.canonical o.dialect key).key = none := by
      rw [h.registry_eq, Part.find?_registerAll _ _ (h.body_eq ▸ hk)]
      rfl
    rw [Outline.set_of_not_mem value hk]
    simp only [hfind]
    exact h.append ht _ value

end Document

end AssemblyInfo
