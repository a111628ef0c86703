import AssemblyInfo.Proofs.RoundTrip

/-! What a run of settings writes. The source keeps its gaps, and each of its declarations except
the last one of a key that is set, which is written with the value set last. Attributes that the
source does not declare follow it in the order in which they were first set. -/

namespace AssemblyInfo

open Marked (keys fill only plain)

/-! ### Runs -/

/-- Sets attributes one after another. -/
def Document.setAll (doc : Document) (sets : List (Text × Value)) : Except Error Document :=
  sets.foldlM (fun doc (key, value) => doc.set key value) doc

/-- The declaration that is written for a name and a value that has a literal. -/
def declarationText (name : Text) (value : Value) : Text :=
  (Fragment.ofAttribute name value.display).text

/-- The value that a run sets last for a key. -/
def lastSet (dialect : Dialect) : List (Text × Value) → Text → Option Value
  | [], _ => none
  | (name, value) :: sets, key =>
    (lastSet dialect sets key).or (only (Name.canonical dialect name).key value key)

/-- The declarations that a run adds if some keys are known, each with the value set last. -/
def added (dialect : Dialect) (known : List Text) (mode : Bool) : List (Text × Value) → List Text
  | [] => []
  | (key, value) :: sets =>
    let name := Name.canonical dialect key
    if known.contains name.key then added dialect known mode sets
    else
      let mode := mode || name.suffixed
      declarationText (Name.written name.key mode) ((lastSet dialect sets name.key).getD value) ::
        added dialect (known ++ [name.key]) mode sets

/-- Declarations one after another, the first after a separator, the others after line feeds. -/
def tail (separator : Text) : List Text → Text
  | [] => []
  | d :: ds => separator ++ d ++ tail ['\n'] ds

namespace Outline

theorem trailingBlanks_fill (values : Text → Option Value) (w : Marked Slot) :
    Text.trailingBlanks (Marked.text Slot.text (fill values w)) =
      Text.trailingBlanks (Marked.text Slot.text w) := by
  rcases Marked.fill_ends values w with ⟨t, rfl, hf⟩ | ⟨a, a', s, s', t, rfl, hf⟩
  · rw [hf]
  · rw [hf, Marked.text_append, Marked.text_append, Marked.text_inr, Marked.text_inr,
      s.trailingBlanks_append, s'.trailingBlanks_append]

theorem text_fill_eq_nil (values : Text → Option Value) (w : Marked Slot) :
    Marked.text Slot.text (fill values w) = [] ↔ Marked.text Slot.text w = [] := by
  rcases Marked.fill_ends values w with ⟨t, rfl, hf⟩ | ⟨a, a', s, s', t, rfl, hf⟩
  · rw [hf]
  · simp [hf, Slot.text_ne_nil]

theorem separator_fill (values : Text → Option Value) (w : Marked Slot) :
    separator (Marked.text Slot.text (fill values w)) = separator (Marked.text Slot.text w) := by
  simp only [separator, trailingBlanks_fill, text_fill_eq_nil]

/-- After a declaration that is added, the next one needs a line feed. -/
theorem separator_append (o : Outline) (name : Name) (value : Value) :
    separator (o.append name value).text = ['\n'] := by
  have htext : (o.append name value).text =
      o.text ++ separator o.text ++ ((o.newSlot name value).text ++ []) := by
    simp [text, append]
  have hb : '\n' ∉ Text.trailingBlanks [] := by decide
  rw [separator, htext, Slot.trailingBlanks_append, if_neg (by simp [Slot.text_ne_nil, hb])]

/-- Later values for a declaration that is added. -/
theorem fill_append {o : Outline} {name : Name} (hk : name.key ∉ keys o.body) (value : Value)
    (values : Text → Option Value) :
    Marked.text Slot.text (fill values (o.append name value).body) =
      Marked.text Slot.text (fill values o.body) ++ (separator o.text ++
        declarationText (Name.written name.key (o.suffixMode || name.suffixed))
          ((values name.key).getD value)) := by
  have hslot : fill values [.inr (o.newSlot name value)] =
      [.inr (o.newSlot name ((values name.key).getD value))] := by
    cases hv : values name.key with
    | none => simp [fill, hv]
    | some v =>
      simp only [fill, key_newSlot, hv, Marked.keys_nil, Option.getD_some]
      rfl
  have hplain : fill values (plain (separator o.text)) = plain (separator o.text) :=
    Marked.fill_of_not_mem (by simp)
  rw [append, Marked.fill_append, Marked.fill_append, hplain, hslot, Marked.text_append,
    Marked.text_append, Marked.text_plain, Marked.text_inr, Marked.text_nil, List.append_nil]
  · rfl
  · simp
  · intro k hm _ hkey
    have hkey : k = name.key := by simpa using hkey
    exact hk (hkey ▸ hm)

/-- The text after a run. -/
theorem text_setAll (o : Outline) (sets : List (Text × Value)) :
    (o.setAll sets).text = Marked.text Slot.text (fill (lastSet o.dialect sets) o.body) ++
      tail (separator o.text) (added o.dialect (keys o.body) o.suffixMode sets) := by
  induction sets generalizing o with
  | nil =>
    have hfill : fill (lastSet o.dialect []) o.body = o.body := by
      apply Marked.fill_of_not_mem
      intro k _
      rfl
    simp [setAll, hfill, added, tail, text]
  | cons p sets ih =>
    obtain ⟨key, value⟩ := p
    have hstep : o.setAll ((key, value) :: sets) = (o.set key value).setAll sets := rfl
    rw [hstep, ih, added]
    by_cases hk : (Name.canonical o.dialect key).key ∈ keys o.body
    · -- the value goes into the last slot of its key, and the end of the text stays
      rw [set_of_mem value hk, if_pos (List.contains_iff_mem.2 hk), Marked.keys_fill,
        Marked.fill_fill, text, separator_fill]
      rfl
    · rw [set_of_not_mem value hk, if_neg (mt List.contains_iff_mem.1 hk)]
      generalize hname : Name.canonical o.dialect key = name at hk
      have hlast : fill (lastSet o.dialect ((key, value) :: sets)) o.body =
          fill (lastSet o.dialect sets) o.body := by
        apply Marked.fill_congr
        intro k hm
        have hne : k ≠ name.key := by
          rintro rfl
          exact hk hm
        simp [lastSet, hname, only, hne]
      rw [hlast, keys_append, separator_append, fill_append hk, tail]
      simp only [List.append_assoc]
      rfl

end Outline

/-! ### Sources -/

namespace Segment

/-- The name that a segment declares. -/
def name? (dialect : Dialect) : Segment → Option Name
  | .gap _ => none
  | .declaration _ d => d.declared.toOption.map fun (name, _) => Name.canonical dialect name

/-- The keys that segments declare, in order. -/
def keys (dialect : Dialect) (segments : List Segment) : List Text :=
  segments.filterMap fun segment => (segment.name? dialect).map Name.key

/-- The text of a source when attributes have values: the last declaration of each of these is
written anew, with the name that was settled in the mode of its place. -/
def rewrite (dialect : Dialect) (values : Text → Option Value) (mode : Bool) :
    List Segment → Text
  | [] => []
  | segment :: segments =>
    match segment.name? dialect with
    | none => segment.text ++ rewrite dialect values mode segments
    | some name =>
      let mode := mode || name.suffixed
      let written :=
        match values name.key with
        | none => segment.text
        | some value =>
          if (keys dialect segments).contains name.key then segment.text
          else declarationText (Name.written name.key mode) value
      written ++ rewrite dialect values mode segments

/-- What a declaration that follows the segments needs before it: a line feed, unless there are no
segments or the blanks that end the last one hold a line feed. -/
def separator (segments : List Segment) : Text :=
  match segments.getLast? with
  | none => []
  | some segment => if '\n' ∈ segment.text.trailingBlanks then [] else ['\n']

theorem separator_ofSource (dialect : Dialect) (t : Text) :
    separator (ofSource dialect t) = Outline.separator t := by
  have hsep : Separated (ofSource dialect t) := separated_cut dialect 0 t
  have htext : (ofSource dialect t).flatMap text = t := flatMap_text_cut dialect 0 t
  rcases List.eq_nil_or_concat' (ofSource dialect t) with hnil | ⟨segments, x, hx⟩
  · rw [hnil] at htext ⊢
    subst htext
    rfl
  · rw [hx] at hsep htext ⊢
    obtain ⟨hne, hb⟩ := hsep.trailingBlanks_eq
    rw [List.flatMap_append, List.flatMap_singleton] at htext
    subst htext
    simp [separator, Outline.separator, hb, hne]

end Segment

namespace Reads

variable {dialect : Dialect} {mode mode' : Bool} {segments : List Segment} {r : Marked Slot}

theorem keys_eq (h : Reads dialect mode (segments.flatMap Segment.marked) mode' r) :
    keys r = Segment.keys dialect segments := by
  induction segments generalizing mode r with
  | nil =>
    cases h
    rfl
  | cons segment segments ih =>
    cases segment with
    | gap s =>
      obtain ⟨r, rfl, hrest⟩ := h.of_plain
      rw [Marked.keys_append, Marked.keys_plain, ih hrest]
      rfl
    | declaration start d =>
      cases h with
      | @declaration _ _ _ r _ name value hd hrest =>
        rw [Marked.keys_inr, ih hrest]
        simp [Segment.keys, Segment.name?, hd, Except.toOption, Slot.ofDeclaration]

theorem text_fill_eq (h : Reads dialect mode (segments.flatMap Segment.marked) mode' r)
    (values : Text → Option Value) :
    Marked.text Slot.text (fill values r) = Segment.rewrite dialect values mode segments := by
  induction segments generalizing mode r with
  | nil =>
    cases h
    rfl
  | cons segment segments ih =>
    cases segment with
    | gap s =>
      obtain ⟨r, rfl, hrest⟩ := h.of_plain
      have hplain : fill values (Marked.plain s.text) = Marked.plain s.text :=
        Marked.fill_of_not_mem (by simp)
      rw [Marked.fill_append (by simp), hplain, Marked.text_append, Marked.text_plain, ih hrest]
      rfl
    | declaration start d =>
      cases h with
      | @declaration _ _ _ r _ name value hd hrest =>
        have hname : (Segment.declaration start d).name? dialect =
            some (Name.canonical dialect name) := by
          simp [Segment.name?, hd, Except.toOption]
        simp only [Segment.rewrite, hname, ← hrest.keys_eq, ← ih hrest]
        rw [fill]
        cases hv : values (Name.canonical dialect name).key with
        | none => simp [Slot.ofDeclaration, hv, Segment.text]
        | some v =>
          by_cases hm : (Name.canonical dialect name).key ∈ keys r
          · simp [Slot.ofDeclaration, hv, hm, Segment.text]
          · simp [Slot.ofDeclaration, hv, hm, Slot.put, Slot.write, declarationText]

end Reads

/-! ### Documents -/

namespace Document

variable {doc : Document} {o : Outline} {sets : List (Text × Value)}

/-- Setting attributes of a document sets them in the outline. -/
theorem Shows.setAll (h : Shows doc o) (ht : doc.Tidy)
    (he : ∀ p ∈ sets, ∃ literal, p.2.encode = .ok literal) :
    ∃ doc', doc.setAll sets = .ok doc' ∧ Shows doc' (o.setAll sets) ∧ doc'.Tidy := by
  induction sets generalizing doc o with
  | nil => exact ⟨doc, rfl, h, ht⟩
  | cons p sets ih =>
    obtain ⟨key, value⟩ := p
    obtain ⟨literal, hp⟩ := he (key, value) List.mem_cons_self
    obtain ⟨next, hnext, hs, ht⟩ := h.set ht hp key
    obtain ⟨doc', hdoc', hs', ht'⟩ := ih hs ht fun q hq => he q (List.mem_cons_of_mem _ hq)
    refine ⟨doc', ?_, hs', ht'⟩
    simp only [Document.setAll, List.foldlM_cons, hnext]
    exact hdoc'

theorem encode_of_setAll {doc' : Document} (h : doc.setAll sets = .ok doc') :
    ∀ p ∈ sets, ∃ literal, p.2.encode = .ok literal := by
  induction sets generalizing doc with
  | nil => simp
  | cons p sets ih =>
    rw [setAll, List.foldlM_cons] at h
    obtain ⟨next, hnext, hrest⟩ := Except.bind_eq_ok_iff.1 h
    obtain ⟨literal, hp, -⟩ := Except.map_eq_ok_iff.1 hnext
    intro q hq
    rcases List.mem_cons.1 hq with rfl | hq
    · exact ⟨literal, hp⟩
    · exact ih hrest q hq

/-- What is written after a run of settings: the source with the last declaration of each key that
was set written anew, then the declarations of the other keys. -/
theorem render_setAll {dialect : Dialect} {t : Text} {edited : Document}
    (h : ofText dialect t = .ok doc) (hs : doc.setAll sets = .ok edited) :
    edited.render false =
      Segment.rewrite dialect (lastSet dialect sets) dialect.alwaysSuffixed
          (Segment.ofSource dialect t) ++
        tail (Segment.separator (Segment.ofSource dialect t))
          (added dialect (Segment.keys dialect (Segment.ofSource dialect t)) doc.suffixMode
            sets) := by
  obtain ⟨mode, r, hr, hdoc⟩ := exists_reads_of_ofText h
  obtain ⟨edited', hs', hshows, -⟩ := hdoc.setAll (tidy_of_ofText h) (encode_of_setAll hs)
  obtain rfl := Except.ok.inj (hs.symm.trans hs')
  have hmode : doc.suffixMode = mode := by
    obtain ⟨_, hp⟩ := hdoc
    exact hp.suffixMode_eq
  have htext : Outline.text ⟨dialect, r, mode⟩ = t := by
    rw [Outline.text, hr.text_eq, (laid_iff.2 rfl).text_eq]
  rw [render_false, hshows.text_eq, Outline.text_setAll, htext, hmode, Segment.separator_ofSource]
  simp only [hr.keys_eq, hr.text_fill_eq]

/-- A run over a source with two declarations of one key: the last one is written anew, in suffix
mode, and so are the declarations that follow. -/
theorem render_setAll_duplicate : ∃ doc edited,
    ofText .csharp "[assembly: A(1)]\n[assembly: AAttribute(2)]\n".toList = .ok doc ∧
    doc.setAll [("B".toList, .bool true), ("A".toList, .string "x".toList),
      ("B".toList, .bool false), ("C".toList, .bool true)] = .ok edited ∧
    edited.render false = ("[assembly: A(1)]\n[assembly: AAttribute(\"x\")]\n" ++
      "[assembly: BAttribute(false)]\n[assembly: CAttribute(true)]").toList := by
  obtain ⟨edited, h⟩ := Except.exists_of_isOk (x :=
    ofText .csharp "[assembly: A(1)]\n[assembly: AAttribute(2)]\n".toList >>= (·.setAll
      [("B".toList, .bool true), ("A".toList, .string "x".toList), ("B".toList, .bool false),
        ("C".toList, .bool true)])) (by decide +kernel)
  obtain ⟨doc, hdoc, hs⟩ := Except.bind_eq_ok_iff.1 h
  have hmode : (ofText .csharp "[assembly: A(1)]\n[assembly: AAttribute(2)]\n".toList).toOption.map
      suffixMode = some true := by decide +kernel
  rw [hdoc] at hmode
  refine ⟨doc, edited, hdoc, hs, ?_⟩
  rw [render_setAll hdoc hs, Option.some.inj hmode]
  decide +kernel

end Document

end AssemblyInfo
