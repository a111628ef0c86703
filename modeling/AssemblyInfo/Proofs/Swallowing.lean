import AssemblyInfo.Proofs.Appending
import AssemblyInfo.Proofs.LiteralForm

/-! C# documents that are loaded again after a declaration has been appended. Where no declaration
is open at the end of the text, all that was read is read again: the appended declaration is one
more, or is plain text if the line before it is not blank. Where one is open, it swallows the
appended declaration as a part of its arguments. These are no literal then, and the text cannot be
loaded. -/

namespace AssemblyInfo

open Declaration (CSharp Holds)
open Text (LineSuffix isBlank isSpaceOrTab)

/-! ### Declarations that are open at the end -/

namespace Declaration.CSharp

variable {t s : Text} {e : CSharp}

theorem Closed.of_newline (h : Closed (t ++ ['\n'])) : Closed t := by
  intro s hs ho
  refine h (s ++ ['\n']) ?_ ho.concat
  rcases hs with rfl | ⟨a, rfl⟩
  · exact .inl rfl
  · exact .inr ⟨a, by simp⟩

/-- What is open at the end begins after each declaration. -/
theorem IsOpen.exists_after {indent r : Text} {d : CSharp} (ho : IsOpen s) (hd : d.WellFormed)
    (hs : LineSuffix s (indent ++ (d.text ++ r))) : ∃ a, r = a ++ '\n' :: s := by
  have hparen := ho.not_mem
  have hsplit : indent ++ (d.text ++ r) =
      (indent ++ (d.opening ++ d.arguments)) ++ ')' :: (d.afterArguments ++ ']' :: r) := by
    simp [text_eq]
  rw [hsplit] at hs
  rcases hs with rfl | ⟨a, ha⟩
  · simp at hparen
  · obtain ⟨b, -, hb⟩ := Text.exists_of_append_cons_eq_append (by simp [hparen]) ha
    obtain ⟨indent', hi, e, -, rfl⟩ := ho
    have hopen : e.opening = '[' :: e.opening.tail := rfl
    -- neither the blanks nor the bracket at the end of the declaration open another one
    have hend : '[' ∉ d.afterArguments ++ [']'] := by
      simp [Text.not_mem_of_forall hd.afterArguments (by decide : isBlank '[' = false)]
    have hindent : ']' ∉ '\n' :: indent' := by
      simp [Text.not_mem_of_forall hi (by decide : isSpaceOrTab ']' = false)]
    have hfirst : (d.afterArguments ++ [']']) ++ r =
        (b ++ '\n' :: indent') ++ '[' :: (e.opening.tail ++ e.arguments) := by
      rw [hopen] at hb
      simpa using hb
    obtain ⟨x, hx, rfl⟩ := Text.exists_of_append_eq_append_cons hend hfirst
    obtain ⟨y, -, rfl⟩ := Text.exists_of_append_cons_eq_append (u := d.afterArguments) hindent
      (by simpa using hx.symm)
    exact ⟨y, by rw [hopen]; simp⟩

/-- The declaration is taken for a part of the arguments of another one that is read in the text. -/
def SwallowedBy (e : CSharp) (t : Text) : Prop :=
  ∃ (w : Marked Declaration) (f : CSharp) (x : Text), Laid .csharp t w ∧ .inr (.csharp f) ∈ w ∧
    f.arguments = x ++ (e.opening ++ e.arguments)

/-- An open text makes one declaration with the next one. -/
theorem IsOpen.swallowedBy (ho : IsOpen t) (he : e.WellFormed) : e.SwallowedBy (t ++ e.text) := by
  obtain ⟨indent, f, x, hi, hf, hx, htext⟩ := ho.swallows he
  have hread : Declaration.read? .csharp ((Declaration.csharp f).text ++ []) =
      some (.csharp f, []) := read?_csharp_iff.2 ⟨f, rfl, hf, rfl⟩
  have hlaid := Laid.lastDeclaration hi List.not_mem_nil hread
  rw [List.append_nil] at hlaid
  rw [htext]
  exact ⟨_, f, x, hlaid, by simp, hx⟩

end Declaration.CSharp

theorem Outline.closed_of_separator {t : Text} (h : CSharp.Closed (t ++ separator t)) :
    CSharp.Closed t := by
  unfold separator at h
  split_ifs at h
  · simpa using h
  · exact h.of_newline

namespace Laid

open Declaration.CSharp (IsOpen)

variable {t s : Text} {w : Marked Declaration} {e : CSharp}

/-- A declaration that is open at the end of a text swallows the next one. -/
theorem swallowedBy (h : Laid .csharp t w) (hs : LineSuffix s t) (ho : IsOpen s)
    (he : e.WellFormed) : e.SwallowedBy (t ++ e.text) := by
  induction h with
  | last hl hr =>
    obtain rfl := hs.eq_of_not_mem hl
    exact ho.swallowedBy he
  | @line l u w hl hr hu ih =>
    -- the first line that is open swallows all others
    by_cases hopen : IsOpen (l ++ '\n' :: u)
    · exact hopen.swallowedBy he
    rcases hs with rfl | ⟨a, ha⟩
    · exact absurd ho hopen
    obtain ⟨w', f, x, hw, hf, hx⟩ := ih (Text.lineSuffix_of_append_eq hl ha)
    have hr' : Segment.readIndented? .csharp (l ++ '\n' :: (u ++ e.text)) = none :=
      readIndented?_bracket (x := []) e.text.tail hl (by simpa using hr) fun _ => hopen
    refine ⟨_, f, x, by simpa using Laid.line hl hr' hw, ?_, hx⟩
    simp [hf]
  | lastDeclaration hi hl hr =>
    obtain ⟨d, rfl, hd, -⟩ := Declaration.read?_csharp_iff.1 hr
    obtain ⟨a, rfl⟩ := ho.exists_after hd hs
    simp at hl
  | declaration hi hl hr hu ih =>
    have hread := Declaration.read?_csharp_rest hr
    obtain ⟨d, rfl, hd, -⟩ := Declaration.read?_csharp_iff.1 hr
    obtain ⟨a, ha⟩ := ho.exists_after hd hs
    obtain ⟨w', f, x, hw, hf, hx⟩ := ih (Text.lineSuffix_of_append_eq hl ha)
    refine ⟨_, f, x, by simpa using Laid.declaration hi hl (hread _) hw, ?_, hx⟩
    simp [hf]

end Laid

/-! ### Attributes from the layout -/

theorem Declaration.pairs_eq_filterMap (dialect : Dialect) (t : Text) :
    pairs dialect t = (Marked.items (layout dialect t)).filterMap (pair? dialect) := by
  rw [items_layout, List.filterMap_map]
  rfl

theorem Reads.declared_of_mem {dialect : Dialect} {mode mode' : Bool} {w : Marked Declaration}
    {r : Marked Slot} {d : Declaration} (h : Reads dialect mode w mode' r) (hd : .inr d ∈ w) :
    ∃ p, d.declared = .ok p := by
  induction h with
  | nil => simp at hd
  | char c _ ih => exact ih (by simpa using hd)
  | declaration hdeclared _ ih =>
    rcases List.mem_cons.1 hd with hd | hd
    · cases hd
      exact ⟨_, hdeclared⟩
    · exact ih hd

theorem Reads.exists_of_declared {dialect : Dialect} {w : Marked Declaration}
    (h : ∀ d, .inr d ∈ w → ∃ p, d.declared = .ok p) (mode : Bool) :
    ∃ mode' r, Reads dialect mode w mode' r := by
  induction w generalizing mode with
  | nil => exact ⟨mode, [], .nil⟩
  | cons x w ih =>
    have ih := ih fun d hd => h d (List.mem_cons_of_mem x hd)
    cases x with
    | inl c =>
      obtain ⟨mode', r, hr⟩ := ih mode
      exact ⟨mode', _, .char c hr⟩
    | inr d =>
      obtain ⟨⟨name, value⟩, hd⟩ := h d List.mem_cons_self
      obtain ⟨mode', r, hr⟩ := ih (mode || (Name.canonical dialect name).suffixed)
      exact ⟨mode', _, .declaration hd hr⟩

theorem OrderedMap.find?_append_of_some {m m' : OrderedMap} {key : Text} {value : Value}
    (h : m.find? key = some value) : find? (m ++ m') key = some value := by
  rw [find?] at h
  rw [find?, List.lookup_append, h, Option.some_or]

/-! ### Documents -/

namespace Document

variable {doc : Document} {t : Text}

/-- If the layout of a text goes on as that of another one with declarations that have values, the
values are inserted. -/
theorem ofText_of_layout_append {dialect : Dialect} {t' : Text} {w : Marked Declaration}
    (h : ofText dialect t = .ok doc) (hw : layout dialect t' = layout dialect t ++ w)
    (hd : ∀ d, .inr d ∈ w → ∃ p, d.declared = .ok p) :
    ∃ doc', ofText dialect t' = .ok doc' ∧
      doc'.attributes = ((Marked.items w).filterMap (Declaration.pair? dialect)).foldl
        (fun m p => OrderedMap.insert m p.1 p.2) doc.attributes := by
  obtain ⟨mode, r, hr, -⟩ := exists_reads_of_ofText h
  obtain ⟨mode', r', hr'⟩ := Reads.exists_of_declared hd mode
  have hreads := hr.append hr'
  rw [← hw] at hreads
  obtain ⟨doc', hdoc', -⟩ := shows_of_reads hreads
  refine ⟨doc', hdoc', ?_⟩
  rw [attributes_of_ofText hdoc', attributes_of_ofText h, Declaration.pairs_eq_filterMap,
    Declaration.pairs_eq_filterMap, hw, Marked.items_append, List.filterMap_append,
    OrderedMap.ofList, List.foldl_append]
  rfl

/-- A written declaration stands on one line. -/
theorem newline_not_mem_ofAttribute {name literal : Text} {value : Value}
    (hn : Declaration.IsName .csharp name) (hl : Holds .csharp value literal) :
    '\n' ∉ (Fragment.ofAttribute name literal).text := by
  have hopening : '\n' ∉ "[assembly: ".toList := by decide
  have hname : '\n' ∉ name := Text.not_mem_of_forall hn.2 (by decide)
  have hliteral : '\n' ∉ literal := by
    intro hm
    exact absurd (Value.le_toNat_of_mem_literal hl.isExact hl.encode_eq _ hm) (by decide)
  rw [Fragment.ofAttribute, Fragment.text]
  simp only [List.mem_append, List.mem_cons, hopening, hname, hliteral]
  decide

/-- Where a declaration is open at the end, the text cannot be loaded after another one has been
appended, unless its literal is a string. -/
theorem ofText_of_not_closed {name literal u : Text} {value : Value} {c : Char}
    (hc : ¬CSharp.Closed t) (hn : Declaration.IsName .csharp name)
    (hl : Holds .csharp value literal) (hu : literal = u ++ [c]) (hb : isBlank c = false)
    (hq : ¬Text.isQuote c) :
    ∃ fault, ofText .csharp
      (t ++ Outline.separator t ++ (Fragment.ofAttribute name literal).text) = .error fault := by
  have hopen : ¬CSharp.Closed (t ++ Outline.separator t) := mt Outline.closed_of_separator hc
  simp only [CSharp.Closed, not_forall, not_not] at hopen
  obtain ⟨s, hs, ho⟩ := hopen
  have he := CSharp.wellFormed_written hn hl
  have htext := Declaration.text_written .csharp name literal
  obtain ⟨w, f, x, hw, hf, hx⟩ := (laid_iff.2 rfl).swallowedBy hs ho he
  cases h : ofText .csharp
      (t ++ Outline.separator t ++ (Fragment.ofAttribute name literal).text) with
  | error fault => exact ⟨fault, rfl⟩
  | ok doc =>
    obtain ⟨mode, r, hr, -⟩ := exists_reads_of_ofText h
    rw [← htext, Declaration.written, Declaration.text, laid_iff.1 hw] at hr
    obtain ⟨⟨name, value⟩, hd⟩ := hr.declared_of_mem hf
    obtain ⟨v, hv, -⟩ := Except.map_eq_ok_iff.1 hd
    rw [hx, hu, ← List.append_assoc, ← List.append_assoc] at hv
    exact absurd hv (Value.decode_ne_ok_of_parenthesis (by simp [CSharp.opening]) hb hq)

/-- Where none is open, what is appended leaves the attributes that are there as they are. -/
theorem ofText_of_closed {name : Text} {value : Value} {literal : Text}
    (h : ofText .csharp t = .ok doc) (hc : CSharp.Closed t) (hn : Declaration.IsName .csharp name)
    (hl : Holds .csharp value literal)
    (hkey : (Name.canonical .csharp name).key ∉ OrderedMap.keys doc.attributes) :
    ∃ reloaded,
      ofText .csharp (t ++ Outline.separator t ++ (Fragment.ofAttribute name literal).text) =
        .ok reloaded ∧
      doc.attributes <+: reloaded.attributes := by
  have hlaid := Outline.laid_separator (laid_iff.2 (rfl : layout .csharp t = _))
  have hclosed := Outline.closed_separator hc
  obtain ⟨y, hs, -, hy, -⟩ := Outline.exists_last_line t
  by_cases hspace : ∀ c ∈ y, isSpaceOrTab c
  · -- the declaration is read
    have hnew := hlaid.append hs hspace (fun _ => hclosed) (Declaration.read?_written hn hl)
    rw [Declaration.text_written, laid_iff, List.append_assoc (layout .csharp t)] at hnew
    have hd := Declaration.declared_written hn hl
    have hpair : (Declaration.written .csharp name literal).pair? .csharp =
        some ((Name.canonical .csharp name).key, value) := by
      rw [Declaration.pair?, hd]
      rfl
    have hdeclared (d : Declaration) (hm : .inr d ∈ Marked.plain (Outline.separator t) ++
        [.inr (Declaration.written .csharp name literal)]) : ∃ p, d.declared = .ok p := by
      obtain rfl : d = Declaration.written .csharp name literal := by
        simpa [Marked.inr_not_mem_plain] using hm
      exact ⟨_, hd⟩
    obtain ⟨reloaded, hreloaded, hattributes⟩ := ofText_of_layout_append h hnew hdeclared
    refine ⟨reloaded, hreloaded, ?_⟩
    rw [hattributes]
    simp [hpair, OrderedMap.insert_of_not_mem hkey]
  · -- the line that it stands on is read as plain text
    obtain ⟨z, hz⟩ : ∃ z, (Fragment.ofAttribute name literal).text = '[' :: z := ⟨_, rfl⟩
    have hline : '\n' ∉ '[' :: z := by
      rw [← hz]
      exact newline_not_mem_ofAttribute hn hl
    have hnew := hlaid.append_plain hs hy (by simpa using hspace) hclosed
      fun hm => hline (List.mem_cons_of_mem _ hm)
    rw [← hz, laid_iff, List.append_assoc (layout .csharp t), ← Marked.plain_append] at hnew
    obtain ⟨reloaded, hreloaded, hattributes⟩ := ofText_of_layout_append h hnew
      fun d hm => absurd hm Marked.inr_not_mem_plain
    refine ⟨reloaded, hreloaded, ?_⟩
    rw [hattributes, Marked.items_plain]
    exact List.prefix_rfl

/-- A declaration that is appended to a C# document damages nothing, unless a declaration is open at
the end of the text. In that case the text cannot be loaded any more. -/
theorem reload_append {key : Text} (h : ofText .csharp t = .ok doc)
    (hp : Name.IsPlain .csharp key) (hk : doc.get? key = none) (header : Bool) :
    ∃ edited, doc.set key (.bool true) = .ok edited ∧
      (CSharp.Closed t → ∃ reloaded, ofText .csharp (edited.render header) = .ok reloaded ∧
        doc.attributes <+: reloaded.attributes ∧
        ∀ k v, doc.get? k = some v → reloaded.get? k = some v) ∧
      (¬CSharp.Closed t → ∃ fault, ofText .csharp (edited.render header) = .error fault) := by
  have hd := dialect_of_ofText h
  have hl : Holds .csharp (.bool true) "true".toList := ⟨rfl, rfl, fun _ => by decide⟩
  have hfind : doc.registry.find? (Name.canonical doc.dialect key).key = none :=
    Option.map_eq_none_iff.1 hk
  have hset := set_eq_append hl.encode_eq hfind
  have hrender := render_append hfind (.bool true) "true".toList
  rw [text_endLine (tidy_of_ofText h), text_of_ofText h, render_false,
    ← render_csharp ((dialect_set hset).trans hd) header, hd] at hrender
  rw [hd] at hset
  -- the name that is written stands for the key
  have hkey := Name.isKey_canonical hp
  have hname := Name.isName_written hkey
    (doc.endLine.suffixMode || (Name.canonical .csharp key).suffixed)
  have hcanonical : Name.canonical .csharp (Name.written (Name.canonical .csharp key).key
      (doc.endLine.suffixMode || (Name.canonical .csharp key).suffixed)) = _ :=
    Name.canonical_written hkey nofun
  refine ⟨_, hset, fun hc => ?_, fun hc => ?_⟩
  · have hnew : (Name.canonical .csharp key).key ∉ OrderedMap.keys doc.attributes := by
      rw [← OrderedMap.find?_eq_none_iff, ← hd, ← get?_eq_find?]
      exact hk
    obtain ⟨reloaded, hreloaded, extra, hextra⟩ :=
      ofText_of_closed h hc hname hl (by rwa [hcanonical])
    refine ⟨reloaded, by rwa [hrender], ⟨extra, hextra⟩, ?_⟩
    intro k v hv
    rw [get?_eq_find?, hd] at hv
    rw [get?_eq_find?, dialect_of_ofText hreloaded, ← hextra]
    exact OrderedMap.find?_append_of_some hv
  · obtain ⟨fault, hfault⟩ :=
      ofText_of_not_closed (u := "tru".toList) (c := 'e') hc hname hl rfl (by decide) (by decide)
    exact ⟨fault, by rwa [hrender]⟩

/-- The line that is appended to is not blank, so that the appended declaration is not read. -/
theorem reload_append_no_break_space : ∃ doc edited reloaded,
    ofText .csharp "[assembly: A(1)]\n\u00a0".toList = .ok doc ∧ doc.get? "B".toList = none ∧
      doc.set "B".toList (.bool true) = .ok edited ∧
      ofText .csharp (edited.render true) = .ok reloaded ∧
      doc.attributes <+: reloaded.attributes := by
  obtain ⟨doc, h⟩ : ∃ doc, ofText .csharp "[assembly: A(1)]\n\u00a0".toList = .ok doc :=
    Except.exists_of_isOk (by decide +kernel)
  have hclosed : CSharp.Closed "[assembly: A(1)]\n\u00a0".toList := by
    apply CSharp.closed_of_bracket "[assembly: A(1".toList (t := ['\n', '\u00a0'])
    intro a s hs ho
    obtain ⟨indent, -, d, -, rfl⟩ := ho
    have hm : '[' ∈ ['\n', '\u00a0'] := by simp [hs, CSharp.opening]
    exact absurd hm (by decide)
  have hkey : doc.get? "B".toList = none := by
    rw [get?_eq_find?, dialect_of_ofText h, attributes_of_ofText h]
    decide +kernel
  obtain ⟨edited, hset, hreload, -⟩ := reload_append h (by decide) hkey true
  obtain ⟨reloaded, hreloaded, hattributes, -⟩ := hreload hclosed
  exact ⟨doc, edited, reloaded, h, hkey, hset, hreloaded, hattributes⟩

/-- A declaration that is open at the end takes the appended one for its arguments. -/
theorem reload_append_open : ∃ doc edited fault,
    ofText .csharp "[assembly: A(1)]\n[assembly: B(".toList = .ok doc ∧
      doc.get? "A".toList = some (.number (.integer 1 (by decide) (by decide))) ∧
      Name.IsPlain .csharp "C".toList ∧ doc.get? "C".toList = none ∧
      doc.set "C".toList (.bool true) = .ok edited ∧
      edited.render true = "[assembly: A(1)]\n[assembly: B(\n[assembly: C(true)]".toList ∧
      ofText .csharp (edited.render true) = .error fault := by
  have h := Except.eq_ok_of_toOption (x := do
    let doc ← ofText .csharp "[assembly: A(1)]\n[assembly: B(".toList
    let edited ← doc.set "C".toList (.bool true)
    .ok (doc.get? "A".toList, doc.get? "C".toList, edited.render true))
    (a := (some (.number (.integer 1 (by decide) (by decide))), none,
      "[assembly: A(1)]\n[assembly: B(\n[assembly: C(true)]".toList)) (by decide +kernel)
  obtain ⟨doc, hdoc, h⟩ := Except.bind_eq_ok_iff.1 h
  obtain ⟨edited, hset, h⟩ := Except.bind_eq_ok_iff.1 h
  obtain ⟨hold, h⟩ := Prod.mk.inj (Except.ok.inj h)
  obtain ⟨hkey, hrender⟩ := Prod.mk.inj h
  have hreload : (ofText .csharp
      "[assembly: A(1)]\n[assembly: B(\n[assembly: C(true)]".toList).toOption.isNone := by
    decide +kernel
  cases hfault : ofText .csharp "[assembly: A(1)]\n[assembly: B(\n[assembly: C(true)]".toList with
  | ok reloaded =>
    rw [hfault] at hreload
    contradiction
  | error fault =>
    exact ⟨doc, edited, fault, hdoc, hold, by decide, hkey, hset, hrender, by rw [hrender, hfault]⟩

end Document

end AssemblyInfo
