import AssemblyInfo.Proofs.Integrity

/-! Settings that overwrite each other, and settings that may change places. Setting an attribute
twice gives the document that the second setting alone gives, also where the first one appended the
declaration. Two attributes may be set in either order if one of them is registered: its declaration
ends with a bracket before and after it is written anew, so that the other one is appended in the
same way. -/

namespace AssemblyInfo

theorem Fragment.endsLine_of_bracketed {f : Fragment} (h : f.text.Bracketed) :
    f.endsLine = false := by
  obtain ⟨u, hu⟩ := List.getLast?_eq_some_iff.1 h.2
  have hb : Text.trailingBlanks (u ++ [']']) = [] := by
    rw [Text.trailingBlanks_append_cons _ _ (by decide)]
    rfl
  rw [endsLine, hu, hb]
  rfl

namespace Document

variable {source : Text} {doc : Document} {name : Name} {key key' literal literal' : Text}
  {entry entry' : Entry} {value value' : Value}

@[simp] theorem suffixMode_endLine (doc : Document) : doc.endLine.suffixMode = doc.suffixMode := by
  rcases doc.endLine_cases with h | h <;> rw [h]
  rfl

theorem append_eq (h : doc.registry.find? name.key = none) (value : Value) (literal : Text) :
    doc.append name value literal =
      { dialect := doc.dialect
        fragments := doc.endLine.fragments ++
          [Fragment.ofAttribute (Name.written name.key (doc.suffixMode || name.suffixed)) literal]
        registry := doc.registry.insert name.key
          ⟨Name.written name.key (doc.suffixMode || name.suffixed), value,
            doc.endLine.fragments.length⟩
        suffixMode := doc.suffixMode || name.suffixed } := by
  simp only [append, push, register, dialect_endLine, registry_endLine, suffixMode_endLine, h]

theorem dialect_append (h : doc.registry.find? name.key = none) (value : Value) (literal : Text) :
    (doc.append name value literal).dialect = doc.dialect := by
  rw [append_eq h]

theorem set_eq_replace_of_dialect (doc : Document) (key : Text) {dialect : Dialect}
    (hd : doc.dialect = dialect) (hl : value.encode = .ok literal)
    (hfind : doc.registry.find? (Name.canonical dialect key).key = some entry) :
    doc.set key value =
      .ok (doc.replace (Name.canonical dialect key).key entry value literal) := by
  subst hd
  exact set_eq_replace hl hfind

theorem exists_set_of_encode (doc : Document) (key : Text) (hl : value.encode = .ok literal) :
    ∃ edited, doc.set key value = .ok edited :=
  ⟨_, by rw [set, hl]; rfl⟩

/-! ### One attribute -/

theorem replace_replace (doc : Document) (key : Text) (entry : Entry) (value value' : Value)
    (literal literal' : Text) :
    (doc.replace key entry value literal).replace key { entry with value } value' literal' =
      doc.replace key entry value' literal' := by
  simp only [replace, List.set_set, Registry.insert_insert]

/-- An appended declaration is written anew where it stands. -/
theorem replace_append (h : doc.registry.find? name.key = none) (value value' : Value)
    (literal literal' : Text) :
    (doc.append name value literal).replace name.key
        ⟨Name.written name.key (doc.suffixMode || name.suffixed), value,
          doc.endLine.fragments.length⟩ value' literal' =
      doc.append name value' literal' := by
  rw [append_eq h, append_eq h]
  simp only [replace, Registry.insert_insert, List.set_append_right _ _ (Nat.le_refl _),
    Nat.sub_self, List.set_cons_zero]

/-- The last setting of an attribute wins. -/
theorem set_set (hl : value.encode = .ok literal) (key : Text) (value' : Value) :
    (doc.set key value >>= fun d => d.set key value') = doc.set key value' := by
  cases hl' : value'.encode with
  | error e =>
    obtain ⟨next, hnext⟩ := doc.exists_set_of_encode key hl
    rw [hnext, set_eq_error_iff.2 hl']
    exact set_eq_error_iff.2 hl'
  | ok literal' =>
    cases hfind : doc.registry.find? (Name.canonical doc.dialect key).key with
    | some entry =>
      rw [set_eq_replace hl hfind, set_eq_replace hl' hfind,
        ← replace_replace doc _ entry value value' literal]
      exact set_eq_replace_of_dialect (doc.replace _ entry value literal) key rfl hl'
        (Registry.find?_insert_self _ _ _)
    | none =>
      rw [set_eq_append hl hfind, set_eq_append hl' hfind,
        ← replace_append hfind value value' literal]
      have hdialect := dialect_append hfind value literal
      apply set_eq_replace_of_dialect _ key hdialect hl'
      rw [append_eq hfind, Registry.find?_insert_self]

/-! ### Two attributes -/

theorem replace_comm (hne : key ≠ key') (hplace : entry.fragment ≠ entry'.fragment)
    (hfind : doc.registry.find? key = some entry) :
    (doc.replace key entry value literal).replace key' entry' value' literal' =
      (doc.replace key' entry' value' literal').replace key entry value literal := by
  simp only [replace, List.set_comm _ _ hplace,
    Registry.insert_comm hne (by simp [hfind] : doc.registry.find? key ≠ none)]

/-- Whether the last line is ended does not depend on what a declaration is written as. -/
theorem WellFormed.needsNewline_replace (h : WellFormed source doc)
    (hfind : doc.registry.find? key = some entry) (value : Value) (literal : Text) :
    (doc.replace key entry value literal).needsNewline = doc.needsNewline := by
  obtain ⟨f, hf, ha⟩ := h.linked.points hfind
  have hold : f.endsLine = false :=
    Fragment.endsLine_of_bracketed (h.bracketed f (List.mem_of_getElem? hf) ha)
  have hnew : (Fragment.ofAttribute entry.writtenName literal).endsLine = false :=
    Fragment.endsLine_of_bracketed (Fragment.bracketed_ofAttribute _ _)
  have hlt : entry.fragment < doc.fragments.length := (List.getElem?_eq_some_iff.1 hf).1
  unfold needsNewline Document.replace
  rw [List.getLast?_eq_getElem?, List.getLast?_eq_getElem?, List.length_set]
  by_cases hlast : entry.fragment = doc.fragments.length - 1
  · rw [← hlast, hf, List.getElem?_set_self hlt]
    simp only [hold, hnew]
  · rw [List.getElem?_set_ne hlast]

theorem WellFormed.endLine_replace (h : WellFormed source doc)
    (hfind : doc.registry.find? key = some entry) (value : Value) (literal : Text) :
    (doc.replace key entry value literal).endLine =
      doc.endLine.replace key entry value literal := by
  have hlt := (h.linked.points hfind).lt_length
  unfold endLine
  rw [h.needsNewline_replace hfind]
  split_ifs
  · simp only [push, Document.replace, List.set_append_left _ _ hlt]
  · rfl

theorem WellFormed.append_replace (h : WellFormed source doc) (hne : key ≠ name.key)
    (hfind : doc.registry.find? key = some entry) (hnone : doc.registry.find? name.key = none) :
    (doc.replace key entry value literal).append name value' literal' =
      (doc.append name value' literal').replace key entry value literal := by
  have hnone' : (doc.replace key entry value literal).registry.find? name.key = none :=
    (Registry.find?_insert_of_ne _ _ hne).trans hnone
  have hlt : entry.fragment < doc.endLine.fragments.length :=
    ((doc.attributeAt_endLine _).2 (h.linked.points hfind)).lt_length
  rw [append_eq hnone', append_eq hnone, h.endLine_replace hfind]
  simp only [Document.replace, List.length_set, List.set_append_left _ _ hlt,
    Registry.insert_comm hne (by simp [hfind] : doc.registry.find? key ≠ none)]

/-- An attribute that is registered may be set before or after another one. -/
theorem WellFormed.set_comm (h : WellFormed source doc) (hl : value.encode = .ok literal)
    (hl' : value'.encode = .ok literal')
    (hne : (Name.canonical doc.dialect key).key ≠ (Name.canonical doc.dialect key').key)
    (hfind : doc.registry.find? (Name.canonical doc.dialect key).key = some entry) :
    (doc.set key value >>= fun d => d.set key' value') =
      doc.set key' value' >>= fun d => d.set key value := by
  rw [set_eq_replace hl hfind]
  cases hfind' : doc.registry.find? (Name.canonical doc.dialect key').key with
  | some entry' =>
    have hplace : entry.fragment ≠ entry'.fragment :=
      fun heq => hne (h.linked.distinct hfind hfind' heq)
    rw [set_eq_replace hl' hfind']
    refine (set_eq_replace hl' ((Registry.find?_insert_of_ne _ _ hne).trans hfind')).trans ?_
    refine Eq.trans ?_
      (set_eq_replace hl ((Registry.find?_insert_of_ne _ _ hne.symm).trans hfind)).symm
    exact congrArg _ (replace_comm hne hplace hfind)
  | none =>
    rw [set_eq_append hl' hfind']
    refine (set_eq_append hl' ((Registry.find?_insert_of_ne _ _ hne).trans hfind')).trans ?_
    have hkept : (doc.append (Name.canonical doc.dialect key') value' literal').registry.find?
        (Name.canonical doc.dialect key).key = some entry := by
      rw [append_eq hfind']
      exact (Registry.find?_insert_of_ne _ _ hne.symm).trans hfind
    have hlast := set_eq_replace_of_dialect _ key (dialect_append hfind' value' literal') hl hkept
    exact (congrArg _ (h.append_replace hne hfind hfind')).trans hlast.symm

/-- Of two settings of one attribute the second one decides the document, and settings of two
attributes give the same document in either order if one of the attributes is registered. -/
theorem set_set_and_set_comm {dialect : Dialect} (h : ofText dialect source = .ok doc)
    (requests : List Request) (hl : value.encode = .ok literal)
    (hl' : value'.encode = .ok literal') (key key' : Text) :
    (∃ edited, (doc.trySetAll requests).set key value' = .ok edited ∧
      ((doc.trySetAll requests).set key value >>= fun d => d.set key value') = .ok edited) ∧
    ((Name.canonical dialect key).key ≠ (Name.canonical dialect key').key →
      (doc.trySetAll requests).get? key ≠ none ∨ (doc.trySetAll requests).get? key' ≠ none →
      ∃ edited,
        ((doc.trySetAll requests).set key value >>= fun d => d.set key' value') = .ok edited ∧
        ((doc.trySetAll requests).set key' value' >>= fun d => d.set key value) = .ok edited) := by
  have hwell := (wellFormed_of_ofText h).trySetAll requests
  have hd : (doc.trySetAll requests).dialect = dialect :=
    (doc.dialect_trySetAll requests).trans (dialect_of_ofText h)
  generalize doc.trySetAll requests = d at hwell hd
  subst hd
  obtain ⟨edited, hedited⟩ := exists_set_of_encode d key hl'
  refine ⟨⟨edited, hedited, (set_set hl key value').trans hedited⟩, ?_⟩
  intro hne hregistered
  obtain ⟨first, hfirst⟩ := exists_set_of_encode d key hl
  obtain ⟨both, hboth⟩ := exists_set_of_encode first key' hl'
  have hforth : (d.set key value >>= fun d => d.set key' value') = .ok both := by
    rw [hfirst]
    exact hboth
  refine ⟨both, hforth, ?_⟩
  rw [← hforth]
  rcases hregistered with hget | hget
  · obtain ⟨entry, hfind⟩ := Option.ne_none_iff_exists'.1 (mt Option.map_eq_none_iff.2 hget)
    exact (hwell.set_comm hl hl' hne hfind).symm
  · obtain ⟨entry, hfind⟩ := Option.ne_none_iff_exists'.1 (mt Option.map_eq_none_iff.2 hget)
    exact hwell.set_comm hl' hl hne.symm hfind

/-- The declaration that is written anew is the last fragment, which the other setting looks at, and
the other setting switches to suffix mode. -/
theorem set_set_and_set_comm_last_fragment : ∃ doc edited,
    ofText .csharp "[assembly: A(1)]".toList = .ok doc ∧
    (doc.trySetAll []).get? "A".toList ≠ none ∧
    ((doc.trySetAll []).set "A".toList (.string "\n".toList) >>= fun d =>
      d.set "BAttribute".toList (.bool true)) = .ok edited ∧
    ((doc.trySetAll []).set "BAttribute".toList (.bool true) >>= fun d =>
      d.set "A".toList (.string "\n".toList)) = .ok edited ∧
    edited.render false = "[assembly: A(\"\\n\")]\n[assembly: BAttribute(true)]".toList := by
  have hrun := Except.eq_ok_of_toOption (x := do
    let doc ← ofText .csharp "[assembly: A(1)]".toList
    let edited ← doc.set "A".toList (.string "\n".toList) >>= fun d =>
      d.set "BAttribute".toList (.bool true)
    .ok (doc.get? "A".toList, edited.render false))
    (a := (some (.number (.integer 1 (by decide) (by decide))),
      "[assembly: A(\"\\n\")]\n[assembly: BAttribute(true)]".toList)) (by decide +kernel)
  obtain ⟨doc, h, hrun⟩ := Except.bind_eq_ok_iff.1 hrun
  obtain ⟨edited, hedited, hrun⟩ := Except.bind_eq_ok_iff.1 hrun
  obtain ⟨hget, hrender⟩ := Prod.mk.inj (Except.ok.inj hrun)
  have hregistered : (doc.trySetAll []).get? "A".toList ≠ none := by
    change doc.get? "A".toList ≠ none
    rw [hget]
    exact Option.some_ne_none _
  obtain ⟨-, hcomm⟩ := set_set_and_set_comm h []
    (rfl : (Value.string "\n".toList).encode = .ok "\"\\n\"".toList)
    (rfl : (Value.bool true).encode = .ok "true".toList) "A".toList "BAttribute".toList
  obtain ⟨both, hforth, hback⟩ := hcomm (by decide +kernel) (.inl hregistered)
  obtain rfl : edited = both := Except.ok.inj (hedited.symm.trans hforth)
  exact ⟨doc, edited, h, hregistered, hforth, hback, hrender⟩

end Document

end AssemblyInfo
