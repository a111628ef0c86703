import AssemblyInfo.Proofs.Editing
import AssemblyInfo.Proofs.Lookup

/-! The names that attributes are written with. Names are registered in the order of the
declarations of a source and then of the requests that append one. The first suffixed name among
them switches to suffix mode, which is never left, and the name that an attribute is written with is
settled when its key is registered for the last time. Later requests for the attribute write it with
this name, which is read back as its key. -/

namespace AssemblyInfo

namespace Name

variable {dialect : Dialect} {names : List Name} {name : Name} {key written : Text}

/-- Whether a document is in suffix mode when names are registered. -/
def modeAfter (dialect : Dialect) (names : List Name) : Bool :=
  dialect = .jscript || names.any suffixed

/-- What is written for a key when names are registered: the names up to the last one of the key
decide whether it has the suffix. -/
def Settles (dialect : Dialect) (names : List Name) (key written : Text) : Prop :=
  ∃ before name after, names = before ++ name :: after ∧ name.key = key ∧
    (∀ n ∈ after, n.key ≠ key) ∧
    written = if modeAfter dialect (before ++ [name]) then key ++ suffix else key

theorem modeAfter_append (dialect : Dialect) (names more : List Name) :
    modeAfter dialect (names ++ more) = (modeAfter dialect names || more.any suffixed) := by
  simp [modeAfter, Bool.or_assoc]

theorem not_settles_nil : ¬Settles dialect [] key written := by
  rintro ⟨before, name, after, h, -⟩
  simp at h

/-- One more name settles what is written for its own key, and only that. -/
theorem settles_concat : Settles dialect (names ++ [name]) key written ↔
    if name.key = key then
      written = if modeAfter dialect (names ++ [name]) then key ++ suffix else key
    else Settles dialect names key written := by
  constructor
  · rintro ⟨before, n, after, hnames, hkey, hafter, hw⟩
    rcases List.eq_nil_or_concat' after with rfl | ⟨after, last, rfl⟩
    · obtain ⟨rfl, hn⟩ := List.append_inj' hnames rfl
      obtain rfl := List.singleton_inj.1 hn
      rwa [if_pos hkey]
    · rw [← List.cons_append, ← List.append_assoc] at hnames
      obtain ⟨rfl, hn⟩ := List.append_inj' hnames rfl
      obtain rfl := List.singleton_inj.1 hn
      rw [if_neg (hafter name (by simp))]
      exact ⟨before, n, after, rfl, hkey, fun m hm => hafter m (by simp [hm]), hw⟩
  · intro h
    by_cases hkey : name.key = key
    · rw [if_pos hkey] at h
      exact ⟨names, name, [], rfl, hkey, by simp, h⟩
    · rw [if_neg hkey] at h
      obtain ⟨before, n, after, rfl, hn, hafter, hw⟩ := h
      refine ⟨before, n, after ++ [name], by simp, hn, ?_, hw⟩
      intro m hm
      rcases List.mem_append.1 hm with hm | hm
      · exact hafter m hm
      · rwa [List.mem_singleton.1 hm]

/-- A key with the suffix after it is read as the key. -/
theorem IsCanonical.canonical_append_suffix (h : IsCanonical dialect key) (hne : key ≠ []) :
    canonical dialect (key ++ suffix) = ⟨key, true⟩ := by
  cases dialect with
  | csharp => exact ofText_append_suffix hne
  | jscript =>
    rw [canonical, capitalize_append_suffix hne, h.capitalize_eq]
    exact ofText_append_suffix hne

/-- What is written for a key is read back as the key. -/
theorem Settles.key_canonical (h : Settles dialect names key written)
    (hnames : ∀ n ∈ names, ∃ t, canonical dialect t = n) (hne : key ≠ []) :
    (canonical dialect written).key = key := by
  obtain ⟨before, name, after, rfl, rfl, -, rfl⟩ := h
  obtain ⟨t, rfl⟩ := hnames name (by simp)
  split_ifs with hmode
  · rw [IsCanonical.canonical_append_suffix ⟨t, rfl⟩ hne]
  · simp only [modeAfter, List.any_append, List.any_cons, List.any_nil, Bool.or_false,
      Bool.or_eq_true, decide_eq_true_eq, not_or, Bool.not_eq_true] at hmode
    obtain ⟨hdialect, -, hsuffixed⟩ := hmode
    cases dialect with
    | jscript => exact absurd rfl hdialect
    | csharp =>
      -- the key is the name as it was given, since that had no suffix
      rcases ofText_cases t with ⟨ht, -⟩ | ht
      · rw [canonical, ht] at hsuffixed
        contradiction
      · simp only [canonical, ht]

end Name

/-- The names that the declarations of a text give, in order. -/
def Declaration.names (dialect : Dialect) (t : Text) : List Name :=
  (Segment.ofSource dialect t).filterMap (Segment.name? dialect)

namespace Document

variable {dialect : Dialect} {source : Text} {doc doc' : Document} {names : List Name}
  {key : Text} {value : Value}

/-- The name that a request registers: it has a value with a literal for an attribute that is not
there. -/
def registers? (doc : Document) (request : Request) : Option Name :=
  match request.2 >>= Value.encode with
  | .ok _ =>
    if doc.get? request.1 = none then some (Name.canonical doc.dialect request.1) else none
  | .error _ => none

/-- The names that requests register one after another. -/
def registrations (doc : Document) : List Request → List Name
  | [] => []
  | request :: requests =>
    (doc.registers? request).toList ++ (doc.trySet request).registrations requests

/-- The mode and the written names of a document are those after the registration of names. -/
structure Registers (names : List Name) (doc : Document) : Prop where
  suffixMode_eq : doc.suffixMode = Name.modeAfter doc.dialect names
  writtenName_iff : ∀ key written, (doc.registry.find? key).map Entry.writtenName = some written ↔
    Name.Settles doc.dialect names key written
  isCanonical : ∀ n ∈ names, ∃ t, Name.canonical doc.dialect t = n

theorem registers_empty (dialect : Dialect) : Registers [] (empty dialect) where
  suffixMode_eq := by cases dialect <;> rfl
  writtenName_iff _ _ := iff_of_false nofun Name.not_settles_nil
  isCanonical := by simp

theorem Registers.push (h : Registers names doc) (f : Fragment) : Registers names (doc.push f) :=
  ⟨h.suffixMode_eq, h.writtenName_iff, h.isCanonical⟩

theorem Registers.endLine (h : Registers names doc) : Registers names doc.endLine := by
  rcases doc.endLine_cases with he | he <;> rw [he]
  · exact h
  · exact h.push _

theorem Registers.register (h : Registers names doc) (t : Text) (value : Value) (i : Nat) :
    Registers (names ++ [Name.canonical doc.dialect t])
      (doc.register (Name.canonical doc.dialect t) value i) where
  suffixMode_eq := by
    rw [Name.modeAfter_append, dialect_register, ← h.suffixMode_eq]
    simp [Document.register]
  writtenName_iff key written := by
    have hmode : Name.modeAfter doc.dialect (names ++ [Name.canonical doc.dialect t]) =
        (doc.suffixMode || (Name.canonical doc.dialect t).suffixed) := by
      simp [Name.modeAfter_append, h.suffixMode_eq]
    rw [dialect_register, Name.settles_concat, hmode, ← h.writtenName_iff, Document.register,
      Registry.find?_insert]
    by_cases hkey : (Name.canonical doc.dialect t).key = key
    · rw [if_pos hkey, if_pos hkey.symm, ← hkey]
      exact Option.some_inj.trans eq_comm
    · rw [if_neg hkey, if_neg (Ne.symm hkey)]
  isCanonical := by
    intro n hn
    rcases List.mem_append.1 hn with hn | hn
    · exact h.isCanonical n hn
    · exact ⟨t, (List.mem_singleton.1 hn).symm⟩

/-! ### Loading -/

theorem registers_of_ofText (h : ofText dialect source = .ok doc) :
    Registers (Declaration.names dialect source) doc := by
  refine (ofText_invariant (P := fun segments d => d.dialect = dialect ∧
    Registers (segments.filterMap (Segment.name? dialect)) d) ⟨rfl, registers_empty dialect⟩
    ?_ h).2
  rintro before segment d d' ⟨rfl, hd⟩ hadd
  obtain ⟨s, rfl, rfl⟩ | ⟨start, decl, t, value, rfl, hdecl, rfl⟩ := add_cases hadd
  · have hgap : [Segment.gap s].filterMap (Segment.name? d.dialect) = [] := rfl
    rw [List.filterMap_append, hgap, List.append_nil]
    exact ⟨rfl, hd.push _⟩
  · have hdeclaration : [Segment.declaration start decl].filterMap (Segment.name? d.dialect) =
        [Name.canonical d.dialect t] := by simp [Segment.name?, hdecl, Except.toOption]
    rw [List.filterMap_append, hdeclaration]
    exact ⟨rfl, (hd.push _).register t value _⟩

/-- Suffix mode is not left while a source is loaded. -/
theorem suffixMode_of_foldlM_add {segments : List Segment} (hmode : doc.suffixMode = true)
    (h : segments.foldlM add doc = .ok doc') : doc'.suffixMode = true := by
  induction segments generalizing doc with
  | nil =>
    cases h
    exact hmode
  | cons segment segments ih =>
    rw [List.foldlM_cons] at h
    obtain ⟨next, hnext, hrest⟩ := Except.bind_eq_ok_iff.1 h
    refine ih ?_ hrest
    obtain ⟨s, -, rfl⟩ | ⟨start, d, name, value, -, -, rfl⟩ := add_cases hnext
    · exact hmode
    · simp [Document.register, Document.push, hmode]

/-! ### Requests -/

/-- A declaration that is written anew keeps its name. -/
theorem writtenName_replace {entry : Entry} (hfind : doc.registry.find? key = some entry)
    (value : Value) (literal : Text) (k : Text) :
    ((doc.replace key entry value literal).registry.find? k).map Entry.writtenName =
      (doc.registry.find? k).map Entry.writtenName := by
  rw [replace, Registry.find?_insert]
  split_ifs with hk
  · rw [hk, hfind]
    rfl
  · rfl

theorem Registers.replace {entry : Entry} (h : Registers names doc)
    (hfind : doc.registry.find? key = some entry) (value : Value) (literal : Text) :
    Registers names (doc.replace key entry value literal) :=
  ⟨h.suffixMode_eq, fun k _ => by rw [writtenName_replace hfind]; exact h.writtenName_iff k _,
    h.isCanonical⟩

theorem Registers.append (h : Registers names doc) (t : Text) (value : Value) (literal : Text) :
    Registers (names ++ [Name.canonical doc.dialect t])
      (doc.append (Name.canonical doc.dialect t) value literal) := by
  have hregister := h.endLine.register t value doc.endLine.fragments.length
  rw [dialect_endLine] at hregister
  exact hregister.push _

theorem Registers.trySet (h : Registers names doc) (request : Request) :
    Registers (names ++ (doc.registers? request).toList) (doc.trySet request) := by
  obtain ⟨key, given⟩ := request
  cases given with
  | error e => simpa [registers?, Document.trySet, bind, Except.bind] using h
  | ok value =>
    have hbind : ((.ok value : Except Error Value) >>= Value.encode) = value.encode := rfl
    cases hset : doc.set key value with
    | error e =>
      rw [trySet_of_set_error hset]
      simpa [registers?, hbind, set_eq_error_iff.1 hset] using h
    | ok next =>
      rw [trySet_of_set hset]
      obtain ⟨literal, hl, ⟨entry, hfind, rfl⟩ | ⟨hfind, rfl⟩⟩ := set_cases hset
      · simpa [registers?, hbind, hl, get?, hfind] using h.replace hfind value literal
      · simpa [registers?, hbind, hl, get?, hfind] using h.append key value literal

theorem Registers.trySetAll (h : Registers names doc) (requests : List Request) :
    Registers (names ++ doc.registrations requests) (doc.trySetAll requests) := by
  induction requests generalizing doc names with
  | nil =>
    rw [registrations, List.append_nil]
    exact h
  | cons request requests ih =>
    rw [registrations, ← List.append_assoc]
    exact ih (h.trySet request)

/-- Requests leave the name that a registered attribute is written with. -/
theorem writtenName_trySetAll {entry : Entry} (hfind : doc.registry.find? key = some entry)
    (requests : List Request) :
    ((doc.trySetAll requests).registry.find? key).map Entry.writtenName =
      some entry.writtenName := by
  refine trySetAll_invariant
    (P := fun d => (d.registry.find? key).map Entry.writtenName = some entry.writtenName) ?_
    (by rw [hfind]; rfl) requests
  intro d k value d' hd hset
  obtain ⟨literal, -, ⟨e, he, rfl⟩ | ⟨he, rfl⟩⟩ := set_cases hset
  · rwa [writtenName_replace he]
  · have hne : key ≠ (Name.canonical d.dialect k).key := by
      rintro rfl
      simp [he] at hd
    rwa [registry_append, Registry.find?_insert, if_neg hne]

/-- The names registered so far tell the mode and what each key is written as: with the suffix if
the document is in suffix mode when the key is registered for the last time. Suffix mode is not
left, be it by the segments of a source or by requests, and no later request changes what a
registered key is written as. A request for it, in any spelling, writes its declaration with this
name and leaves the mode and all other names. Read back, the name gives the key. -/
theorem writtenName_settled (h : ofText dialect source = .ok doc) (requests more : List Request) :
    (doc.trySetAll requests).suffixMode =
      Name.modeAfter dialect (Declaration.names dialect source ++ doc.registrations requests) ∧
    (∀ (segments : List Segment) (part next : Document), segments.foldlM add part = .ok next →
      part.suffixMode → next.suffixMode) ∧
    ((doc.trySetAll requests).suffixMode →
      ((doc.trySetAll requests).trySetAll more).suffixMode) ∧
    (∀ key written,
      ((doc.trySetAll requests).registry.find? key).map Entry.writtenName = some written ↔
        Name.Settles dialect (Declaration.names dialect source ++ doc.registrations requests) key
          written) ∧
    ∀ key entry, (doc.trySetAll requests).registry.find? key = some entry →
      (key ≠ [] → (Name.canonical dialect entry.writtenName).key = key) ∧
      (((doc.trySetAll requests).trySetAll more).registry.find? key).map Entry.writtenName =
        some entry.writtenName ∧
      ∀ spelling value literal, (Name.canonical dialect spelling).key = key →
        value.encode = .ok literal →
        ∃ edited, (doc.trySetAll requests).set spelling value = .ok edited ∧
          edited.fragments = (doc.trySetAll requests).fragments.set entry.fragment
            (Fragment.ofAttribute entry.writtenName literal) ∧
          edited.suffixMode = (doc.trySetAll requests).suffixMode ∧
          ∀ k, (edited.registry.find? k).map Entry.writtenName =
            ((doc.trySetAll requests).registry.find? k).map Entry.writtenName := by
  have hregisters := (registers_of_ofText h).trySetAll requests
  have hd : (doc.trySetAll requests).dialect = dialect :=
    (doc.dialect_trySetAll requests).trans (dialect_of_ofText h)
  generalize Declaration.names dialect source ++ doc.registrations requests = names at hregisters ⊢
  generalize doc.trySetAll requests = d at hregisters hd ⊢
  subst hd
  refine ⟨hregisters.suffixMode_eq, ?_, ?_, hregisters.writtenName_iff, ?_⟩
  · intro segments part next hnext hmode
    exact suffixMode_of_foldlM_add hmode hnext
  · intro hmode
    rw [(hregisters.trySetAll more).suffixMode_eq, dialect_trySetAll, Name.modeAfter_append,
      ← hregisters.suffixMode_eq, hmode, Bool.true_or]
  · intro key entry hfind
    refine ⟨?_, writtenName_trySetAll hfind more, ?_⟩
    · have hsettles := (hregisters.writtenName_iff key entry.writtenName).1 (by rw [hfind]; rfl)
      exact hsettles.key_canonical hregisters.isCanonical
    · rintro spelling value literal rfl hl
      exact ⟨_, set_eq_replace hl hfind, rfl, rfl, writtenName_replace hfind value literal⟩

/-- `A` is declared again after a suffixed name, and so it takes the suffix. `D` was declared before
and stays as it is, also when a request spells it with the suffix. -/
theorem writtenName_settled_duplicate : ∃ doc entry edited,
    ofText .csharp ("[assembly: A(1)]\n[assembly: D(2)]\n" ++
      "[assembly: BAttribute(3)]\n[assembly: A(4)]").toList = .ok doc ∧
    ((doc.trySetAll [("E".toList, .ok (.bool true))]).registry.find? "A".toList).map
      Entry.writtenName = some "AAttribute".toList ∧
    ((doc.trySetAll [("E".toList, .ok (.bool true))]).registry.find? "E".toList).map
      Entry.writtenName = some "EAttribute".toList ∧
    (doc.trySetAll [("E".toList, .ok (.bool true))]).registry.find? "D".toList = some entry ∧
    entry.writtenName = "D".toList ∧
    (doc.trySetAll [("E".toList, .ok (.bool true))]).set "DAttribute".toList (.bool false) =
      .ok edited ∧
    edited.fragments = (doc.trySetAll [("E".toList, .ok (.bool true))]).fragments.set
      entry.fragment (Fragment.ofAttribute "D".toList "false".toList) := by
  have hrun := Except.eq_ok_of_toOption (x := do
    let doc ← ofText .csharp ("[assembly: A(1)]\n[assembly: D(2)]\n" ++
      "[assembly: BAttribute(3)]\n[assembly: A(4)]").toList
    .ok (doc.registrations [("E".toList, .ok (.bool true))]))
    (a := [⟨"E".toList, false⟩]) (by decide +kernel)
  obtain ⟨doc, h, hregistered⟩ := Except.bind_eq_ok_iff.1 hrun
  have hnames : Declaration.names .csharp ("[assembly: A(1)]\n[assembly: D(2)]\n" ++
      "[assembly: BAttribute(3)]\n[assembly: A(4)]").toList =
        [⟨"A".toList, false⟩, ⟨"D".toList, false⟩, ⟨"B".toList, true⟩, ⟨"A".toList, false⟩] := by
    decide +kernel
  obtain ⟨-, -, -, hsettles, hkept⟩ :=
    writtenName_settled h [("E".toList, .ok (.bool true))] []
  rw [hnames, Except.ok.inj hregistered] at hsettles
  have hD := (hsettles "D".toList "D".toList).2
    ⟨[⟨"A".toList, false⟩], ⟨"D".toList, false⟩, _, rfl, rfl, by decide, by decide⟩
  obtain ⟨entry, hfind, hentry⟩ := Option.map_eq_some_iff.1 hD
  obtain ⟨-, -, hset⟩ := hkept "D".toList entry hfind
  obtain ⟨edited, hedited, hfragments, -⟩ :=
    hset "DAttribute".toList (.bool false) _ (by decide +kernel) rfl
  rw [hentry] at hfragments
  refine ⟨doc, entry, edited, h, ?_, ?_, hfind, hentry, hedited, hfragments⟩
  · exact (hsettles "A".toList "AAttribute".toList).2
      ⟨[⟨"A".toList, false⟩, ⟨"D".toList, false⟩, ⟨"B".toList, true⟩], ⟨"A".toList, false⟩, _, rfl,
        rfl, by decide, by decide⟩
  · exact (hsettles "E".toList "EAttribute".toList).2
      ⟨[⟨"A".toList, false⟩, ⟨"D".toList, false⟩, ⟨"B".toList, true⟩, ⟨"A".toList, false⟩],
        ⟨"E".toList, false⟩, [], rfl, rfl, by decide, by decide⟩

end Document

end AssemblyInfo
