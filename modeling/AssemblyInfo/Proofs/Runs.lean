import AssemblyInfo.Document
import AssemblyInfo.Proofs.Except

/-! Runs of steps. A document is loaded segment by segment and then changed request by request,
where a request that fails leaves it as it is. What a step can do is said once, and what a whole run
keeps follows from what each step keeps. -/

namespace AssemblyInfo

/-! ### Faults -/

section FirstFault

variable {α β σ ε : Type} {fault : α → ε → Prop} {e : ε}

/-- The first item that has a fault has the fault `e`. -/
def FirstFault (fault : α → ε → Prop) (items : List α) (e : ε) : Prop :=
  ∃ before item after, items = before ++ item :: after ∧ (∀ x ∈ before, ∀ e, ¬fault x e) ∧
    fault item e

theorem not_firstFault_nil : ¬FirstFault fault [] e := by
  rintro ⟨before, item, after, h, -⟩
  simp at h

theorem firstFault_cons {item : α} {items : List α} :
    FirstFault fault (item :: items) e ↔
      fault item e ∨ (∀ e, ¬fault item e) ∧ FirstFault fault items e := by
  constructor
  · rintro ⟨before, bad, after, hitems, hbefore, hbad⟩
    cases before with
    | nil =>
      obtain ⟨rfl, -⟩ := List.cons.inj hitems
      exact .inl hbad
    | cons good before =>
      obtain ⟨rfl, rfl⟩ := List.cons.inj hitems
      obtain ⟨hgood, hbefore⟩ := List.forall_mem_cons.1 hbefore
      exact .inr ⟨hgood, before, bad, after, rfl, hbefore, hbad⟩
  · rintro (hbad | ⟨hgood, before, bad, after, rfl, hbefore, hbad⟩)
    · exact ⟨[], item, items, rfl, by simp, hbad⟩
    · exact ⟨item :: before, bad, after, rfl, List.forall_mem_cons.2 ⟨hgood, hbefore⟩, hbad⟩

theorem firstFault_filterMap {f : β → Option α} {items : List β} :
    FirstFault fault (items.filterMap f) e ↔
      FirstFault (fun x e => ∃ y, f x = some y ∧ fault y e) items e := by
  induction items with
  | nil => exact iff_of_false not_firstFault_nil not_firstFault_nil
  | cons x items ih =>
    rw [firstFault_cons, ← ih]
    cases hf : f x with
    | none => simp [hf]
    | some y => simp [hf, firstFault_cons]

/-- Steps whose faults do not depend on the state fail with the first item that has a fault. -/
theorem foldlM_eq_error_iff (step : σ → α → Except ε σ)
    (h : ∀ s x e, step s x = .error e ↔ fault x e) (items : List α) (s : σ) (e : ε) :
    items.foldlM step s = .error e ↔ FirstFault fault items e := by
  induction items generalizing s with
  | nil => exact iff_of_false nofun not_firstFault_nil
  | cons item items ih =>
    rw [List.foldlM_cons, firstFault_cons]
    cases hstep : step s item with
    | error e' =>
      have hbad := (h s item e').1 hstep
      constructor
      · rintro ⟨rfl⟩
        exact .inl hbad
      · rintro (he | ⟨hgood, -⟩)
        · rw [← hstep, (h s item e).2 he]
          rfl
        · exact absurd hbad (hgood e')
    | ok next =>
      have hgood (e : ε) : ¬fault item e := by
        rw [← h s, hstep]
        simp
      refine (ih next).trans ?_
      simp [hgood]

end FirstFault

/-- What is asked to be set: a key, and a value or the reason why there is none. -/
abbrev Request := Text × Except Error Value

namespace Document

variable {dialect : Dialect} {doc doc' : Document}

/-! ### Loading -/

theorem add_cases {segment : Segment} (h : doc.add segment = .ok doc') :
    (∃ s, segment = .gap s ∧ doc' = doc.push (.literal s)) ∨
      ∃ start d name value, segment = .declaration start d ∧ d.declared = .ok (name, value) ∧
        doc' = (doc.push (.declared ⟨start, d.text⟩)).register (Name.canonical doc.dialect name)
          value doc.fragments.length := by
  cases segment with
  | gap s => exact .inl ⟨s, rfl, (Except.ok.inj h).symm⟩
  | declaration start d =>
    obtain ⟨⟨name, value⟩, hd, hdoc⟩ := Except.map_eq_ok_iff.1 h
    exact .inr ⟨start, d, name, value, rfl, hd, hdoc.symm⟩

/-- A segment cannot be added if it is a declaration without a value. -/
theorem add_eq_error_iff {segment : Segment} {e : Error} :
    doc.add segment = .error e ↔ ∃ p, segment.declaration? = some p ∧ p.2.declared = .error e := by
  cases segment with
  | gap s => simp [add, Segment.declaration?]
  | declaration start d => cases h : d.declared <;> simp [add, Segment.declaration?, h, Except.map]

/-- What holds of the empty document and is kept with each segment that is added holds of a loaded
document and all segments of its source. -/
theorem ofText_invariant {P : List Segment → Document → Prop} {t : Text}
    (start : P [] (empty dialect))
    (step : ∀ before segment doc doc', P before doc → doc.add segment = .ok doc' →
      P (before ++ [segment]) doc')
    (h : ofText dialect t = .ok doc) : P (Segment.ofSource dialect t) doc := by
  have run (segments before : List Segment) (d : Document) (hd : P before d)
      (h : segments.foldlM add d = .ok doc) : P (before ++ segments) doc := by
    induction segments generalizing before d with
    | nil =>
      cases h
      simpa using hd
    | cons segment segments ih =>
      rw [List.foldlM_cons] at h
      obtain ⟨next, hnext, hrest⟩ := Except.bind_eq_ok_iff.1 h
      simpa using ih (before ++ [segment]) next (step before segment d next hd hnext) hrest
  exact run _ [] _ start h

theorem ofText_nil (dialect : Dialect) : ofText dialect [] = .ok (empty dialect) := by
  rw [ofText, Segment.ofSource, Segment.cut_nil]
  rfl

@[simp] theorem dialect_push (doc : Document) (f : Fragment) : (doc.push f).dialect = doc.dialect :=
  rfl

@[simp] theorem dialect_register (doc : Document) (name : Name) (value : Value) (i : Nat) :
    (doc.register name value i).dialect = doc.dialect := rfl

theorem dialect_of_ofText {t : Text} (h : ofText dialect t = .ok doc) : doc.dialect = dialect := by
  refine ofText_invariant (P := fun _ doc => doc.dialect = dialect) rfl ?_ h
  intro before segment d d' hd hadd
  obtain ⟨s, -, rfl⟩ | ⟨start, decl, name, value, -, -, rfl⟩ := add_cases hadd
  · exact hd
  · exact hd

/-! ### Requests -/

/-- Carries out a request. If it fails, the document stays as it is. -/
def trySet (doc : Document) (request : Request) : Document :=
  match request.2 >>= doc.set request.1 with
  | .ok doc => doc
  | .error _ => doc

/-- Carries out requests one after another. -/
def trySetAll (doc : Document) (requests : List Request) : Document := requests.foldl trySet doc

theorem set_cases {key : Text} {value : Value} (h : doc.set key value = .ok doc') :
    ∃ literal, value.encode = .ok literal ∧
      ((∃ entry, doc.registry.find? (Name.canonical doc.dialect key).key = some entry ∧
          doc' = doc.replace (Name.canonical doc.dialect key).key entry value literal) ∨
        doc.registry.find? (Name.canonical doc.dialect key).key = none ∧
          doc' = doc.append (Name.canonical doc.dialect key) value literal) := by
  obtain ⟨literal, hl, hdoc⟩ := Except.map_eq_ok_iff.1 h
  refine ⟨literal, hl, ?_⟩
  dsimp only at hdoc
  cases hfind : doc.registry.find? (Name.canonical doc.dialect key).key with
  | none => exact .inr ⟨rfl, by rw [← hdoc, hfind]⟩
  | some entry => exact .inl ⟨entry, rfl, by rw [← hdoc, hfind]⟩

theorem set_eq_replace {key literal : Text} {value : Value} {entry : Entry}
    (hl : value.encode = .ok literal)
    (hf : doc.registry.find? (Name.canonical doc.dialect key).key = some entry) :
    doc.set key value =
      .ok (doc.replace (Name.canonical doc.dialect key).key entry value literal) := by
  simp only [set, hl, Except.map, hf]

theorem set_eq_append {key literal : Text} {value : Value} (hl : value.encode = .ok literal)
    (hf : doc.registry.find? (Name.canonical doc.dialect key).key = none) :
    doc.set key value = .ok (doc.append (Name.canonical doc.dialect key) value literal) := by
  simp only [set, hl, Except.map, hf]

theorem set_eq_error_iff {key : Text} {value : Value} {e : Error} :
    doc.set key value = .error e ↔ value.encode = .error e := by
  cases h : value.encode with
  | error e' => simp [set, h, Except.map]
  | ok literal => simp [set, h, Except.map]

theorem trySet_of_set {key : Text} {value : Value} (h : doc.set key value = .ok doc') :
    doc.trySet (key, .ok value) = doc' := by
  have hbind : ((.ok value : Except Error Value) >>= doc.set key) = .ok doc' := h
  rw [trySet, hbind]

theorem trySet_of_set_error {key : Text} {value : Value} {e : Error}
    (h : doc.set key value = .error e) : doc.trySet (key, .ok value) = doc := by
  have hbind : ((.ok value : Except Error Value) >>= doc.set key) = .error e := h
  rw [trySet, hbind]

/-- What is kept whenever an attribute is set under a key of some class is kept by all requests for
such keys. -/
theorem trySetAll_invariant_of_keys {P : Document → Prop} {Q : Text → Prop}
    (step : ∀ doc key value doc', Q key → P doc → doc.set key value = .ok doc' → P doc')
    (h : P doc) {requests : List Request} (hkeys : ∀ r ∈ requests, Q r.1) :
    P (doc.trySetAll requests) := by
  induction requests generalizing doc with
  | nil => exact h
  | cons request requests ih =>
    refine ih ?_ fun r hr => hkeys r (List.mem_cons_of_mem request hr)
    obtain ⟨key, given⟩ := request
    cases given with
    | error e => exact h
    | ok value =>
      cases hset : doc.set key value with
      | error e => rwa [trySet_of_set_error hset]
      | ok next =>
        rw [trySet_of_set hset]
        exact step doc key value next (hkeys _ List.mem_cons_self) h hset

/-- What is kept whenever an attribute is set is kept by all requests. -/
theorem trySetAll_invariant {P : Document → Prop}
    (step : ∀ doc key value doc', P doc → doc.set key value = .ok doc' → P doc') (h : P doc)
    (requests : List Request) : P (doc.trySetAll requests) :=
  trySetAll_invariant_of_keys (Q := fun _ => True)
    (fun doc key value doc' _ hdoc hset => step doc key value doc' hdoc hset) h fun _ _ => trivial

theorem endLine_cases (doc : Document) : doc.endLine = doc ∨ doc.endLine = doc.push .newline := by
  unfold endLine
  split_ifs
  · exact .inr rfl
  · exact .inl rfl

@[simp] theorem dialect_endLine (doc : Document) : doc.endLine.dialect = doc.dialect := by
  rcases doc.endLine_cases with h | h <;> rw [h]
  rfl

@[simp] theorem registry_endLine (doc : Document) : doc.endLine.registry = doc.registry := by
  rcases doc.endLine_cases with h | h <;> rw [h]
  rfl

theorem registry_append (doc : Document) (name : Name) (value : Value) (literal : Text) :
    (doc.append name value literal).registry = doc.registry.insert name.key
      ⟨Name.written name.key (doc.endLine.suffixMode || name.suffixed), value,
        doc.endLine.fragments.length⟩ := by
  rw [← registry_endLine doc]
  rfl

theorem fragments_append {name : Name} (h : doc.registry.find? name.key = none) (value : Value)
    (literal : Text) :
    (doc.append name value literal).fragments = doc.endLine.fragments ++
      [Fragment.ofAttribute (Name.written name.key (doc.endLine.suffixMode || name.suffixed))
        literal] := by
  have hfind : doc.endLine.registry.find? name.key = none := by rwa [registry_endLine]
  simp only [append, push, register, hfind]

theorem dialect_set {key : Text} {value : Value} (h : doc.set key value = .ok doc') :
    doc'.dialect = doc.dialect := by
  obtain ⟨literal, -, ⟨entry, -, rfl⟩ | ⟨-, rfl⟩⟩ := set_cases h
  · rfl
  · exact doc.dialect_endLine

theorem dialect_trySetAll (doc : Document) (requests : List Request) :
    (doc.trySetAll requests).dialect = doc.dialect := by
  refine trySetAll_invariant (P := fun d => d.dialect = doc.dialect) ?_ rfl requests
  intro d key value d' hd hset
  rw [dialect_set hset, hd]

end Document

end AssemblyInfo
