import AssemblyInfo.Proofs.Outline

/-! Registries of slots. The registry of a document is what the slots among its parts give one
after another. The entry of a key points to the last slot of the key, and keys and values do not
depend on where the slots stand. -/

namespace AssemblyInfo

namespace Registry

variable {r r' : Registry} {key key' : Text} {e e' : Entry}

theorem find?_insert (r : Registry) (key other : Text) (e : Entry) :
    (r.insert key e).find? other = if other = key then some e else r.find? other := by
  split_ifs with h
  · rw [h, find?_insert_self]
  · exact find?_insert_of_ne r e (Ne.symm h)

theorem insert_insert (r : Registry) (key : Text) (e e' : Entry) :
    (r.insert key e).insert key e' = r.insert key e' := by
  induction r with
  | nil => simp [insert]
  | cons p r ih =>
    obtain ⟨k, f⟩ := p
    by_cases h : k = key
    · simp [insert, h]
    · simp [insert, h, ih]

/-- A key that is there keeps its place, so that it does not matter when it gets its entry. -/
theorem insert_comm (hne : key ≠ key') (h : r.find? key ≠ none) :
    (r.insert key e).insert key' e' = (r.insert key' e').insert key e := by
  induction r with
  | nil => exact absurd rfl h
  | cons p r ih =>
    obtain ⟨k, f⟩ := p
    by_cases hk : k = key
    · subst hk
      simp [insert, hne]
    · have hr : find? r key ≠ none := by simpa [Ne.symm hk] using h
      by_cases hk' : k = key'
      · simp [insert, hk', Ne.symm hne]
      · simp [insert, hk, hk', ih hr]

/-- Keys and values do not depend on the other parts of the entries. -/
theorem values_insert (h : r.values = r'.values) (he : e.value = e'.value) :
    (r.insert key e).values = (r'.insert key e').values := by
  induction r generalizing r' with
  | nil =>
    cases r' with
    | nil => simp [insert, values, he]
    | cons p r' => simp [values] at h
  | cons p r ih =>
    cases r' with
    | nil => simp [values] at h
    | cons p' r' =>
      obtain ⟨k, f⟩ := p
      obtain ⟨k', f'⟩ := p'
      simp only [values, List.map_cons, List.cons.injEq, Prod.mk.injEq] at h
      obtain ⟨⟨rfl, hf⟩, hr⟩ := h
      by_cases hk : k = key
      · simp [insert, values, hk, he, hr]
      · have hrest : (insert r key e).values = (insert r' key e').values := ih hr
        simp only [values] at hrest
        simp [insert, values, hk, hf, hrest]

theorem value_find? (h : r.values = r'.values) :
    (r.find? key).map Entry.value = (r'.find? key).map Entry.value := by
  rw [← find?_values, ← find?_values, h]

end Registry

/-! ### Parts -/

/-- A fragment of a document as plain text or as a slot. -/
abbrev Part := Text ⊕ Slot

namespace Part

def text : Part → Text := Sum.elim id Slot.text

def marked : Part → Marked Slot := Sum.elim Marked.plain fun s => [.inr s]

theorem text_marked (p : Part) : Marked.text Slot.text p.marked = p.text := by
  cases p with
  | inl t => exact Marked.text_plain _ t
  | inr s => simp [marked, text]

theorem text_flatMap_marked (parts : List Part) :
    Marked.text Slot.text (parts.flatMap marked) = parts.flatMap text := by
  induction parts with
  | nil => rfl
  | cons p parts ih => simp [text_marked, ih]

/-- Registers the slots among parts, which are counted from `i` on. -/
def registerAll (i : Nat) (r : Registry) : List Part → Registry
  | [] => r
  | .inl _ :: parts => registerAll (i + 1) r parts
  | .inr s :: parts =>
    registerAll (i + 1) (r.insert s.key ⟨s.writtenName, s.value, i⟩) parts

variable {r : Registry} {parts : List Part} {key : Text}

theorem registerAll_append (i : Nat) (r : Registry) (a b : List Part) :
    registerAll i r (a ++ b) = registerAll (i + a.length) (registerAll i r a) b := by
  fun_induction registerAll i r a with
  | case1 => simp
  | case2 i r t a ih => rw [List.cons_append, registerAll, ih, List.length_cons]; congr 1; omega
  | case3 i r s a ih => rw [List.cons_append, registerAll, ih, List.length_cons]; congr 1; omega

theorem find?_registerAll (i : Nat) (r : Registry) (h : key ∉ Marked.keys (parts.flatMap marked)) :
    (registerAll i r parts).find? key = r.find? key := by
  fun_induction registerAll i r parts with
  | case1 => rfl
  | case2 i r t a ih => exact ih (by simpa [marked] using h)
  | case3 i r s a ih =>
    simp only [List.flatMap_cons, marked, Sum.elim_inr, List.singleton_append, Marked.keys_inr,
      List.mem_cons, not_or] at h
    rw [ih h.2, Registry.find?_insert_of_ne _ _ (Ne.symm h.1)]

theorem insert_registerAll (i : Nat) {e : Entry} (h : key ∉ Marked.keys (parts.flatMap marked))
    (hr : r.find? key ≠ none) :
    (registerAll i r parts).insert key e = registerAll i (r.insert key e) parts := by
  fun_induction registerAll i r parts with
  | case1 => rfl
  | case2 i r t a ih => exact ih (by simpa [marked] using h) hr
  | case3 i r s a ih =>
    simp only [List.flatMap_cons, marked, Sum.elim_inr, List.singleton_append, Marked.keys_inr,
      List.mem_cons, not_or] at h
    rw [ih h.2 (by rwa [Registry.find?_insert_of_ne _ _ (Ne.symm h.1)]), registerAll,
      Registry.insert_comm h.1 hr]

/-- The entry of a key points to the last slot of the key. -/
theorem find?_registerAll_last {a b : List Part} {s : Slot}
    (hb : s.key ∉ Marked.keys (b.flatMap marked)) :
    (registerAll 0 [] (a ++ .inr s :: b)).find? s.key =
      some ⟨s.writtenName, s.value, a.length⟩ := by
  rw [registerAll_append, registerAll, find?_registerAll _ _ hb, Registry.find?_insert_self,
    Nat.zero_add]

theorem registerAll_put {a b : List Part} {s : Slot} (v : Value)
    (hb : s.key ∉ Marked.keys (b.flatMap marked)) :
    registerAll 0 [] (a ++ .inr (s.put v) :: b) =
      (registerAll 0 [] (a ++ .inr s :: b)).insert s.key ⟨s.writtenName, v, a.length⟩ := by
  rw [registerAll_append, registerAll_append, registerAll, registerAll,
    insert_registerAll _ hb (by simp), Registry.insert_insert, Nat.zero_add]
  rfl

end Part

/-- The attributes of an outline with their values, in the order of their first declarations. -/
def Outline.attributes (o : Outline) : List (Text × Value) :=
  let register (r : Registry) (s : Slot) := r.insert s.key ⟨s.writtenName, s.value, 0⟩
  ((Marked.items o.body).foldl register []).values

/-- Outlines whose slots have the same keys and values in the same order have the same
attributes. -/
theorem Outline.attributes_congr {o o' : Outline}
    (h : (Marked.items o.body).map (fun s => (s.key, s.value)) =
      (Marked.items o'.body).map fun s => (s.key, s.value)) :
    o.attributes = o'.attributes := by
  have run (w w' : List Slot) (r r' : Registry) (hr : r.values = r'.values)
      (hw : w.map (fun s => (s.key, s.value)) = w'.map fun s => (s.key, s.value)) :
      (w.foldl (fun r s => r.insert s.key ⟨s.writtenName, s.value, 0⟩) r).values =
        (w'.foldl (fun r s => r.insert s.key ⟨s.writtenName, s.value, 0⟩) r').values := by
    induction w generalizing w' r r' with
    | nil =>
      obtain rfl := List.map_eq_nil_iff.1 hw.symm
      exact hr
    | cons s w ih =>
      obtain ⟨s', w', rfl, hs, hrest⟩ := List.map_eq_cons_iff.1 hw.symm
      obtain ⟨hkey, hvalue⟩ := Prod.mk.inj hs
      rw [List.foldl_cons, List.foldl_cons, hkey]
      exact ih w' _ _ (Registry.values_insert hr hvalue.symm) hrest.symm
  exact run _ _ _ _ rfl h

/-- Keys and values depend on the slots only, not on where they stand. -/
theorem Part.values_registerAll {parts : List Part} (i : Nat) {r r' : Registry}
    (hr : r.values = r'.values) :
    (registerAll i r parts).values = ((Marked.items (parts.flatMap marked)).foldl
      (fun r s => r.insert s.key ⟨s.writtenName, s.value, 0⟩) r').values := by
  fun_induction registerAll i r parts generalizing r' with
  | case1 => exact hr
  | case2 i r t parts ih => simpa [marked] using ih hr
  | case3 i r s parts ih =>
    have hs : Marked.items ((Sum.inr s :: parts).flatMap marked) =
      s :: Marked.items (parts.flatMap marked) := rfl
    rw [hs, List.foldl_cons]
    exact ih (Registry.values_insert hr rfl)

end AssemblyInfo
