import AssemblyInfo.Proofs.Runs

/-! Documents as ordered maps. An ordered map keeps its keys in the order of their first insertion,
and the value that was inserted last for each. A loaded document lists what its declarations insert
one after another, requests insert into it, and an attribute is looked up by its key. Loading fails
where a declaration has no value, with the fault of the first such declaration. -/

namespace AssemblyInfo

/-- Keys with values, in the order of the keys' first insertion. -/
abbrev OrderedMap := List (Text × Value)

namespace OrderedMap

def keys (m : OrderedMap) : List Text := m.map Prod.fst

/-- The value of a key. -/
def find? (m : OrderedMap) (key : Text) : Option Value := m.lookup key

/-- A key that is there keeps its place and takes the value. Another one goes to the end. -/
def insert (m : OrderedMap) (key : Text) (value : Value) : OrderedMap :=
  if m.keys.contains key then m.map fun p => if p.1 = key then (key, value) else p
  else m ++ [(key, value)]

/-- The map of keys and values that are inserted one after another. -/
def ofList (pairs : List (Text × Value)) : OrderedMap :=
  pairs.foldl (fun m p => m.insert p.1 p.2) []

/-- Inserts what is asked for. A request without a value that has a literal changes nothing. -/
def request (dialect : Dialect) (m : OrderedMap) : Request → OrderedMap
  | (_, .error _) => m
  | (_, .ok .null) => m
  | (key, .ok value) => m.insert (Name.canonical dialect key).key value

variable {m : OrderedMap} {key : Text} {value : Value}

theorem insert_of_mem (h : key ∈ m.keys) :
    m.insert key value = m.map fun p => if p.1 = key then (key, value) else p :=
  if_pos (List.contains_iff_mem.2 h)

theorem insert_of_not_mem (h : key ∉ m.keys) : m.insert key value = m ++ [(key, value)] :=
  if_neg (mt List.contains_iff_mem.1 h)

theorem keys_insert (m : OrderedMap) (key : Text) (value : Value) :
    (m.insert key value).keys = if key ∈ m.keys then m.keys else m.keys ++ [key] := by
  split_ifs with h
  · rw [insert_of_mem h, keys, keys, List.map_map]
    apply List.map_congr_left
    intro p _
    by_cases hp : p.1 = key <;> simp [hp]
  · simp [insert_of_not_mem h, keys]

theorem nodup_keys_insert (h : m.keys.Nodup) : (m.insert key value).keys.Nodup := by
  rw [keys_insert]
  split_ifs with hk
  · exact h
  · exact List.nodup_append_comm.1 (List.nodup_cons.2 ⟨hk, h⟩)

theorem find?_cons (k : Text) (v : Value) (m : OrderedMap) (key : Text) :
    find? ((k, v) :: m) key = if key = k then some v else m.find? key :=
  lookup_cons_eq_if k key v m

theorem find?_eq_none_iff : m.find? key = none ↔ key ∉ m.keys := by
  induction m with
  | nil => simp [find?, keys]
  | cons p m ih =>
    obtain ⟨k, v⟩ := p
    by_cases h : key = k
    · simp [find?_cons, keys, h]
    · have ih : find? m key = none ↔ key ∉ m.map Prod.fst := ih
      simp [find?_cons, keys, h, ih]

theorem find?_map_put (m : OrderedMap) (key other : Text) (value : Value) :
    find? (m.map fun p => if p.1 = key then (key, value) else p) other =
      (m.find? other).map fun v => if other = key then value else v := by
  induction m with
  | nil => rfl
  | cons p m ih =>
    obtain ⟨k, v⟩ := p
    rw [List.map_cons, find?_cons]
    by_cases hk : k = key
    · rw [if_pos hk, find?_cons, ih, hk]
      split_ifs <;> simp
    · rw [if_neg hk, find?_cons, ih]
      by_cases ho : other = k
      · simp [ho, hk]
      · simp [ho]

/-- Only the value of the key that is inserted changes. -/
theorem find?_insert (m : OrderedMap) (key other : Text) (value : Value) :
    (m.insert key value).find? other = if other = key then some value else m.find? other := by
  by_cases hk : key ∈ m.keys
  · rw [insert_of_mem hk, find?_map_put]
    split_ifs with ho
    · obtain ⟨v, hv⟩ := Option.ne_none_iff_exists'.1 (mt find?_eq_none_iff.1 (not_not.2 hk))
      rw [ho, hv, Option.map_some]
    · exact Option.map_id'
  · rw [insert_of_not_mem hk, find?, List.lookup_append]
    split_ifs with ho
    · rw [ho, show m.lookup key = none from find?_eq_none_iff.2 hk, Option.none_or]
      exact List.lookup_cons_self
    · rw [show List.lookup other [(key, value)] = none by simp [ho], Option.or_none]
      rfl

theorem insert_cons_self {v : Value} (h : key ∉ m.keys) :
    insert ((key, v) :: m) key value = (key, value) :: m := by
  have hm : m.map (fun p => if p.1 = key then (key, value) else p) = m.map id := by
    apply List.map_congr_left
    intro p hp
    have hne : p.1 ≠ key := by
      rintro rfl
      exact h (List.mem_map_of_mem hp)
    simp [hne]
  have hmem : key ∈ keys ((key, v) :: m) := List.mem_cons_self
  simp [insert_of_mem hmem, hm]

theorem insert_cons_of_ne {k : Text} {v : Value} (h : k ≠ key) :
    insert ((k, v) :: m) key value = (k, v) :: m.insert key value := by
  have hmem : key ∈ keys ((k, v) :: m) ↔ key ∈ m.keys := by simp [keys, Ne.symm h]
  by_cases hk : key ∈ m.keys
  · simp [insert_of_mem (hmem.2 hk), insert_of_mem hk, h]
  · simp [insert_of_not_mem (mt hmem.1 hk), insert_of_not_mem hk]

theorem ofList_concat (pairs : List (Text × Value)) (p : Text × Value) :
    ofList (pairs ++ [p]) = (ofList pairs).insert p.1 p.2 := by
  simp [ofList]

/-- Each key stands once, where it came first. -/
theorem keys_ofList (pairs : List (Text × Value)) :
    (ofList pairs).keys = (pairs.map Prod.fst).eraseDups := by
  induction pairs using List.reverseRecOn with
  | nil => rfl
  | append_singleton pairs p ih =>
    rw [ofList_concat, keys_insert, ih, List.map_append, List.eraseDups_append, List.map_singleton,
      List.cons_removeAll]
    by_cases h : p.1 ∈ pairs.map Prod.fst
    · rw [if_pos (List.mem_eraseDups.2 h)]
      simp [h]
    · rw [if_neg (mt List.mem_eraseDups.1 h)]
      simp [h, List.eraseDups_cons]

/-- Each key has the value that came last. -/
theorem find?_ofList (pairs : List (Text × Value)) (key : Text) :
    (ofList pairs).find? key = pairs.reverse.lookup key := by
  induction pairs using List.reverseRecOn with
  | nil => rfl
  | append_singleton pairs p ih =>
    rw [ofList_concat, find?_insert, ih, List.reverse_concat]
    exact (find?_cons _ _ _ _).symm

theorem nodup_keys_ofList (pairs : List (Text × Value)) : (ofList pairs).keys.Nodup := by
  induction pairs using List.reverseRecOn with
  | nil => exact List.nodup_nil
  | append_singleton pairs p ih =>
    rw [ofList_concat]
    exact nodup_keys_insert ih

end OrderedMap

/-! ### Registries -/

namespace Registry

variable {r : Registry}

theorem values_insert_of_nodup (h : (OrderedMap.keys r.values).Nodup) (key : Text) (e : Entry) :
    (r.insert key e).values = OrderedMap.insert r.values key e.value := by
  induction r with
  | nil => rfl
  | cons p r ih =>
    obtain ⟨k, f⟩ := p
    have hcons (f : Entry) (r : Registry) : values ((k, f) :: r) = (k, f.value) :: values r := rfl
    rw [hcons] at h ⊢
    obtain ⟨hk, hr⟩ := List.nodup_cons.1 h
    rw [insert]
    by_cases hkey : k = key
    · subst hkey
      rw [if_pos rfl, hcons, OrderedMap.insert_cons_self hk]
    · rw [if_neg hkey, hcons, OrderedMap.insert_cons_of_ne hkey, ih hr]

end Registry

/-! ### Loading -/

namespace Declaration

/-- The key and the value that a declaration gives, if it has a value. -/
def pair? (dialect : Dialect) (d : Declaration) : Option (Text × Value) :=
  d.declared.toOption.map fun (name, value) => ((Name.canonical dialect name).key, value)

/-- The keys and values that the declarations of a text give, in order. -/
def pairs (dialect : Dialect) (t : Text) : List (Text × Value) :=
  (scan dialect t).filterMap fun p => p.2.pair? dialect

end Declaration

namespace Document

open OrderedMap (keys)

variable {dialect : Dialect} {doc doc' : Document} {t : Text}

/-- A text cannot be loaded if one of its declarations has no value, and the first such declaration
says why. -/
theorem ofText_eq_error_iff {e : Error} : ofText dialect t = .error e ↔
    FirstFault (fun p e => p.2.declared = .error e) (Declaration.scan dialect t) e := by
  rw [Declaration.scan, firstFault_filterMap]
  exact foldlM_eq_error_iff add (fun _ _ _ => add_eq_error_iff) _ _ _

theorem attributes_register (h : (keys doc.attributes).Nodup) (name : Name) (value : Value)
    (i : Nat) :
    (doc.register name value i).attributes = OrderedMap.insert doc.attributes name.key value :=
  Registry.values_insert_of_nodup h _ _

/-- A loaded document lists what its declarations insert one after another. -/
theorem attributes_of_ofText (h : ofText dialect t = .ok doc) :
    doc.attributes = OrderedMap.ofList (Declaration.pairs dialect t) := by
  let given (segments : List Segment) : List (Text × Value) :=
    (segments.filterMap Segment.declaration?).filterMap fun p => p.2.pair? dialect
  suffices hP : doc.dialect = dialect ∧
      doc.attributes = OrderedMap.ofList (given (Segment.ofSource dialect t)) from hP.2
  refine ofText_invariant
    (P := fun segments doc => doc.dialect = dialect ∧
      doc.attributes = OrderedMap.ofList (given segments))
    ⟨rfl, rfl⟩ ?_ h
  rintro before segment d d' ⟨hd, hattributes⟩ hadd
  obtain ⟨s, rfl, rfl⟩ | ⟨start, decl, name, value, rfl, hdecl, rfl⟩ := add_cases hadd
  · refine ⟨hd, ?_⟩
    have hgiven : given (before ++ [.gap s]) = given before := by
      simp [given, Segment.declaration?]
    rw [hgiven]
    exact hattributes
  · refine ⟨hd, ?_⟩
    have hgiven : given (before ++ [.declaration start decl]) =
        given before ++ [((Name.canonical dialect name).key, value)] := by
      simp [given, Segment.declaration?, Declaration.pair?, hdecl, Except.toOption]
    have hnodup : (keys (d.push (.declared ⟨start, decl.text⟩)).attributes).Nodup := by
      rw [show (d.push (.declared ⟨start, decl.text⟩)).attributes = d.attributes from rfl,
        hattributes]
      exact OrderedMap.nodup_keys_ofList _
    rw [attributes_register hnodup, hgiven, OrderedMap.ofList_concat, ← hattributes, hd]
    rfl

/-! ### Requests -/

theorem get?_eq_find? (doc : Document) (key : Text) :
    doc.get? key = OrderedMap.find? doc.attributes (Name.canonical doc.dialect key).key :=
  (Registry.find?_values _ _).symm

theorem attributes_replace (h : (keys doc.attributes).Nodup) (key : Text) (entry : Entry)
    (value : Value) (literal : Text) :
    (doc.replace key entry value literal).attributes =
      OrderedMap.insert doc.attributes key value :=
  Registry.values_insert_of_nodup h _ _

theorem attributes_append (h : (keys doc.attributes).Nodup) (name : Name) (value : Value)
    (literal : Text) :
    (doc.append name value literal).attributes =
      OrderedMap.insert doc.attributes name.key value := by
  rw [attributes, registry_append]
  exact Registry.values_insert_of_nodup h _ _

/-- Setting an attribute inserts its value. -/
theorem attributes_set {key : Text} {value : Value} (hn : (keys doc.attributes).Nodup)
    (h : doc.set key value = .ok doc') :
    doc'.attributes =
      OrderedMap.insert doc.attributes (Name.canonical doc.dialect key).key value := by
  obtain ⟨literal, -, ⟨entry, -, rfl⟩ | ⟨-, rfl⟩⟩ := set_cases h
  · exact attributes_replace hn _ _ _ _
  · exact attributes_append hn _ _ _

theorem exists_set {value : Value} (doc : Document) (key : Text) (h : value ≠ .null) :
    ∃ doc', doc.set key value = .ok doc' := by
  cases value with
  | null => contradiction
  | bool b => cases b <;> exact ⟨_, rfl⟩
  | number n => exact ⟨_, rfl⟩
  | string t => exact ⟨_, rfl⟩

theorem attributes_trySet (hn : (keys doc.attributes).Nodup) (request : Request) :
    (doc.trySet request).attributes = OrderedMap.request doc.dialect doc.attributes request := by
  obtain ⟨key, given⟩ := request
  cases given with
  | error e => rfl
  | ok value =>
    by_cases hv : value = .null
    · subst hv
      rfl
    · obtain ⟨next, hnext⟩ := doc.exists_set key hv
      rw [trySet_of_set hnext, attributes_set hn hnext]
      cases value with
      | null => contradiction
      | bool b => rfl
      | number n => rfl
      | string t => rfl

theorem nodup_keys_set {key : Text} {value : Value} (hn : (keys doc.attributes).Nodup)
    (h : doc.set key value = .ok doc') : (keys doc'.attributes).Nodup := by
  rw [attributes_set hn h]
  exact OrderedMap.nodup_keys_insert hn

theorem attributes_trySetAll (hn : (keys doc.attributes).Nodup) (requests : List Request) :
    (doc.trySetAll requests).attributes =
      requests.foldl (OrderedMap.request doc.dialect) doc.attributes := by
  induction requests generalizing doc with
  | nil => rfl
  | cons request requests ih =>
    have hn' : (keys (doc.trySet request).attributes).Nodup :=
      trySetAll_invariant (fun _ _ _ _ => nodup_keys_set) hn [request]
    have hd : (doc.trySet request).dialect = doc.dialect := doc.dialect_trySetAll [request]
    rw [List.foldl_cons, ← attributes_trySet hn, ← hd]
    exact ih hn'

theorem nodup_keys_of_ofText (h : ofText dialect t = .ok doc) : (keys doc.attributes).Nodup := by
  rw [attributes_of_ofText h]
  exact OrderedMap.nodup_keys_ofList _

/-- A document is an ordered map: loading inserts what the declarations give, unless one of them has
no value, and each request inserts what it asks for. -/
theorem refines_orderedMap (dialect : Dialect) (t : Text) :
    (∀ e, ofText dialect t = .error e ↔
      FirstFault (fun p e => p.2.declared = .error e) (Declaration.scan dialect t) e) ∧
    ∀ doc, ofText dialect t = .ok doc →
      keys doc.attributes = ((Declaration.pairs dialect t).map Prod.fst).eraseDups ∧
      (∀ key, OrderedMap.find? doc.attributes key =
        (Declaration.pairs dialect t).reverse.lookup key) ∧
      ∀ requests,
        (doc.trySetAll requests).attributes =
          requests.foldl (OrderedMap.request dialect) doc.attributes ∧
        (∀ key, (doc.trySetAll requests).get? key = OrderedMap.find?
          (doc.trySetAll requests).attributes (Name.canonical dialect key).key) ∧
        ∀ key value edited, (doc.trySetAll requests).set key value = .ok edited →
          ∀ other, edited.get? other =
            if (Name.canonical dialect other).key = (Name.canonical dialect key).key then some value
            else (doc.trySetAll requests).get? other := by
  refine ⟨fun _ => ofText_eq_error_iff, ?_⟩
  intro doc h
  have hn := nodup_keys_of_ofText h
  have hd := dialect_of_ofText h
  refine ⟨?_, ?_, ?_⟩
  · rw [attributes_of_ofText h, OrderedMap.keys_ofList]
  · intro key
    rw [attributes_of_ofText h, OrderedMap.find?_ofList]
  · intro requests
    have hn' : (keys (doc.trySetAll requests).attributes).Nodup :=
      trySetAll_invariant (fun _ _ _ _ => nodup_keys_set) hn requests
    have hd' : (doc.trySetAll requests).dialect = dialect :=
      (doc.dialect_trySetAll requests).trans hd
    refine ⟨?_, ?_, ?_⟩
    · rw [attributes_trySetAll hn, hd]
    · intro key
      rw [get?_eq_find?, hd']
    · intro key value edited hset other
      rw [get?_eq_find?, get?_eq_find?, dialect_set hset, attributes_set hn' hset, hd',
        OrderedMap.find?_insert]

/-- The key `A` is declared first and last, so it keeps its place and has the last value. Of the
requests the second and the third fail. -/
theorem refines_orderedMap_duplicate : ∃ doc,
    ofText .csharp
      "[assembly: A(1)]\n[assembly: B(true)]\n[assembly: AAttribute(\"a\")]".toList = .ok doc ∧
    keys doc.attributes = ["A".toList, "B".toList] ∧
    OrderedMap.find? doc.attributes "A".toList = some (.string "a".toList) ∧
    (doc.trySetAll [("C".toList, .ok (.bool true)), ("A".toList, .ok .null),
        ("B".toList, .error .notFinite), ("BAttribute".toList, .ok (.bool false))]).attributes =
      [("A".toList, .string "a".toList), ("B".toList, .bool false), ("C".toList, .bool true)] := by
  obtain ⟨doc, h⟩ := Except.exists_of_isOk (x := ofText .csharp
    "[assembly: A(1)]\n[assembly: B(true)]\n[assembly: AAttribute(\"a\")]".toList)
    (by decide +kernel)
  obtain ⟨hkeys, hfind, hrequests⟩ := (refines_orderedMap _ _).2 doc h
  have hattributes : doc.attributes =
      [("A".toList, .string "a".toList), ("B".toList, .bool true)] :=
    (attributes_of_ofText h).trans (by decide +kernel)
  refine ⟨doc, h, hkeys.trans (by decide +kernel), (hfind _).trans (by decide +kernel), ?_⟩
  rw [(hrequests _).1, hattributes]
  decide +kernel

end Document

end AssemblyInfo
