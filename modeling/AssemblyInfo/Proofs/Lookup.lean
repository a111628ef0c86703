import AssemblyInfo.Proofs.Integrity
import AssemblyInfo.Proofs.Name
import AssemblyInfo.Proofs.Uppercase

/-! Looking up what is listed. The keys of a document are what is left of names when the suffix is
taken off once. A key that does not carry the suffix itself is taken as it is, so that its attribute
is found under it; one that does is taken for another key. -/

namespace AssemblyInfo

namespace Name

variable {dialect : Dialect} {key : Text}

/-- Names that some text stands for as a key. -/
def IsCanonical (dialect : Dialect) (key : Text) : Prop :=
  ∃ name, (canonical dialect name).key = key

theorem IsCanonical.capitalize_eq (h : IsCanonical .jscript key) : key.capitalize = key := by
  obtain ⟨name, rfl⟩ := h
  have hc := Text.capitalize_capitalize name
  show (ofText name.capitalize).key.capitalize = (ofText name.capitalize).key
  rcases ofText_cases name.capitalize with ⟨-, hne, ht⟩ | ht
  · rw [ht, capitalize_append_suffix hne] at hc
    exact List.append_cancel_right hc
  · rw [ht]
    exact hc

theorem ofText_eq_self (h : ∀ x, key = x ++ suffix → x = []) : ofText key = ⟨key, false⟩ := by
  rcases ofText_cases key with ⟨-, hne, ht⟩ | ht
  · exact absurd (h _ ht) hne
  · exact ht

/-- A key without the suffix is taken as it is. -/
theorem IsCanonical.canonical_eq (h : IsCanonical dialect key)
    (hs : ∀ x, key = x ++ suffix → x = []) : canonical dialect key = ⟨key, false⟩ := by
  cases dialect with
  | csharp => exact ofText_eq_self hs
  | jscript =>
    rw [canonical, h.capitalize_eq]
    exact ofText_eq_self hs

end Name

namespace OrderedMap

theorem find?_of_mem {m : OrderedMap} {key : Text} {value : Value} (hn : m.keys.Nodup)
    (h : (key, value) ∈ m) : m.find? key = some value := by
  induction m with
  | nil => contradiction
  | cons p m ih =>
    obtain ⟨k, v⟩ := p
    obtain ⟨hk, hm⟩ := List.nodup_cons.1 hn
    rw [find?_cons]
    rcases List.mem_cons.1 h with he | hrest
    · cases he
      simp
    · have hne : key ≠ k := by
        rintro rfl
        exact hk (List.mem_map.2 ⟨_, hrest, rfl⟩)
      rw [if_neg hne, ih hm hrest]

end OrderedMap

namespace Document

open OrderedMap (keys)

variable {dialect : Dialect} {source : Text} {doc : Document}

theorem isCanonical_of_ofText (h : ofText dialect source = .ok doc) :
    ∀ key ∈ keys doc.attributes, Name.IsCanonical dialect key := by
  intro key hkey
  rw [attributes_of_ofText h, OrderedMap.keys_ofList, List.mem_eraseDups] at hkey
  obtain ⟨p, hp, rfl⟩ := List.mem_map.1 hkey
  obtain ⟨⟨start, d⟩, -, hd⟩ := List.mem_filterMap.1 hp
  obtain ⟨⟨name, value⟩, -, rfl⟩ := Option.map_eq_some_iff.1 hd
  exact ⟨name, rfl⟩

theorem isCanonical_trySetAll (h : ofText dialect source = .ok doc) (requests : List Request) :
    ∀ key ∈ keys (doc.trySetAll requests).attributes, Name.IsCanonical dialect key := by
  refine (trySetAll_invariant (P := fun d => d.dialect = dialect ∧ (keys d.attributes).Nodup ∧
    ∀ key ∈ keys d.attributes, Name.IsCanonical dialect key) ?_
    ⟨dialect_of_ofText h, nodup_keys_of_ofText h, isCanonical_of_ofText h⟩ requests).2.2
  rintro d key value d' ⟨hd, hn, hkeys⟩ hset
  refine ⟨(dialect_set hset).trans hd, nodup_keys_set hn hset, ?_⟩
  intro k hk
  rw [attributes_set hn hset, OrderedMap.keys_insert] at hk
  split_ifs at hk with hmem
  · exact hkeys k hk
  · rcases List.mem_append.1 hk with hk | hk
    · exact hkeys k hk
    · exact ⟨key, by rw [List.mem_singleton.1 hk, hd]⟩

/-- An attribute is found under the key that it is listed with, if the key does not carry the suffix
itself, and it is set by writing its own declaration anew. -/
theorem get?_and_set_of_mem_attributes {key : Text} {value : Value}
    (h : ofText dialect source = .ok doc) (requests : List Request)
    (hmem : (key, value) ∈ (doc.trySetAll requests).attributes)
    (hs : ∀ x, key = x ++ suffix → x = []) :
    (doc.trySetAll requests).get? key = some value ∧
    ∀ value' literal, value'.encode = .ok literal → ∃ entry f edited,
      (doc.trySetAll requests).registry.find? key = some entry ∧
      (doc.trySetAll requests).fragments[entry.fragment]? = some f ∧ f.isAttribute ∧
      (doc.trySetAll requests).set key value' = .ok edited ∧
      edited.fragments = (doc.trySetAll requests).fragments.set entry.fragment
        (Fragment.ofAttribute entry.writtenName literal) ∧
      edited.attributes = (doc.trySetAll requests).attributes.map fun p =>
        if p.1 = key then (key, value') else p := by
  have hwell := (wellFormed_of_ofText h).trySetAll requests
  have hd : (doc.trySetAll requests).dialect = dialect :=
    (doc.dialect_trySetAll requests).trans (dialect_of_ofText h)
  have hkey : key ∈ keys (doc.trySetAll requests).attributes := List.mem_map_of_mem hmem
  have hcanonical := (isCanonical_trySetAll h requests key hkey).canonical_eq hs
  generalize doc.trySetAll requests = d at hwell hd hmem hkey
  have hget : d.get? key = some value := by
    rw [get?_eq_find?, hd, hcanonical]
    exact OrderedMap.find?_of_mem hwell.nodup_keys hmem
  refine ⟨hget, ?_⟩
  intro value' literal hl
  rw [get?, hd, hcanonical, Option.map_eq_some_iff] at hget
  obtain ⟨entry, hfind, -⟩ := hget
  obtain ⟨f, hf, ha⟩ := hwell.linked.points hfind
  have hset : d.set key value' = .ok (d.replace key entry value' literal) := by
    have hname : Name.canonical d.dialect key = ⟨key, false⟩ := by rw [hd, hcanonical]
    rw [set_eq_replace hl (by rwa [hname]), hname]
  refine ⟨entry, f, _, hfind, hf, ha, hset, rfl, ?_⟩
  rw [attributes_replace hwell.nodup_keys, OrderedMap.insert_of_mem hkey]

/-- The first letter of a name may become two, which stay as they are. -/
theorem get?_and_set_of_mem_attributes_expanded : ∃ doc entry edited,
    ofText .jscript "[assembly: A(1)]".toList = .ok doc ∧
    ("SSx".toList, .bool true) ∈ (doc.trySetAll [("ßx".toList, .ok (.bool true))]).attributes ∧
    (doc.trySetAll [("ßx".toList, .ok (.bool true))]).get? "SSx".toList = some (.bool true) ∧
    (doc.trySetAll [("ßx".toList, .ok (.bool true))]).registry.find? "SSx".toList = some entry ∧
    (doc.trySetAll [("ßx".toList, .ok (.bool true))]).set "SSx".toList (.bool false) = .ok edited ∧
    edited.fragments = (doc.trySetAll [("ßx".toList, .ok (.bool true))]).fragments.set
      entry.fragment (Fragment.ofAttribute entry.writtenName "false".toList) := by
  obtain ⟨doc, h⟩ := Except.exists_of_isOk (x := ofText .jscript "[assembly: A(1)]".toList)
    (by decide +kernel)
  have hmem : ("SSx".toList, .bool true) ∈
      (doc.trySetAll [("ßx".toList, .ok (.bool true))]).attributes := by
    rw [attributes_trySetAll (nodup_keys_of_ofText h), dialect_of_ofText h, attributes_of_ofText h]
    decide +kernel
  have hplain : ¬suffix <:+ "SSx".toList := by decide +kernel
  obtain ⟨hget, hset⟩ := get?_and_set_of_mem_attributes h _ hmem
    fun x hx => absurd ⟨x, hx.symm⟩ hplain
  obtain ⟨entry, -, edited, hfind, -, -, hedited, hfragments, -⟩ := hset (.bool false) _ rfl
  exact ⟨doc, entry, edited, h, hmem, hget, hfind, hedited, hfragments⟩

/-- A name that carries the suffix twice is listed under a key that carries it once. The attribute
is not found under this key, and setting it appends another declaration. -/
theorem get?_attributes_suffix_twice : ∃ doc edited,
    ofText .csharp "[assembly: FooAttributeAttribute(true)]".toList = .ok doc ∧
    ("FooAttribute".toList, .bool true) ∈ doc.attributes ∧
    doc.get? "FooAttribute".toList = none ∧
    doc.set "FooAttribute".toList (.bool false) = .ok edited ∧
    edited.render false =
      "[assembly: FooAttributeAttribute(true)]\n[assembly: FooAttribute(false)]".toList := by
  obtain ⟨edited, h⟩ := Except.exists_of_isOk (x :=
    ofText .csharp "[assembly: FooAttributeAttribute(true)]".toList >>=
      (·.set "FooAttribute".toList (.bool false))) (by decide +kernel)
  obtain ⟨doc, hdoc, hset⟩ := Except.bind_eq_ok_iff.1 h
  have hattributes : doc.attributes = [("FooAttribute".toList, .bool true)] :=
    (attributes_of_ofText hdoc).trans (by decide +kernel)
  refine ⟨doc, edited, hdoc, ?_, ?_, hset, ?_⟩
  · rw [hattributes]
    exact List.mem_singleton_self _
  · rw [get?_eq_find?, dialect_of_ofText hdoc, hattributes]
    decide +kernel
  · have hrender : (ofText .csharp "[assembly: FooAttributeAttribute(true)]".toList >>=
        (·.set "FooAttribute".toList (.bool false))).toOption.map (·.render false) =
      some "[assembly: FooAttributeAttribute(true)]\n[assembly: FooAttribute(false)]".toList := by
      decide +kernel
    rw [h] at hrender
    exact Option.some.inj hrender

end Document

end AssemblyInfo
