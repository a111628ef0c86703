import AssemblyInfo.Proofs.OrderedMap
import AssemblyInfo.Proofs.Refinement
import AssemblyInfo.Proofs.Slices

/-! The integrity of documents. The slices among the fragments are pieces of the source in its
order, each entry of the registry points to the declaration of its attribute, and each declaration
that is not plain text belongs to one entry. A loaded document is made like that, and setting an
attribute keeps it so. -/

namespace AssemblyInfo

namespace Fragment

/-- Whether a fragment is the declaration of an attribute. -/
def isAttribute : Fragment → Bool
  | .declared _ => true
  | .written _ => true
  | _ => false

/-- The slice that a fragment passes on. -/
def slice? : Fragment → Option Slice
  | .literal s => some s
  | .declared s => some s
  | _ => none

theorem slice?_demote (f : Fragment) : f.demote.slice? = f.slice? := by
  cases f <;> rfl

theorem eq_declared_of_isAttribute {f : Fragment} {s : Slice} (hs : f.slice? = some s)
    (h : f.isAttribute) : f = .declared s := by
  cases f with
  | declared s' => rw [Option.some.inj hs]
  | literal s' => contradiction
  | newline => contradiction
  | written t => contradiction

/-- No declaration is added where one is demoted. -/
theorem mem_of_mem_modify_demote {fragments : List Fragment} {f : Fragment} {i : Nat}
    (hf : f ∈ fragments.modify i demote) (h : f.isAttribute) : f ∈ fragments := by
  obtain ⟨n, hn⟩ := List.mem_iff_getElem?.1 hf
  rw [List.getElem?_modify, Option.map_eq_map, Option.map_eq_some_iff] at hn
  obtain ⟨g, hg, rfl⟩ := hn
  split_ifs at h ⊢ with hi
  · cases g with
    | declared s => contradiction
    | literal s => exact List.mem_of_getElem? hg
    | newline => exact List.mem_of_getElem? hg
    | written t => exact List.mem_of_getElem? hg
  · exact List.mem_of_getElem? hg

end Fragment

/-- Whether a text starts and ends with brackets. -/
def Text.Bracketed (t : Text) : Prop := t.head? = some '[' ∧ t.getLast? = some ']'

theorem Declaration.bracketed_text (d : Declaration) : d.text.Bracketed := by
  obtain ⟨u, hu⟩ := d.text_eq_cons
  obtain ⟨v, hv⟩ := d.text_eq_concat
  exact ⟨by rw [hu, List.head?_cons], by rw [hv, List.getLast?_concat]⟩

theorem Fragment.bracketed_ofAttribute (name literal : Text) :
    (Fragment.ofAttribute name literal).text.Bracketed := by
  refine ⟨rfl, ?_⟩
  have htext : (Fragment.ofAttribute name literal).text =
      "[assembly: ".toList ++ name ++ '(' :: literal ++ [')'] ++ [']'] := by
    simp [Fragment.ofAttribute, Fragment.text]
  rw [htext, List.getLast?_concat]

/-! ### Places -/

/-- There is the declaration of an attribute at a place. -/
def AttributeAt (fragments : List Fragment) (i : Nat) : Prop :=
  ∃ f, fragments[i]? = some f ∧ f.isAttribute

namespace AttributeAt

variable {fragments : List Fragment} {f : Fragment} {i j : Nat}

theorem lt_length (h : AttributeAt fragments i) : i < fragments.length := by
  obtain ⟨f, hf, -⟩ := h
  exact (List.getElem?_eq_some_iff.1 hf).1

theorem concat_iff : AttributeAt (fragments ++ [f]) i ↔
    AttributeAt fragments i ∨ i = fragments.length ∧ f.isAttribute := by
  unfold AttributeAt
  rcases Nat.lt_trichotomy i fragments.length with h | rfl | h
  · simp [List.getElem?_append_left h, Nat.ne_of_lt h]
  · simp
  · have hlen : (fragments ++ [f]).length ≤ i := by simpa using h
    simp [List.getElem?_eq_none hlen, List.getElem?_eq_none (Nat.le_of_lt h), Nat.ne_of_gt h]

theorem set_iff (hf : f.isAttribute) (hj : AttributeAt fragments j) :
    AttributeAt (fragments.set j f) i ↔ AttributeAt fragments i := by
  by_cases h : j = i
  · subst h
    exact ⟨fun _ => hj, fun _ => ⟨f, by rw [List.getElem?_set_self hj.lt_length], hf⟩⟩
  · unfold AttributeAt
    rw [List.getElem?_set_ne h]

theorem demote_iff {s : Slice} (hj : fragments[j]? = some (.declared s)) :
    AttributeAt (fragments.modify j Fragment.demote) i ↔ AttributeAt fragments i ∧ i ≠ j := by
  unfold AttributeAt
  rw [List.getElem?_modify]
  by_cases h : j = i
  · subst h
    simp [hj, Fragment.demote, Fragment.isAttribute]
  · simp [h, Ne.symm h]

end AttributeAt

/-! ### Entries -/

/-- The entries point to the places in `A`, each place belonging to one entry. -/
structure Linked (A : Nat → Prop) (r : Registry) : Prop where
  points : ∀ {key e}, r.find? key = some e → A e.fragment
  distinct : ∀ {key key' e e'}, r.find? key = some e → r.find? key' = some e' →
    e.fragment = e'.fragment → key = key'
  covers : ∀ {i}, A i → ∃ key e, r.find? key = some e ∧ e.fragment = i

/-- An entry that is inserted gives up the place of the previous one of its key, and takes a place
that no other entry has. -/
theorem Linked.insert {A A' : Nat → Prop} {r : Registry} {key : Text} {e : Entry} (h : Linked A r)
    (hA : ∀ i, A' i ↔ i = e.fragment ∨ A i ∧ ∀ p, r.find? key = some p → i ≠ p.fragment)
    (hfree : ∀ i, A i → (∀ p, r.find? key = some p → i ≠ p.fragment) → i ≠ e.fragment) :
    Linked A' (r.insert key e) := by
  -- the entry of another key keeps its place, which is not the one given up
  have hkept {k : Text} {e' : Entry} (hk : k ≠ key) (he : r.find? k = some e') :
      A e'.fragment ∧ ∀ p, r.find? key = some p → e'.fragment ≠ p.fragment :=
    ⟨h.points he, fun p hp heq => hk (h.distinct he hp heq)⟩
  refine ⟨?_, ?_, ?_⟩
  · intro k e' he
    rw [Registry.find?_insert] at he
    split_ifs at he with hk
    · cases he
      exact (hA _).2 (.inl rfl)
    · exact (hA _).2 (.inr (hkept hk he))
  · intro k k' e₁ e₂ h₁ h₂ heq
    rw [Registry.find?_insert] at h₁ h₂
    split_ifs at h₁ h₂ with hk hk' hk'
    · rw [hk, hk']
    · cases h₁
      obtain ⟨ha, hp⟩ := hkept hk' h₂
      exact absurd heq.symm (hfree _ ha hp)
    · cases h₂
      obtain ⟨ha, hp⟩ := hkept hk h₁
      exact absurd heq (hfree _ ha hp)
    · exact h.distinct h₁ h₂ heq
  · intro i hi
    rcases (hA i).1 hi with rfl | ⟨ha, hp⟩
    · exact ⟨key, e, Registry.find?_insert_self r key e, rfl⟩
    · obtain ⟨k, e', he, rfl⟩ := h.covers ha
      have hk : k ≠ key := by
        rintro rfl
        exact hp e' he rfl
      exact ⟨k, e', by rw [Registry.find?_insert, if_neg hk, he], rfl⟩

theorem Linked.congr {A A' : Nat → Prop} {r : Registry} (h : Linked A r) (hA : ∀ i, A' i ↔ A i) :
    Linked A' r :=
  ⟨fun he => (hA _).2 (h.points he), h.distinct, fun hi => h.covers ((hA _).1 hi)⟩

namespace Document

variable {dialect : Dialect} {source : Text} {doc doc' : Document}

/-! ### Loading -/

/-- The fragments are the segments added so far, and the entries point to declarations. -/
structure Loaded (segments : List Segment) (doc : Document) : Prop where
  slices : doc.fragments.map Fragment.slice? = segments.map fun x => some x.slice
  linked : Linked (AttributeAt doc.fragments) doc.registry
  bracketed : ∀ f ∈ doc.fragments, f.isAttribute → f.text.Bracketed

theorem loaded_empty (dialect : Dialect) : Loaded [] (empty dialect) where
  slices := rfl
  linked := ⟨nofun, nofun, fun ⟨_, hf, _⟩ => by simp [empty] at hf⟩
  bracketed := by simp [empty]

/-- While a source is loaded, an entry points to a declaration as it stands in the source. -/
theorem Loaded.declared {segments : List Segment} {key : Text} {e : Entry} (h : Loaded segments doc)
    (he : doc.registry.find? key = some e) :
    ∃ s, doc.fragments[e.fragment]? = some (.declared s) := by
  obtain ⟨f, hf, ha⟩ := h.linked.points he
  have hslice : (doc.fragments.map Fragment.slice?)[e.fragment]? = some f.slice? := by
    rw [List.getElem?_map, hf, Option.map_some]
  rw [h.slices, List.getElem?_map, Option.map_eq_some_iff] at hslice
  obtain ⟨x, -, hx⟩ := hslice
  exact ⟨x.slice, by rw [hf, Fragment.eq_declared_of_isAttribute hx.symm ha]⟩

theorem Loaded.push_literal {before : List Segment} (h : Loaded before doc) (s : Slice) :
    Loaded (before ++ [.gap s]) (doc.push (.literal s)) where
  slices := by
    rw [push, List.map_append, List.map_append, h.slices]
    rfl
  linked := h.linked.congr fun i => by
    rw [push, AttributeAt.concat_iff]
    simp [Fragment.isAttribute]
  bracketed := by
    intro f hf ha
    rcases List.mem_append.1 hf with hf | hf
    · exact h.bracketed f hf ha
    · rw [List.mem_singleton.1 hf] at ha
      contradiction

/-- A declaration takes a place at the end. The previous one of its key is then plain text. -/
theorem Loaded.attributeAt_register {before : List Segment} (h : Loaded before doc) (s : Slice)
    (name : Name) (value : Value) (i : Nat) :
    AttributeAt ((doc.push (.declared s)).register name value doc.fragments.length).fragments i ↔
      i = doc.fragments.length ∨
        AttributeAt doc.fragments i ∧
          ∀ p, doc.registry.find? name.key = some p → i ≠ p.fragment := by
  have hconcat : AttributeAt (doc.fragments ++ [.declared s]) i ↔
      AttributeAt doc.fragments i ∨ i = doc.fragments.length := by
    rw [AttributeAt.concat_iff]
    simp [Fragment.isAttribute]
  unfold register push
  cases hfind : doc.registry.find? name.key with
  | none =>
    dsimp only
    rw [hconcat]
    simp [or_comm]
  | some previous =>
    obtain ⟨s', hs'⟩ := h.declared hfind
    have hlt : previous.fragment < doc.fragments.length := (List.getElem?_eq_some_iff.1 hs').1
    have hprevious : (doc.fragments ++ [.declared s])[previous.fragment]? =
        some (.declared s') := by rw [List.getElem?_append_left hlt, hs']
    dsimp only
    rw [AttributeAt.demote_iff hprevious, hconcat]
    constructor
    · rintro ⟨ha | ha, hne⟩
      · exact .inr ⟨ha, by rintro p ⟨⟩; exact hne⟩
      · exact .inl ha
    · rintro (rfl | ⟨ha, hne⟩)
      · exact ⟨.inr rfl, by omega⟩
      · exact ⟨.inl ha, hne previous rfl⟩

theorem Loaded.push_declared {before : List Segment} (h : Loaded before doc) (start : Nat)
    (d : Declaration) (name : Name) (value : Value) :
    Loaded (before ++ [.declaration start d])
      ((doc.push (.declared ⟨start, d.text⟩)).register name value doc.fragments.length) where
  slices := by
    have hpush : (doc.push (.declared ⟨start, d.text⟩)).fragments.map Fragment.slice? =
        (before ++ [Segment.declaration start d]).map fun x => some x.slice := by
      rw [push, List.map_append, List.map_append, h.slices]
      rfl
    rw [← hpush, register]
    cases (doc.push (.declared ⟨start, d.text⟩)).registry.find? name.key with
    | none => rfl
    | some previous => exact map_modify_demote Fragment.slice?_demote _ _
  linked := by
    refine h.linked.insert (h.attributeAt_register _ name value) ?_
    intro i hi _
    exact Nat.ne_of_lt hi.lt_length
  bracketed := by
    intro f hf ha
    have hf : f ∈ doc.fragments ++ [.declared ⟨start, d.text⟩] := by
      rw [register] at hf
      cases hfind : (doc.push (.declared ⟨start, d.text⟩)).registry.find? name.key with
      | none =>
        rw [hfind] at hf
        exact hf
      | some previous =>
        rw [hfind] at hf
        exact Fragment.mem_of_mem_modify_demote hf ha
    rcases List.mem_append.1 hf with hf | hf
    · exact h.bracketed f hf ha
    · rw [List.mem_singleton.1 hf]
      exact d.bracketed_text

theorem Loaded.add {before : List Segment} {segment : Segment} (h : Loaded before doc)
    (hadd : doc.add segment = .ok doc') : Loaded (before ++ [segment]) doc' := by
  obtain ⟨s, rfl, rfl⟩ | ⟨start, d, name, value, rfl, -, rfl⟩ := add_cases hadd
  · exact h.push_literal s
  · exact h.push_declared start d _ value

theorem loaded_of_ofText (h : ofText dialect source = .ok doc) :
    Loaded (Segment.ofSource dialect source) doc :=
  ofText_invariant (loaded_empty dialect) (fun _ _ _ _ => Loaded.add) h

/-! ### Well-formed documents -/

/-- The slices among the fragments, in order. -/
def slices (doc : Document) : List Slice := doc.fragments.filterMap Fragment.slice?

/-- A document whose fragments and entries fit together and fit its source. -/
structure WellFormed (source : Text) (doc : Document) : Prop where
  /-- A slice is a piece of the source, from one character boundary to another. -/
  isIn : ∀ s ∈ doc.slices, s.IsIn source
  start_lt_stop : ∀ s ∈ doc.slices, s.start < s.stop
  ordered : doc.slices.Pairwise fun a b => a.stop ≤ b.start
  nodup_keys : (OrderedMap.keys doc.attributes).Nodup
  /-- Entries point to the declarations of attributes, each of which belongs to one of them. -/
  linked : Linked (AttributeAt doc.fragments) doc.registry
  bracketed : ∀ f ∈ doc.fragments, f.isAttribute → f.text.Bracketed
  /-- A line feed stands right before a declaration that was appended. -/
  newline : ∀ i, doc.fragments[i]? = some .newline → ∃ t, doc.fragments[i + 1]? = some (.written t)

theorem Loaded.slices_eq {segments : List Segment} (h : Loaded segments doc) :
    doc.slices = segments.map Segment.slice := by
  have hslices : (doc.fragments.map Fragment.slice?).filterMap id =
      segments.map Segment.slice := by
    rw [h.slices, List.filterMap_map]
    exact List.filterMap_eq_map_iff_forall_eq_some.2 fun _ _ => rfl
  rwa [List.filterMap_map] at hslices

/-- A loaded document is well-formed. -/
theorem wellFormed_of_ofText (h : ofText dialect source = .ok doc) : WellFormed source doc := by
  have hloaded := loaded_of_ofText h
  have hplaced : Segment.Placed 0 (Segment.ofSource dialect source) :=
    Segment.placed_cut dialect 0 source
  have hslices := hloaded.slices_eq
  have hsource : (Segment.ofSource dialect source).flatMap Segment.text = source :=
    Segment.flatMap_text_cut dialect 0 source
  refine ⟨?_, ?_, ?_, nodup_keys_of_ofText h, hloaded.linked, hloaded.bracketed, ?_⟩
  · rw [hslices]
    have hisIn := Segment.Placed.isIn [] hplaced
    rwa [List.nil_append, hsource] at hisIn
  · rw [hslices]
    exact fun s hs => (hplaced.lt_stop s hs).2
  · rw [hslices]
    exact hplaced.pairwise
  · intro i hi
    have hnone : (doc.fragments.map Fragment.slice?)[i]? = some none := by
      rw [List.getElem?_map, hi]
      rfl
    rw [hloaded.slices, List.getElem?_map] at hnone
    simp at hnone

/-! ### Setting -/

theorem filterMap_set_sublist {α β : Type} {g : α → Option β} {x : α} (hx : g x = none)
    (l : List α) (i : Nat) : ((l.set i x).filterMap g).Sublist (l.filterMap g) := by
  induction l generalizing i with
  | nil => exact List.Sublist.refl _
  | cons y l ih =>
    cases i with
    | zero =>
      rw [List.set_cons_zero, List.filterMap_cons_none hx]
      exact (List.sublist_cons_self y l).filterMap g
    | succ i =>
      rw [List.set_cons_succ]
      cases hy : g y with
      | none =>
        rw [List.filterMap_cons_none hy, List.filterMap_cons_none hy]
        exact ih i
      | some b =>
        rw [List.filterMap_cons_some hy, List.filterMap_cons_some hy]
        exact (ih i).cons_cons b

theorem WellFormed.replace {key : Text} {entry : Entry} (h : WellFormed source doc)
    (hfind : doc.registry.find? key = some entry) (value : Value) (literal : Text) :
    WellFormed source (doc.replace key entry value literal) := by
  have hplace := h.linked.points hfind
  have hsub : (doc.replace key entry value literal).slices.Sublist doc.slices :=
    filterMap_set_sublist rfl doc.fragments entry.fragment
  refine ⟨fun s hs => h.isIn s (hsub.subset hs), fun s hs => h.start_lt_stop s (hsub.subset hs),
    h.ordered.sublist hsub, ?_, ?_, ?_, ?_⟩
  · rw [attributes_replace h.nodup_keys]
    exact OrderedMap.nodup_keys_insert h.nodup_keys
  · -- the entry keeps its place
    refine h.linked.insert ?_ fun i _ hi => hi entry hfind
    intro i
    rw [Document.replace, AttributeAt.set_iff rfl hplace, hfind]
    constructor
    · intro hi
      by_cases he : i = entry.fragment
      · exact .inl he
      · exact .inr ⟨hi, by rintro p ⟨⟩; exact he⟩
    · rintro (rfl | ⟨hi, -⟩)
      · exact hplace
      · exact hi
  · intro f hf ha
    rcases List.mem_or_eq_of_mem_set hf with hf | rfl
    · exact h.bracketed f hf ha
    · exact Fragment.bracketed_ofAttribute _ _
  · intro i hi
    rw [Document.replace, List.getElem?_set] at hi
    split_ifs at hi with he hlt
    · cases hi
    · obtain ⟨t, ht⟩ := h.newline i hi
      rw [Document.replace, List.getElem?_set]
      split_ifs with he'
      · exact ⟨_, rfl⟩
      · exact absurd hplace.lt_length ‹_›
      · exact ⟨t, ht⟩

theorem slices_endLine (doc : Document) : doc.endLine.slices = doc.slices := by
  rcases doc.endLine_cases with h | h
  · rw [h]
  · rw [h, slices, push, List.filterMap_append]
    exact List.append_nil _

theorem attributeAt_endLine (doc : Document) (i : Nat) :
    AttributeAt doc.endLine.fragments i ↔ AttributeAt doc.fragments i := by
  rcases doc.endLine_cases with h | h
  · rw [h]
  · rw [h, push, AttributeAt.concat_iff]
    simp [Fragment.isAttribute]

theorem mem_of_mem_endLine {f : Fragment} (h : f ∈ doc.endLine.fragments) (ha : f.isAttribute) :
    f ∈ doc.fragments := by
  rcases doc.endLine_cases with he | he
  · rwa [he] at h
  · rw [he, push] at h
    rcases List.mem_append.1 h with h | h
    · exact h
    · rw [List.mem_singleton.1 h] at ha
      contradiction

/-- After the last line is ended, only the line feed that was added for it can be without a
declaration. -/
theorem WellFormed.newline_endLine (h : WellFormed source doc) (i : Nat)
    (hi : doc.endLine.fragments[i]? = some .newline) :
    (∃ t, doc.endLine.fragments[i + 1]? = some (.written t)) ∨
      i + 1 = doc.endLine.fragments.length := by
  rcases doc.endLine_cases with he | he
  · rw [he] at hi ⊢
    exact .inl (h.newline i hi)
  · rw [he, push] at hi ⊢
    rcases Nat.lt_or_ge i doc.fragments.length with hlt | hge
    · rw [List.getElem?_append_left hlt] at hi
      obtain ⟨t, ht⟩ := h.newline i hi
      have hlt' := (List.getElem?_eq_some_iff.1 ht).1
      exact .inl ⟨t, by rw [List.getElem?_append_left hlt', ht]⟩
    · have hlt := (List.getElem?_eq_some_iff.1 hi).1
      simp only [List.length_append, List.length_singleton] at hlt ⊢
      omega

theorem WellFormed.append {name : Name} (h : WellFormed source doc)
    (hfind : doc.registry.find? name.key = none) (value : Value) (literal : Text) :
    WellFormed source (doc.append name value literal) := by
  have hfragments := fragments_append hfind value literal
  generalize hf : Fragment.ofAttribute
    (Name.written name.key (doc.endLine.suffixMode || name.suffixed)) literal = f at hfragments
  have hslices : (doc.append name value literal).slices = doc.slices := by
    rw [slices, hfragments, List.filterMap_append, ← slices, slices_endLine, ← hf]
    exact List.append_nil _
  refine ⟨by rw [hslices]; exact h.isIn, by rw [hslices]; exact h.start_lt_stop,
    by rw [hslices]; exact h.ordered, ?_, ?_, ?_, ?_⟩
  · rw [attributes_append h.nodup_keys]
    exact OrderedMap.nodup_keys_insert h.nodup_keys
  · -- the declaration takes the place at the end
    rw [registry_append, hfragments]
    have hplaces (i : Nat) : AttributeAt (doc.endLine.fragments ++ [f]) i ↔
        AttributeAt doc.fragments i ∨ i = doc.endLine.fragments.length := by
      rw [AttributeAt.concat_iff, attributeAt_endLine, ← hf]
      simp [Fragment.ofAttribute, Fragment.isAttribute]
    refine h.linked.insert ?_ ?_
    · intro i
      rw [hplaces, hfind]
      simp [or_comm]
    · intro i hi _
      exact Nat.ne_of_lt ((doc.attributeAt_endLine i).2 hi).lt_length
  · intro g hg ha
    rw [hfragments] at hg
    rcases List.mem_append.1 hg with hg | hg
    · exact h.bracketed g (mem_of_mem_endLine hg ha) ha
    · rw [List.mem_singleton.1 hg, ← hf]
      exact Fragment.bracketed_ofAttribute _ _
  · intro i hi
    rw [hfragments] at hi ⊢
    rcases Nat.lt_or_ge i doc.endLine.fragments.length with hlt | hge
    · rw [List.getElem?_append_left hlt] at hi
      rcases h.newline_endLine i hi with ⟨t, ht⟩ | hlast
      · have hlt' := (List.getElem?_eq_some_iff.1 ht).1
        exact ⟨t, by rw [List.getElem?_append_left hlt', ht]⟩
      · rw [hlast, List.getElem?_concat_length, ← hf]
        exact ⟨_, rfl⟩
    · have hlt := (List.getElem?_eq_some_iff.1 hi).1
      have hlast : i = doc.endLine.fragments.length := by
        simp only [List.length_append, List.length_singleton] at hlt
        omega
      rw [hlast, List.getElem?_concat_length, ← hf] at hi
      cases hi

theorem WellFormed.set {key : Text} {value : Value} (h : WellFormed source doc)
    (hset : doc.set key value = .ok doc') : WellFormed source doc' := by
  obtain ⟨literal, -, ⟨entry, hfind, rfl⟩ | ⟨hfind, rfl⟩⟩ := set_cases hset
  · exact h.replace hfind value literal
  · exact h.append hfind value literal

theorem WellFormed.trySetAll (h : WellFormed source doc) (requests : List Request) :
    WellFormed source (doc.trySetAll requests) :=
  trySetAll_invariant (fun _ _ _ _ => WellFormed.set) h requests

end Document

end AssemblyInfo
