import AssemblyInfo.Document
import AssemblyInfo.Proofs.Layout

/-! Outlines of documents. An outline is the text of a document with each declaration of an
attribute as one slot. It keeps all declarations, also those that a later one of the same key
replaces: the order of the attributes is that of their first declarations. A value is put into the
last slot of its key, or into a new one at the end. -/

namespace AssemblyInfo

/-- A declaration in a document, from bracket to bracket, and what it declares. -/
@[ext]
structure Slot where
  key : Text
  writtenName : Text
  value : Value
  text : Text
  closed : ∃ u, text = u ++ [']']

namespace Slot

/-- The slot to write for a value. -/
def write (key writtenName : Text) (value : Value) : Slot where
  key := key
  writtenName := writtenName
  value := value
  text := (Fragment.ofAttribute writtenName value.display).text
  closed := ⟨"[assembly: ".toList ++ writtenName ++ '(' :: value.display ++ [')'], by
    simp [Fragment.ofAttribute, Fragment.text]⟩

/-- The slot with another value. -/
def put (s : Slot) (value : Value) : Slot := write s.key s.writtenName value

/-- The slot of a declaration that is read in a mode. -/
def ofDeclaration (dialect : Dialect) (mode : Bool) (d : Declaration) (name : Text)
    (value : Value) : Slot where
  key := (Name.canonical dialect name).key
  writtenName := Name.written (Name.canonical dialect name).key
    (mode || (Name.canonical dialect name).suffixed)
  value := value
  text := d.text
  closed := d.text_eq_concat

@[simp] theorem key_put (s : Slot) (v : Value) : (s.put v).key = s.key := rfl

@[simp] theorem put_put (s : Slot) (v v' : Value) : (s.put v).put v' = s.put v' := rfl

theorem text_ne_nil (s : Slot) : s.text ≠ [] := by
  obtain ⟨u, hu⟩ := s.closed
  simp [hu]

theorem trailingBlanks_append (s : Slot) (a b : Text) :
    Text.trailingBlanks (a ++ (s.text ++ b)) = Text.trailingBlanks b := by
  obtain ⟨u, hu⟩ := s.closed
  have he : a ++ (s.text ++ b) = a ++ u ++ ']' :: b := by simp [hu]
  rw [he, Text.trailingBlanks_append_cons _ _ (by decide)]

end Slot

/-! ### Values for slots -/

namespace Marked

/-- The keys of the slots in order. -/
def keys (w : Marked Slot) : List Text := (items w).map Slot.key

/-- Puts values into slots: of each key that has one, into the last slot. -/
def fill (values : Text → Option Value) : Marked Slot → Marked Slot
  | [] => []
  | .inl c :: w => .inl c :: fill values w
  | .inr s :: w =>
    match values s.key with
    | some value => .inr (if (keys w).contains s.key then s else s.put value) :: fill values w
    | none => .inr s :: fill values w

/-- One value, for one key. -/
def only (key : Text) (value : Value) (k : Text) : Option Value :=
  if k = key then some value else none

variable {values values' : Text → Option Value} {w a b : Marked Slot} {s : Slot} {key : Text}
  {value : Value}

@[simp] theorem keys_nil : keys [] = [] := rfl

@[simp] theorem keys_inl (c : Char) (w : Marked Slot) : keys (.inl c :: w) = keys w := rfl

@[simp] theorem keys_inr (s : Slot) (w : Marked Slot) : keys (.inr s :: w) = s.key :: keys w := rfl

@[simp] theorem keys_append (a b : Marked Slot) : keys (a ++ b) = keys a ++ keys b := by
  simp [keys]

@[simp] theorem keys_plain (t : Text) : keys (plain t) = [] := by
  simp [keys]

@[simp] theorem keys_fill (values : Text → Option Value) (w : Marked Slot) :
    keys (fill values w) = keys w := by
  fun_induction fill values w with
  | case1 => rfl
  | case2 c w ih => exact ih
  | case3 s w value hv ih =>
    rw [keys_inr, keys_inr, ih]
    split
    · rfl
    · rfl
  | case4 s w hv ih => rw [keys_inr, keys_inr, ih]

theorem fill_of_not_mem (h : ∀ k ∈ keys w, values k = none) : fill values w = w := by
  fun_induction fill values w with
  | case1 => rfl
  | case2 c w ih => rw [ih h]
  | case3 s w value hv ih =>
    rw [h s.key (by simp)] at hv
    contradiction
  | case4 s w hv ih => rw [ih fun k hk => h k (by simp [hk])]

/-- Values that are put in later win. -/
theorem fill_fill (values values' : Text → Option Value) (w : Marked Slot) :
    fill values' (fill values w) = fill (fun k => (values' k).or (values k)) w := by
  induction w with
  | nil => rfl
  | cons x w ih =>
    cases x with
    | inl c => exact congrArg (.inl c :: ·) ih
    | inr s =>
      by_cases hm : s.key ∈ keys w
      · cases hv : values s.key <;> cases hv' : values' s.key <;> simp [fill, hv, hv', hm, ih]
      · cases hv : values s.key <;> cases hv' : values' s.key <;> simp [fill, hv, hv', hm, ih]

/-- Parts of a text are filled apart if no key with a value stands in both. -/
theorem fill_append (h : ∀ k ∈ keys a, values k ≠ none → k ∉ keys b) :
    fill values (a ++ b) = fill values a ++ fill values b := by
  induction a with
  | nil => rfl
  | cons x a ih =>
    cases x with
    | inl c => exact congrArg (.inl c :: ·) (ih h)
    | inr s =>
      have ih := ih fun k hk => h k (by simp [hk])
      cases hv : values s.key with
      | none => simp [fill, hv, ih]
      | some v =>
        have hb : s.key ∉ keys b := h s.key (by simp) (by simp [hv])
        simp [fill, hv, ih, hb]

theorem fill_congr (h : ∀ k ∈ keys w, values k = values' k) : fill values w = fill values' w := by
  induction w with
  | nil => rfl
  | cons x w ih =>
    cases x with
    | inl c => exact congrArg (.inl c :: ·) (ih h)
    | inr s =>
      have ih := ih fun k hk => h k (by simp [hk])
      rw [fill, fill, h s.key (by simp), ih]

/-- Values that are put into slots leave what follows the last slot as it is. -/
theorem fill_ends (values : Text → Option Value) (w : Marked Slot) :
    (∃ t, w = plain t ∧ fill values w = plain t) ∨
      ∃ a a' s s' t, w = a ++ .inr s :: plain t ∧ fill values w = a' ++ .inr s' :: plain t := by
  fun_induction fill values w with
  | case1 => exact .inl ⟨[], rfl, rfl⟩
  | case2 c w ih =>
    rcases ih with ⟨t, rfl, hf⟩ | ⟨a, a', s, s', t, rfl, hf⟩
    · exact .inl ⟨c :: t, rfl, by rw [hf]; rfl⟩
    · exact .inr ⟨.inl c :: a, .inl c :: a', s, s', t, rfl, by rw [hf]; rfl⟩
  | case3 s w value hv ih =>
    rcases ih with ⟨t, rfl, hf⟩ | ⟨a, a', e, e', t, rfl, hf⟩
    · exact .inr ⟨[], [], s, _, t, rfl, by rw [hf]; rfl⟩
    · exact .inr ⟨.inr s :: a, _ :: a', e, e', t, rfl, by rw [hf]; rfl⟩
  | case4 s w hv ih =>
    rcases ih with ⟨t, rfl, hf⟩ | ⟨a, a', e, e', t, rfl, hf⟩
    · exact .inr ⟨[], [], s, s, t, rfl, by rw [hf]; rfl⟩
    · exact .inr ⟨.inr s :: a, .inr s :: a', e, e', t, rfl, by rw [hf]; rfl⟩

/-- A value goes into the last slot of its key. -/
theorem fill_only (ha : s.key = key) (hb : key ∉ keys b) :
    fill (only key value) (a ++ .inr s :: b) = a ++ .inr (s.put value) :: b := by
  subst ha
  induction a with
  | nil =>
    have hfill : fill (only s.key value) b = b := fill_of_not_mem fun k hk => by
      have hne : k ≠ s.key := by
        rintro rfl
        exact hb hk
      simp [only, hne]
    simp [fill, only, hb, hfill]
  | cons x a ih =>
    cases x with
    | inl c => exact congrArg (.inl c :: ·) ih
    | inr s' =>
      by_cases hs : s'.key = s.key
      · simp [fill, only, hs, ih]
      · simp [fill, only, hs, ih]

/-- The last slot of a key. -/
theorem exists_last (h : key ∈ keys w) :
    ∃ a s b, w = a ++ .inr s :: b ∧ s.key = key ∧ key ∉ keys b := by
  induction w with
  | nil => simp at h
  | cons x w ih =>
    by_cases hw : key ∈ keys w
    · obtain ⟨a, s, b, rfl, hs⟩ := ih hw
      exact ⟨x :: a, s, b, rfl, hs⟩
    · cases x with
      | inl c => exact absurd h hw
      | inr s =>
        have hs : key = s.key := by simpa [hw] using h
        exact ⟨[], s, w, rfl, hs.symm, hw⟩

/-- A value for a known key goes into its last slot. -/
theorem exists_fill_only (h : key ∈ keys w) :
    ∃ a s b, w = a ++ .inr s :: b ∧ s.key = key ∧
      ∀ value, fill (only key value) w = a ++ .inr (s.put value) :: b := by
  obtain ⟨a, s, b, rfl, hs, hb⟩ := exists_last h
  exact ⟨a, s, b, rfl, hs, fun _ => fill_only hs hb⟩

end Marked

/-! ### Outlines -/

/-- The text of a document with its declarations as slots. -/
structure Outline where
  dialect : Dialect
  body : Marked Slot
  suffixMode : Bool

namespace Outline

open Marked (keys fill only plain)

def text (o : Outline) : Text := Marked.text Slot.text o.body

/-- What an appended declaration needs before it. -/
def separator (t : Text) : Text := if t = [] ∨ '\n' ∈ t.trailingBlanks then [] else ['\n']

/-- The slot for an attribute that is registered now. -/
def newSlot (o : Outline) (name : Name) (value : Value) : Slot :=
  Slot.write name.key (Name.written name.key (o.suffixMode || name.suffixed)) value

/-- Adds a slot at the end, on a line of its own. -/
def append (o : Outline) (name : Name) (value : Value) : Outline :=
  { o with
    body := o.body ++ (plain (separator o.text) ++ [.inr (o.newSlot name value)])
    suffixMode := o.suffixMode || name.suffixed }

/-- Sets an attribute. -/
def set (o : Outline) (key : Text) (value : Value) : Outline :=
  let name := Name.canonical o.dialect key
  if (keys o.body).contains name.key then { o with body := fill (only name.key value) o.body }
  else o.append name value

/-- Sets attributes one after another. -/
def setAll (o : Outline) (sets : List (Text × Value)) : Outline :=
  sets.foldl (fun o (key, value) => o.set key value) o

theorem set_of_mem {o : Outline} {key : Text} (value : Value)
    (h : (Name.canonical o.dialect key).key ∈ keys o.body) :
    o.set key value =
      { o with body := fill (only (Name.canonical o.dialect key).key value) o.body } :=
  if_pos (List.contains_iff_mem.2 h)

theorem set_of_not_mem {o : Outline} {key : Text} (value : Value)
    (h : (Name.canonical o.dialect key).key ∉ keys o.body) :
    o.set key value = o.append (Name.canonical o.dialect key) value :=
  if_neg (mt List.contains_iff_mem.1 h)

@[simp] theorem key_newSlot (o : Outline) (name : Name) (value : Value) :
    (o.newSlot name value).key = name.key := rfl

@[simp] theorem keys_append (o : Outline) (name : Name) (value : Value) :
    keys (o.append name value).body = keys o.body ++ [name.key] := by
  simp [append]

end Outline

/-! ### Reading -/

/-- A layout that is read from one mode to another, with the slots that its declarations give. -/
inductive Reads (dialect : Dialect) : Bool → Marked Declaration → Bool → Marked Slot → Prop where
  | nil {mode : Bool} : Reads dialect mode [] mode []
  | char {mode mode' : Bool} {w : Marked Declaration} {r : Marked Slot} (c : Char)
      (rest : Reads dialect mode w mode' r) : Reads dialect mode (.inl c :: w) mode' (.inl c :: r)
  | declaration {mode mode' : Bool} {w : Marked Declaration} {r : Marked Slot} {d : Declaration}
      {name : Text} {value : Value} (declared : d.declared = .ok (name, value))
      (rest : Reads dialect (mode || (Name.canonical dialect name).suffixed) w mode' r) :
      Reads dialect mode (.inr d :: w) mode'
        (.inr (Slot.ofDeclaration dialect mode d name value) :: r)

namespace Reads

variable {dialect : Dialect} {mode mode' mode'' : Bool} {w w' : Marked Declaration}
  {r r' : Marked Slot}

/-- Reading keeps the text. -/
theorem text_eq (h : Reads dialect mode w mode' r) :
    Marked.text Slot.text r = Marked.text Declaration.text w := by
  induction h with
  | nil => rfl
  | char c _ ih => exact congrArg (c :: ·) ih
  | @declaration _ _ _ _ d _ _ _ _ ih => exact congrArg (d.text ++ ·) ih

theorem append (h : Reads dialect mode w mode' r) (h' : Reads dialect mode' w' mode'' r') :
    Reads dialect mode (w ++ w') mode'' (r ++ r') := by
  induction h with
  | nil => exact h'
  | char c _ ih => exact .char c (ih h')
  | declaration hd _ ih => exact .declaration hd (ih h')

theorem plain (t : Text) : Reads dialect mode (Marked.plain t) mode (Marked.plain t) := by
  induction t with
  | nil => exact .nil
  | cons c t ih => exact .char c ih

theorem of_plain {t : Text} (h : Reads dialect mode (Marked.plain t ++ w) mode' r) :
    ∃ r', r = Marked.plain t ++ r' ∧ Reads dialect mode w mode' r' := by
  induction t generalizing r with
  | nil => exact ⟨r, rfl, h⟩
  | cons c t ih =>
    cases h with
    | char _ h =>
      obtain ⟨r', rfl, hr⟩ := ih h
      exact ⟨r', rfl, hr⟩

/-- What is read before a slot, for the slot and after it. -/
theorem split {a b : Marked Slot} {s : Slot} (h : Reads dialect mode w mode' (a ++ .inr s :: b)) :
    ∃ (m : Bool) (u v : Marked Declaration) (d : Declaration) (name : Text) (value : Value),
      w = u ++ .inr d :: v ∧ Reads dialect mode u m a ∧ d.declared = .ok (name, value) ∧
        s = Slot.ofDeclaration dialect m d name value ∧
          Reads dialect (m || (Name.canonical dialect name).suffixed) v mode' b := by
  generalize hr : a ++ .inr s :: b = r at h
  induction h generalizing a with
  | nil => simp at hr
  | char c _ ih =>
    cases a with
    | nil => simp at hr
    | cons x a =>
      obtain ⟨rfl, hrest⟩ := List.cons.inj hr
      obtain ⟨m, u, v, d, name, value, rfl, hu, h⟩ := ih hrest
      exact ⟨m, .inl c :: u, v, d, name, value, rfl, .char c hu, h⟩
  | @declaration m _ w _ d name value hd hw ih =>
    cases a with
    | nil =>
      obtain ⟨hs, rfl⟩ := List.cons.inj hr
      exact ⟨m, [], w, d, name, value, rfl, .nil, hd, Sum.inr.inj hs, hw⟩
    | cons x a =>
      obtain ⟨rfl, hrest⟩ := List.cons.inj hr
      obtain ⟨m', u, v, e, name', value', rfl, hu, h⟩ := ih hrest
      exact ⟨m', .inr d :: u, v, e, name', value', rfl, .declaration hd hu, h⟩

/-- Suffix mode is never left. -/
theorem mode_le (h : Reads dialect mode w mode' r) (hm : mode = true) : mode' = true := by
  induction h with
  | nil => exact hm
  | char c _ ih => exact ih hm
  | declaration _ _ ih => exact ih (by simp [hm])

end Reads

end AssemblyInfo
