import AssemblyInfo.Value

/-! The registry of a document: its attributes by key, in the order of their first registration. -/

namespace AssemblyInfo

/-- What is known of an attribute. -/
structure Entry where
  /-- The name that it is written with. -/
  writtenName : Text
  value : Value
  /-- The place of its declaration among the fragments. -/
  fragment : Nat
  deriving DecidableEq, Repr

/-- Entries by key; no key stands twice. -/
abbrev Registry := List (Text × Entry)

namespace Registry

/-- The entry of a key. -/
def find? (r : Registry) (key : Text) : Option Entry := r.lookup key

/-- Replaces the entry of a key, which keeps its place, or adds one at the end. -/
def insert : Registry → Text → Entry → Registry
  | [], key, entry => [(key, entry)]
  | (k, e) :: r, key, entry =>
    if k = key then (k, entry) :: r else (k, e) :: insert r key entry

/-- Keys and values in order. -/
def values (r : Registry) : List (Text × Value) := r.map fun (k, e) => (k, e.value)

@[simp] theorem find?_nil (key : Text) : find? [] key = none := rfl

@[simp] theorem find?_cons (k : Text) (e : Entry) (r : Registry) (key : Text) :
    find? ((k, e) :: r) key = if key = k then some e else r.find? key :=
  lookup_cons_eq_if k key e r

@[simp] theorem find?_insert_self (r : Registry) (key : Text) (entry : Entry) :
    (r.insert key entry).find? key = some entry := by
  induction r with
  | nil => simp [insert]
  | cons p r ih =>
    obtain ⟨k, e⟩ := p
    by_cases h : k = key
    · simp [insert, h]
    · simp [insert, h, Ne.symm h, ih]

theorem find?_insert_of_ne (r : Registry) {key other : Text} (entry : Entry) (h : key ≠ other) :
    (r.insert key entry).find? other = r.find? other := by
  induction r with
  | nil => simp [insert, Ne.symm h]
  | cons p r ih =>
    obtain ⟨k, e⟩ := p
    by_cases hk : k = key
    · subst hk
      simp [insert, Ne.symm h]
    · rw [insert, if_neg hk, find?_cons, find?_cons, ih]

/-- The values are looked up as the entries are. -/
theorem find?_values (r : Registry) (key : Text) :
    r.values.lookup key = (r.find? key).map Entry.value := by
  induction r with
  | nil => rfl
  | cons p r ih =>
    obtain ⟨k, e⟩ := p
    have hcons : values ((k, e) :: r) = (k, e.value) :: values r := rfl
    rw [hcons, find?_cons, lookup_cons_eq_if, ih]
    by_cases h : key = k
    · simp [h]
    · simp [h]

end Registry

end AssemblyInfo
