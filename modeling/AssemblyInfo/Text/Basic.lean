/-! Texts are lists of characters. A position in a text counts the bytes that the UTF-8 form
takes up to it. -/

namespace AssemblyInfo

/-- A text, character by character. -/
abbrev Text := List Char

namespace Text

/-- Number of bytes of the UTF-8 form. -/
def byteSize : Text → Nat
  | [] => 0
  | c :: t => c.utf8Size + byteSize t

@[simp] theorem byteSize_nil : byteSize [] = 0 := rfl

@[simp] theorem byteSize_cons (c : Char) (t : Text) :
    byteSize (c :: t) = c.utf8Size + byteSize t := rfl

@[simp] theorem byteSize_append (s t : Text) : byteSize (s ++ t) = byteSize s + byteSize t := by
  induction s with
  | nil => simp
  | cons c s ih => simp [ih, Nat.add_assoc]

theorem eq_append_of_isPrefixOf? {word t r : Text} (h : word.isPrefixOf? t = some r) :
    t = word ++ r := by
  induction word generalizing t with
  | nil => exact Option.some.inj h
  | cons w word ih =>
    cases t with
    | nil => cases h
    | cons c t =>
      have hif : (if w == c then word.isPrefixOf? t else none) = some r := h
      obtain ⟨hc, hr⟩ := Option.ite_none_right_eq_some.1 hif
      rw [List.cons_append, ← ih hr, eq_of_beq hc]

/-- What was read with an item put in front begins with the item. -/
theorem exists_of_map_cons {α β : Type} {a : α} {as : List α} {rest : β}
    {read? : Option (List α × β)} (h : read?.map (Prod.map (a :: ·) id) = some (as, rest)) :
    ∃ bs, as = a :: bs ∧ read? = some (bs, rest) := by
  obtain ⟨⟨bs, r⟩, hread, he⟩ := Option.map_eq_some_iff.1 h
  cases he
  exact ⟨bs, rfl, hread⟩

theorem takeWhile_append_of_dropWhile {p : Char → Bool} {t r : Text} (h : t.dropWhile p = r) :
    t.takeWhile p ++ r = t := by
  rw [← h, List.takeWhile_append_dropWhile]

/-- The first line with its line feed, and the rest. -/
def cutLine : Text → Text × Text
  | [] => ([], [])
  | c :: t => if c = '\n' then ([c], t) else (c :: (cutLine t).1, (cutLine t).2)

@[simp] theorem cutLine_append (t : Text) : (cutLine t).1 ++ (cutLine t).2 = t := by
  induction t with
  | nil => rfl
  | cons c t ih => by_cases h : c = '\n' <;> simp [cutLine, h, ih]

theorem length_cutLine_le (t : Text) : (cutLine t).2.length ≤ t.length := by
  have h := congrArg List.length (cutLine_append t)
  simp only [List.length_append] at h
  omega

theorem length_cutLine_lt {t : Text} (h : t ≠ []) : (cutLine t).2.length < t.length := by
  cases t with
  | nil => exact absurd rfl h
  | cons c t =>
    have := length_cutLine_le t
    rw [cutLine]
    split
    · exact Nat.lt_succ_self _
    · exact Nat.lt_succ_of_le this

/-- The pieces between the occurrences of `c`, one more than there are of these. -/
abbrev splitOn (c : Char) (t : Text) : List Text := List.splitOn c t

/-- The lines, without their line feeds. -/
def lines (t : Text) : List Text := splitOn '\n' t

/-- Splits at the first occurrence of `c`, which is left out. -/
def splitAt? (c : Char) : Text → Option (Text × Text)
  | [] => none
  | d :: t => if d = c then some ([], t) else (splitAt? c t).map fun (s, r) => (d :: s, r)

/-- The texts one after another, with `separator` between two of them. -/
abbrev joinWith (separator : Text) (ts : List Text) : Text := separator.intercalate ts

/-- A number in decimal. -/
def decimal (n : Nat) : Text := Nat.toDigits 10 n

/-- Upper-case ASCII letters become lower-case, all else stays. -/
def lowerAscii (t : Text) : Text := t.map Char.toLower

end Text

theorem lookup_cons_eq_if {α β : Type} [BEq α] [LawfulBEq α] [DecidableEq α] (key key' : α)
    (value : β) (pairs : List (α × β)) :
    ((key, value) :: pairs).lookup key' = if key' = key then some value else pairs.lookup key' := by
  by_cases h : key' = key
  · simp [h]
  · have hb : (key' == key) = false := beq_eq_false_iff_ne.2 h
    simp [List.lookup_cons, h, hb]

/-- A piece of a source, with the byte offset where it was taken. -/
structure Slice where
  start : Nat
  text : Text
  deriving DecidableEq, Repr

/-- Byte offset of the end of the piece. -/
def Slice.stop (s : Slice) : Nat := s.start + s.text.byteSize

end AssemblyInfo
