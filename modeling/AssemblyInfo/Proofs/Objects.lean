import AssemblyInfo.Proofs.Literal

/-! Objects written in lines and read back. Each line is a member: a name in quotes, a colon and the
text of a value, which ends where a comma or a line feed follows. The members are read in the order
in which they were written. -/

namespace AssemblyInfo.Json.Shape

variable {α : Type} {value : Text} {c : Char} {s : Shape}

/-! ### Blanks -/

theorem skipBlanks_cons (h : isBlank c) (t : Text) : skipBlanks (c :: t) = skipBlanks t :=
  List.dropWhile_cons_of_pos h

theorem skipBlanks_of_not_isBlank (h : ¬isBlank c) (t : Text) : skipBlanks (c :: t) = c :: t :=
  List.dropWhile_cons_of_neg h

theorem read?_blank (h : isBlank c) (bound : Nat) (t : Text) :
    read? bound (c :: t) = read? bound t := by
  cases bound with
  | zero => rfl
  | succ bound => simp only [read?, skipBlanks_cons h]

/-! ### Members -/

/-- A member on a line of its own. -/
def memberLine (name value : Text) : Text := "  ".toList ++ quote name ++ ": ".toList ++ value

/-- A member is read up to the end of its value, with blanks before it or not. -/
theorem readMember?_memberLine (bound : Nat) (name rest : Text) (h : Written value s)
    (hr : ∀ c ∈ rest.head?, Numeral.continues c = false) :
    readMember? (read? (bound + 1)) ('\n' :: (memberLine name value ++ rest)) =
      some ((name.map Piece.ofChar, s), rest) := by
  have hname := readPieces?_flatMap_escape name (':' :: ' ' :: (value ++ rest))
  have hvalue : read? (bound + 1) (' ' :: (value ++ rest)) = some (s, rest) := by
    rw [read?_blank (by decide), h bound rest hr]
  have hline : '\n' :: (memberLine name value ++ rest) =
      '\n' :: ' ' :: ' ' :: '"' ::
        (name.flatMap escape ++ '"' :: ':' :: ' ' :: (value ++ rest)) := by
    simp [memberLine, quote]
  rw [hline, readMember?, skipBlanks_cons (by decide), skipBlanks_cons (by decide),
    skipBlanks_cons (by decide), skipBlanks_of_not_isBlank (by decide)]
  simp [List.isPrefixOf?, hname, skipBlanks_of_not_isBlank (show ¬isBlank ':' by decide), hvalue]

/-- Lines of members with commas between them, up to the closing brace. -/
theorem readItems?_memberLines {write : α → Text} {shape : α → Shape} (bound : Nat) {count : Nat}
    {l : List (Text × α)} (hl : l ≠ []) (hcount : l.length ≤ count)
    (h : ∀ p ∈ l, Written (write p.2) (shape p.2)) (rest : Text) :
    readItems? (readMember? (read? (bound + 1))) '\x7d' count
        ('\n' :: (Text.joinWith [',', '\n'] (l.map fun p => memberLine p.1 (write p.2)) ++
          '\n' :: '\x7d' :: rest)) =
      some (l.map fun p => (p.1.map Piece.ofChar, shape p.2), rest) := by
  induction l generalizing count with
  | nil => contradiction
  | cons p l ih =>
    obtain ⟨hp, hl'⟩ := List.forall_mem_cons.1 h
    obtain ⟨count, rfl⟩ : ∃ n, count = n + 1 := ⟨count - 1, by simp at hcount; omega⟩
    cases l with
    | nil =>
      have hmember := readMember?_memberLine bound p.1 ('\n' :: '\x7d' :: rest) hp
        (by simp [Numeral.continues])
      rw [List.map_singleton, Text.joinWith, List.intercalate_singleton, readItems?, hmember]
      simp [skipBlanks_cons (show isBlank '\n' by decide),
        skipBlanks_of_not_isBlank (show ¬isBlank '\x7d' by decide)]
    | cons q l =>
      have hrest := ih (List.cons_ne_nil q l) (Nat.le_of_succ_le_succ hcount) hl'
      have hmember := readMember?_memberLine bound p.1 (',' :: '\n' :: (Text.joinWith [',', '\n']
          ((q :: l).map fun p => memberLine p.1 (write p.2)) ++ '\n' :: '\x7d' :: rest)) hp
        (by simp [Numeral.continues])
      have hlines : Text.joinWith [',', '\n']
          ((p :: q :: l).map fun p => memberLine p.1 (write p.2)) ++ '\n' :: '\x7d' :: rest =
          memberLine p.1 (write p.2) ++ ',' :: '\n' :: (Text.joinWith [',', '\n']
            ((q :: l).map fun p => memberLine p.1 (write p.2)) ++ '\n' :: '\x7d' :: rest) := by
        simp [Text.joinWith]
      rw [hlines, readItems?, hmember]
      simp only [skipBlanks_of_not_isBlank (show ¬isBlank ',' by decide), if_true]
      rw [hrest]
      rfl

theorem length_le_joinWith (l : List Text) (h : ∀ t ∈ l, t ≠ []) (separator : Text) :
    l.length ≤ (Text.joinWith separator l).length := by
  induction l with
  | nil => exact Nat.zero_le _
  | cons t l ih =>
    obtain ⟨ht, hl⟩ := List.forall_mem_cons.1 h
    have hpos := List.length_pos_iff.2 ht
    have ih := ih hl
    cases l with
    | nil =>
      rw [Text.joinWith, List.intercalate_singleton]
      exact hpos
    | cons u l =>
      simp only [Text.joinWith, List.intercalate_cons_cons, List.length_append,
        List.length_cons] at ih ⊢
      omega

/-- An object is read as its members, in their order. -/
theorem parse?_writeObjectLines {write : α → Text} {shape : α → Shape} {l : List (Text × α)}
    (h : ∀ p ∈ l, Written (write p.2) (shape p.2)) :
    parse? (writeObjectLines (l.map fun p => (p.1, write p.2))) =
      some (.object (l.map fun p => (p.1.map Piece.ofChar, shape p.2))) := by
  by_cases hl : l = []
  · subst hl
    rfl
  · set lines := Text.joinWith [',', '\n'] (l.map fun p => memberLine p.1 (write p.2)) with hlines
    have htext : writeObjectLines (l.map fun p => (p.1, write p.2)) =
        '\x7b' :: '\n' :: (lines ++ '\n' :: '\x7d' :: []) := by
      simp [writeObjectLines, hl, hlines, memberLine, Function.comp_def]
    have hcount : l.length ≤ ('\n' :: (lines ++ '\n' :: '\x7d' :: [])).length := by
      have hne : ∀ t ∈ l.map fun p => memberLine p.1 (write p.2), t ≠ [] := by
        intro t ht
        obtain ⟨p, -, rfl⟩ := List.mem_map.1 ht
        simp [memberLine]
      have hle := length_le_joinWith _ hne [',', '\n']
      rw [List.length_map, ← hlines] at hle
      simp only [List.length_cons, List.length_append]
      omega
    have hitems := readItems?_memberLines ('\n' :: (lines ++ '\n' :: '\x7d' :: [])).length
      hl hcount h []
    rw [← hlines] at hitems
    -- the first line begins with a name, so the object is not empty
    have hopen : ['\x7d'].isPrefixOf? (skipBlanks ('\n' :: (lines ++ '\n' :: '\x7d' :: []))) =
        none := by
      obtain ⟨p, l, rfl⟩ := List.exists_cons_of_ne_nil hl
      obtain ⟨u, hu⟩ : ∃ u, lines ++ '\n' :: '\x7d' :: [] = ' ' :: ' ' :: '"' :: u := by
        cases l <;> simp [hlines, Text.joinWith, memberLine, quote]
      rw [hu, skipBlanks_cons (by decide), skipBlanks_cons (by decide),
        skipBlanks_cons (by decide), skipBlanks_of_not_isBlank (by decide)]
      rfl
    have hread : read? (('\x7b' :: '\n' :: (lines ++ '\n' :: '\x7d' :: [])).length + 1)
        ('\x7b' :: '\n' :: (lines ++ '\n' :: '\x7d' :: [])) =
        some (.object (l.map fun p => (p.1.map Piece.ofChar, shape p.2)), []) := by
      rw [read?, skipBlanks_of_not_isBlank (by decide)]
      simp only [readList?, hopen]
      rw [List.length_cons, hitems]
      rfl
    rw [htext, parse?, hread]
    rfl

end AssemblyInfo.Json.Shape
