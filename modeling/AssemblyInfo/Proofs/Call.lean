import AssemblyInfo.Proofs.Declaration.Body

/-! The grammar of calls. A call is a name, alone or before an argument list in parentheses. The
list holds one argument or none, in which strings are whole and each bracket that is opened is
closed, by a bracket of any kind. The reader of calls takes exactly these texts, with blanks around
them or not, and refuses every other text. -/

namespace AssemblyInfo

namespace Call

open Text (Quoting Quoted isQuote isBlank isIdentifierChar)

/-- The inside of an argument list after some brackets that are still open. Strings are whole. No
bracket is closed that is not open, and all are closed at the end, whatever their kinds. Outside of
all brackets there is no comma. -/
inductive Nested : (depth : Nat) → Text → Prop where
  | nil : Nested 0 []
  | string {depth : Nat} {q : Char} {s t : Text} (quote : isQuote q) (inside : Quoted q s)
      (rest : Nested depth t) : Nested depth (q :: (s ++ q :: t))
  | opening {depth : Nat} {c : Char} {t : Text} (bracket : isOpening c)
      (rest : Nested (depth + 1) t) : Nested depth (c :: t)
  | closing {depth : Nat} {c : Char} {t : Text} (bracket : isClosing c) (rest : Nested depth t) :
      Nested (depth + 1) (c :: t)
  | char {depth : Nat} {c : Char} {t : Text} (quote : ¬isQuote c) (opening : ¬isOpening c)
      (closing : ¬isClosing c) (comma : c = ',' → depth ≠ 0) (rest : Nested depth t) :
      Nested depth (c :: t)

/-- What follows the name of a call, with the argument that it gives. -/
inductive IsArgument : Text → Option Text → Prop where
  | nothing : IsArgument [] none
  | list {blanks inner : Text} (blank : ∀ c ∈ blanks, isBlank c) (nested : Nested 0 inner) :
      IsArgument (blanks ++ '(' :: (inner ++ [')']))
        (if inner.trim = [] then none else some inner.trim)

/-- The text is written as the call, without blanks around it. -/
structure IsCall (t : Text) (call : Call) : Prop where
  callee : IsCallee call.callee
  argument : ∃ rest, t = call.callee ++ rest ∧ IsArgument rest call.argument

variable {depth : Nat} {q c : Char} {s t a rest : Text} {as pieces : List Text}

/-! ### One step of the reader -/

theorem not_isClosing_of_isOpening (h : isOpening c) : ¬isClosing c := by
  simp only [isOpening, Bool.or_eq_true, beq_iff_eq] at h
  rcases h with (rfl | rfl) | rfl
  · decide
  · decide
  · decide

theorem splitArguments?_quoted {quoting : Quoting} (h : quoting ≠ .outside) :
    splitArguments? depth quoting (c :: t) =
      (splitArguments? depth (quoting.next c) t).map (addChar c) := by
  rw [splitArguments?, if_pos h]

theorem splitArguments?_opening (h : isOpening c) :
    splitArguments? depth .outside (c :: t) =
      (splitArguments? (depth + 1) .outside t).map (addChar c) := by
  rw [splitArguments?, if_neg (by simp), if_pos h]

theorem splitArguments?_closing (h : isClosing c) :
    splitArguments? (depth + 1) .outside (c :: t) =
      (splitArguments? depth .outside t).map (addChar c) := by
  rw [splitArguments?, if_neg (by simp), if_neg (mt not_isClosing_of_isOpening (not_not.2 h)),
    if_neg (by simp), if_pos h, if_neg (by simp), Nat.add_sub_cancel]

theorem splitArguments?_comma :
    splitArguments? 0 .outside (',' :: t) =
      (splitArguments? 0 .outside t).map fun p => ([] :: p.1, p.2) := rfl

theorem splitArguments?_char (ho : ¬isOpening c) (hc : ¬isClosing c)
    (hcomma : c = ',' → depth ≠ 0) :
    splitArguments? depth .outside (c :: t) =
      (splitArguments? depth (Quoting.outside.next c) t).map (addChar c) := by
  have hend : ¬(c = ')' ∧ depth = 0) := by
    rintro ⟨rfl, -⟩
    exact hc rfl
  have hcomma : ¬(c = ',' ∧ depth = 0) := by
    rintro ⟨h, hdepth⟩
    exact hcomma h hdepth
  rw [splitArguments?, if_neg (by simp), if_neg ho, if_neg hend, if_neg hc, if_neg hcomma]

/-- There is at least one piece. -/
theorem pieces_ne_nil {quoting : Quoting}
    (h : splitArguments? depth quoting t = some (pieces, rest)) : pieces ≠ [] := by
  have hadd {x : Option (List Text × Text)} {c : Char}
      (hx : x.map (addChar c) = some (pieces, rest)) : pieces ≠ [] := by
    obtain ⟨⟨_ | ⟨b, bs⟩, r⟩, -, he⟩ := Option.map_eq_some_iff.1 hx
    · cases he
      simp
    · cases he
      simp
  cases t with
  | nil => contradiction
  | cons c t =>
    rw [splitArguments?] at h
    split_ifs at h
    · exact hadd h
    · exact hadd h
    · cases h
      simp
    · exact hadd h
    · obtain ⟨r, -, he⟩ := Option.map_eq_some_iff.1 h
      cases he
      simp
    · exact hadd h

/-- A character in front of the first piece. -/
theorem exists_of_map_addChar {quoting : Quoting}
    (h : (splitArguments? depth quoting t).map (addChar c) = some (a :: as, rest)) :
    ∃ b, a = c :: b ∧ splitArguments? depth quoting t = some (b :: as, rest) := by
  obtain ⟨⟨_ | ⟨b, bs⟩, r⟩, hs, he⟩ := Option.map_eq_some_iff.1 h
  · exact absurd rfl (pieces_ne_nil hs)
  · cases he
    exact ⟨b, rfl, hs⟩

/-! ### Strings -/

theorem splitArguments?_inside_append (hq : isQuote q) (hs : Quoted q s)
    (h : splitArguments? depth .outside t = some (a :: as, rest)) :
    splitArguments? depth (.inside q) (s ++ q :: t) = some ((s ++ q :: a) :: as, rest) := by
  have hbackslash : q ≠ '\\' := by
    rintro rfl
    contradiction
  induction hs with
  | nil =>
    rw [List.nil_append, splitArguments?_quoted (by simp), Quoting.next, if_neg hbackslash,
      if_pos rfl, h]
    rfl
  | char hc hb _ ih =>
    rw [List.cons_append, splitArguments?_quoted (by simp), Quoting.next, if_neg hb, if_neg hc, ih]
    rfl
  | escape c _ ih =>
    rw [List.cons_append, List.cons_append, splitArguments?_quoted (by simp), Quoting.next,
      if_pos rfl, splitArguments?_quoted (by simp), Quoting.next, ih]
    rfl

/-- A string that is opened is read up to its end. -/
theorem exists_of_splitArguments?_inside
    (h : splitArguments? depth (.inside q) t = some (a :: as, rest)) :
    ∃ s u b, t = s ++ q :: u ∧ Quoted q s ∧ a = s ++ q :: b ∧
      splitArguments? depth .outside u = some (b :: as, rest) := by
  induction hn : t.length using Nat.strongRecOn generalizing t a with
  | ind n ih =>
  cases t with
  | nil => contradiction
  | cons c t =>
    rw [splitArguments?_quoted (by simp), Quoting.next] at h
    obtain ⟨b, rfl, hb⟩ := exists_of_map_addChar h
    split_ifs at hb with hbackslash hq
    · -- a backslash takes the next character with it
      subst hbackslash
      cases t with
      | nil => contradiction
      | cons d t =>
        rw [splitArguments?_quoted (by simp), Quoting.next] at hb
        obtain ⟨b, rfl, hb'⟩ := exists_of_map_addChar hb
        obtain ⟨s, u, a, rfl, hs, rfl, hu⟩ := ih t.length (by simp [← hn]) hb' rfl
        exact ⟨'\\' :: d :: s, u, a, rfl, .escape d hs, rfl, hu⟩
    · subst hq
      exact ⟨[], t, b, rfl, .nil, rfl, hb⟩
    · obtain ⟨s, u, a, rfl, hs, rfl, hu⟩ := ih t.length (by simp [← hn]) hb rfl
      exact ⟨c :: s, u, a, rfl, .char hq hbackslash hs, rfl, hu⟩

/-! ### Argument lists -/

/-- What is nested is read as one piece, up to the parenthesis after it. -/
theorem Nested.splitArguments?_eq (h : Nested depth a) (rest : Text) :
    splitArguments? depth .outside (a ++ ')' :: rest) = some ([a], rest) := by
  induction h with
  | nil => rfl
  | @string depth q s t hq hs _ ih =>
    have hclass (p : Char → Bool) (hp : p '"' = false ∧ p '\'' = false) : ¬p q := fun h =>
      Text.not_isQuote_of_class p hp h hq
    have hcomma : q ≠ ',' := by
      rintro rfl
      contradiction
    rw [List.cons_append, List.append_assoc, List.cons_append,
      splitArguments?_char (hclass isOpening (by decide)) (hclass isClosing (by decide))
        fun h => absurd h hcomma,
      Quoting.next, if_pos hq, splitArguments?_inside_append hq hs ih]
    rfl
  | opening hb _ ih =>
    rw [List.cons_append, splitArguments?_opening hb, ih]
    rfl
  | closing hb _ ih =>
    rw [List.cons_append, splitArguments?_closing hb, ih]
    rfl
  | char hq ho hc hcomma _ ih =>
    rw [List.cons_append, splitArguments?_char ho hc hcomma, Quoting.next_outside hq, ih]
    rfl

/-- What is read as one piece is nested. -/
theorem nested_of_splitArguments? (h : splitArguments? depth .outside t = some ([a], rest)) :
    t = a ++ ')' :: rest ∧ Nested depth a := by
  induction hn : t.length using Nat.strongRecOn generalizing t a depth with
  | ind n ih =>
  cases t with
  | nil => contradiction
  | cons c t =>
    have hlt : t.length < n := by simp [← hn]
    by_cases ho : isOpening c
    · rw [splitArguments?_opening ho] at h
      obtain ⟨b, rfl, hb⟩ := exists_of_map_addChar h
      obtain ⟨rfl, hnested⟩ := ih _ hlt hb rfl
      exact ⟨rfl, .opening ho hnested⟩
    by_cases hc : isClosing c
    · cases depth with
      | succ depth =>
        rw [splitArguments?_closing hc] at h
        obtain ⟨b, rfl, hb⟩ := exists_of_map_addChar h
        obtain ⟨rfl, hnested⟩ := ih _ hlt hb rfl
        exact ⟨rfl, .closing hc hnested⟩
      | zero =>
        -- only a parenthesis may close what is not open: the list ends with it
        rw [splitArguments?, if_neg (by simp), if_neg ho, if_pos hc, if_pos rfl] at h
        split_ifs at h with hend
        obtain ⟨rfl, -⟩ := hend
        cases h
        exact ⟨rfl, .nil⟩
    by_cases hcomma : c = ',' → depth ≠ 0
    · rw [splitArguments?_char ho hc hcomma] at h
      obtain ⟨b, rfl, hb⟩ := exists_of_map_addChar h
      by_cases hq : isQuote c
      · rw [Quoting.next, if_pos hq] at hb
        obtain ⟨s, u, b, rfl, hs, rfl, hu⟩ := exists_of_splitArguments?_inside hb
        have hlt' : u.length < n := by
          simp only [List.length_append, List.length_cons] at hlt
          omega
        obtain ⟨rfl, hnested⟩ := ih _ hlt' hu rfl
        exact ⟨by simp, .string hq hs hnested⟩
      · rw [Quoting.next_outside hq] at hb
        obtain ⟨rfl, hnested⟩ := ih _ hlt hb rfl
        exact ⟨rfl, .char hq ho hc hcomma hnested⟩
    · -- a comma outside of all brackets is followed by one more piece
      obtain ⟨rfl, rfl⟩ : c = ',' ∧ depth = 0 := by simpa using hcomma
      rw [splitArguments?_comma] at h
      obtain ⟨⟨as, r⟩, hs, he⟩ := Option.map_eq_some_iff.1 h
      cases he
      exact absurd rfl (pieces_ne_nil hs)

/-! ### Calls -/

theorem arguments_singleton (a : Text) :
    arguments [a] = if a.trim = [] then [] else [a.trim] := by
  by_cases h : a.trim = []
  · simp [arguments, h]
  · simp [arguments, h]

/-- One argument at most comes from one piece. -/
theorem exists_piece_of_arguments {argument : Option Text} (hne : pieces ≠ [])
    (h : (match arguments pieces with
      | [] => .ok none
      | [a] => .ok (some a)
      | as => .error (.tooMany as.length) : Except CallFault (Option Text)) = .ok argument) :
    ∃ a, pieces = [a] ∧ argument = if a.trim = [] then none else some a.trim := by
  match pieces with
  | [] => contradiction
  | [a] =>
    refine ⟨a, rfl, ?_⟩
    rw [arguments_singleton] at h
    by_cases hnil : a.trim = []
    · simpa [hnil] using h.symm
    · simpa [hnil] using h.symm
  | a :: b :: as => simp [arguments] at h

theorem readArgument_eq_ok_iff {argument : Option Text}
    (ht : ∀ u c, t = u ++ [c] → isBlank c = false) :
    readArgument t = .ok argument ↔ IsArgument t argument := by
  constructor
  · intro h
    obtain ⟨blanks, hblank, hsplit⟩ :
        ∃ blanks, (∀ c ∈ blanks, isBlank c) ∧ t = blanks ++ t.trimStart :=
      ⟨t.takeWhile isBlank, fun _ => List.mem_takeWhile_imp, List.takeWhile_append_dropWhile.symm⟩
    rw [readArgument] at h
    split at h
    · next hnil =>
      cases h
      rw [Text.eq_nil_of_isBlank ht (List.dropWhile_eq_nil_iff.1 hnil)]
      exact .nothing
    · next c u hu =>
      rw [hu] at hsplit
      split_ifs at h with hc
      subst hc
      split at h
      · contradiction
      · next pieces rest hs =>
        split_ifs at h with hrest
        obtain ⟨a, rfl, rfl⟩ := exists_piece_of_arguments (pieces_ne_nil hs) h
        obtain ⟨rfl, ha⟩ := nested_of_splitArguments? hs
        -- nothing but blanks follows the list, and the text does not end with a blank
        obtain rfl : rest = [] := by
          apply Text.eq_nil_of_isBlank _ (Text.trim_eq_nil_iff.1 (not_not.1 hrest))
          rintro v d rfl
          exact ht (blanks ++ '(' :: (a ++ ')' :: v)) d (by simp [hsplit])
        rw [hsplit]
        exact .list hblank ha
  · rintro (_ | ⟨hblank, hnested⟩)
    · rfl
    · next blanks inner =>
      have hspan := Text.span_run_cons (t := inner ++ [')']) hblank
        (by decide : isBlank '(' = false)
      rw [readArgument, Text.trimStart, hspan.2]
      simp only [if_true, hnested.splitArguments?_eq []]
      rw [if_neg (by simp [Text.trim, Text.trimStart, Text.trimEnd]), arguments_singleton]
      split_ifs
      · rfl
      · rfl

theorem IsArgument.head?_not {argument : Option Text} (h : IsArgument t argument) :
    ∀ c ∈ t.head?, isIdentifierChar c = false := by
  cases h with
  | nothing => simp
  | @list blanks inner hblank _ =>
    intro c hc
    cases blanks with
    | nil =>
      cases hc
      decide
    | cons b blanks =>
      cases hc
      by_contra hident
      have hb := hblank c List.mem_cons_self
      rw [Text.isBlank_of_isIdentifierChar (by simpa using hident)] at hb
      contradiction

theorem read_eq_ok_iff {call : Call} (ht : ∀ u c, t = u ++ [c] → isBlank c = false) :
    read t = .ok call ↔ IsCall t call := by
  obtain ⟨callee, argument⟩ := call
  have hend (name rest : Text) (h : t = name ++ rest) :
      ∀ u c, rest = u ++ [c] → isBlank c = false := by
    rintro u c rfl
    exact ht (name ++ u) c (by simp [h])
  constructor
  · intro h
    have hsplit : t = t.takeWhile isIdentifierChar ++ t.dropWhile isIdentifierChar :=
      List.takeWhile_append_dropWhile.symm
    rw [read] at h
    split at h
    · contradiction
    · next c n hcallee =>
      split_ifs at h with hdigit
      obtain ⟨argument', ha, he⟩ := Except.map_eq_ok_iff.1 h
      cases he
      refine ⟨⟨by simp [hcallee], fun _ => List.mem_takeWhile_imp, ?_⟩, _, hsplit,
        (readArgument_eq_ok_iff (hend _ _ hsplit)).1 ha⟩
      rw [hcallee]
      rintro d ⟨⟩
      exact hdigit
  · rintro ⟨hcallee, rest, rfl, hargument⟩
    have hspan := Text.span_run hcallee.isIdentifierChar hargument.head?_not
    have hread := (readArgument_eq_ok_iff (hend _ _ rfl)).2 hargument
    obtain ⟨c, n, hname⟩ := List.exists_cons_of_ne_nil hcallee.ne_nil
    dsimp only at hname hspan hread
    have hdigit : ¬c.isDigit := hcallee.start c (by simp [hname])
    rw [read]
    simp only [hspan, hread]
    rw [hname]
    simp only [if_neg hdigit]
    rfl

theorem parse_eq_ok_iff {body : Text} {call : Call} :
    parse body = .ok call ↔ IsCall body.trim call :=
  Except.mapError_eq_ok_iff.trans (read_eq_ok_iff fun _ _ => Text.isBlank_of_trim_eq_concat)

/-- A text is read as a call exactly if it is written as one, and every other text is refused with
the text in the error. -/
theorem parse_iff_isCall (body : Text) :
    (∀ call, parse body = .ok call ↔ IsCall body.trim call) ∧
      ((∃ fault, parse body = .error (.malformed body.trim fault)) ↔
        ¬∃ call, IsCall body.trim call) := by
  refine ⟨fun _ => parse_eq_ok_iff, ?_⟩
  constructor
  · rintro ⟨fault, hfault⟩ ⟨call, hcall⟩
    rw [parse_eq_ok_iff.2 hcall] at hfault
    contradiction
  · intro hnone
    cases h : read body.trim with
    | ok call => exact absurd ⟨call, parse_eq_ok_iff.1 (by rw [parse, h]; rfl)⟩ hnone
    | error fault => exact ⟨fault, by rw [parse, h]; rfl⟩

example : (parse "A([']', ')\\',']) ".toList).toOption =
    some { callee := ['A'], argument := some "[']', ')\\',']".toList } := by
  decide +kernel

example : (parse "A(1, 2)".toList).toOption = none := by
  decide +kernel

/-- The name of a declaration in brackets is that of its call. -/
theorem isCallee_of_declared {d : Declaration.JScript} {name : Text} {value : Value}
    (h : (Declaration.jscript d).declared = .ok (name, value)) : IsCallee name := by
  obtain ⟨call, hcall, h⟩ := Except.bind_eq_ok_iff.1 h
  have hcallee := (parse_eq_ok_iff.1 hcall).callee
  cases hargument : call.argument with
  | none =>
    rw [hargument] at h
    cases h
    exact hcallee
  | some argument =>
    rw [hargument] at h
    obtain ⟨v, -, hv⟩ := Except.map_eq_ok_iff.1 h
    cases hv
    exact hcallee

end Call

end AssemblyInfo
