import AssemblyInfo.Proofs.Declaration.Body
import AssemblyInfo.Proofs.Spelling

/-! Literals in single quotes. Their inside is rewritten for double quotes by two replacements that
do not see which backslashes belong together, and is then read as a JSON string. What is read
without error is all the same the text that the inside spells from left to right, with each
backslash taken together with the sign after it, and every text can be written in single quotes.
An escaped double quote is lost: it gets a second backslash, and the string in double quotes ends
too early. -/

namespace AssemblyInfo

namespace Value

open Json (Spells SpellsString hexValue? unit? escape)
open Text (Quoted)

/-! ### The inside of single quotes rewritten -/

variable {raw t x s : Text} {c : Char}

@[simp] theorem requote_nil : requote [] = [] := rfl

@[simp] theorem requote_quote (t : Text) : requote ('"' :: t) = '\\' :: '"' :: requote t := rfl

@[simp] theorem requote_escaped (t : Text) : requote ('\\' :: '\'' :: t) = '\'' :: requote t := rfl

/-- A character other than a double quote is kept, unless it is the backslash of a single quote. -/
theorem requote_cons (hc : c ≠ '"') (h : c = '\\' → ∀ u, t ≠ '\'' :: u) :
    requote (c :: t) = c :: requote t := by
  rw [requote, List.flatMap_cons, if_neg hc, List.singleton_append, requote.dropEscapes]
  · rfl
  · intro u hb hu
    -- a single quote at the start of the first replacement stands there before it
    cases t with
    | nil => contradiction
    | cons d t =>
      rw [List.flatMap_cons] at hu
      split_ifs at hu
      · cases hu
      · cases hu
        exact h hb t rfl

/-- The inside starts with a double quote, with a single quote after a backslash, or with a
character that is kept. -/
theorem requote_cases (raw : Text) : raw = [] ∨ (∃ t, raw = '"' :: t) ∨
    (∃ t, raw = '\\' :: '\'' :: t) ∨ ∃ c t, raw = c :: t ∧ requote raw = c :: requote t := by
  cases raw with
  | nil => exact .inl rfl
  | cons c t =>
    by_cases hc : c = '"'
    · exact .inr (.inl ⟨t, by rw [hc]⟩)
    by_cases h : c = '\\' → ∀ u, t ≠ '\'' :: u
    · exact .inr (.inr (.inr ⟨c, t, rfl, requote_cons hc h⟩))
    · push Not at h
      obtain ⟨rfl, u, rfl⟩ := h
      exact .inr (.inr (.inl ⟨u, rfl⟩))

theorem requote_eq_nil (h : requote raw = []) : raw = [] := by
  rcases requote_cases raw with rfl | ⟨t, rfl⟩ | ⟨t, rfl⟩ | ⟨c, t, rfl, hr⟩
  · rfl
  · contradiction
  · contradiction
  · rw [hr] at h
    contradiction

/-- Where the first character after the rewriting comes from. -/
theorem requote_eq_cons (h : requote raw = c :: x) :
    (c = '\\' ∧ ∃ t, raw = '"' :: t ∧ x = '"' :: requote t) ∨
      (c = '\'' ∧ ∃ t, raw = '\\' :: '\'' :: t ∧ x = requote t) ∨
      ∃ t, raw = c :: t ∧ x = requote t := by
  rcases requote_cases raw with rfl | ⟨t, rfl⟩ | ⟨t, rfl⟩ | ⟨d, t, rfl, hr⟩
  · contradiction
  · cases h
    exact .inl ⟨rfl, t, rfl, rfl⟩
  · cases h
    exact .inr (.inl ⟨rfl, t, rfl, rfl⟩)
  · obtain ⟨rfl, rfl⟩ := List.cons.inj (hr.symm.trans h)
    exact .inr (.inr ⟨t, rfl, rfl⟩)

/-- A character that the rewriting does not look at. -/
def isInert (c : Char) : Bool := c != '"' && c != '\\' && c != '\''

theorem isInert_iff : isInert c ↔ c ≠ '"' ∧ c ≠ '\\' ∧ c ≠ '\'' := by
  simp [isInert, and_assoc]

theorem requote_append_of_inert {w : Text} (hw : w.all isInert) (t : Text) :
    requote (w ++ t) = w ++ requote t := by
  induction w with
  | nil => rfl
  | cons c w ih =>
    rw [List.all_cons, Bool.and_eq_true] at hw
    obtain ⟨hquote, hbackslash, -⟩ := isInert_iff.1 hw.1
    rw [List.cons_append, requote_cons hquote fun hc => absurd hc hbackslash, ih hw.2]
    rfl

theorem exists_of_requote_eq_append {w : Text} (hw : w.all isInert) (h : requote raw = w ++ x) :
    ∃ t, raw = w ++ t ∧ requote t = x := by
  induction w generalizing raw with
  | nil => exact ⟨raw, rfl, h⟩
  | cons c w ih =>
    rw [List.all_cons, Bool.and_eq_true] at hw
    obtain ⟨-, hbackslash, hsingle⟩ := isInert_iff.1 hw.1
    rcases requote_eq_cons h with ⟨hc, -⟩ | ⟨hc, -⟩ | ⟨t, rfl, hx⟩
    · exact absurd hc hbackslash
    · exact absurd hc hsingle
    · obtain ⟨t, rfl, ht⟩ := ih hw.2 hx.symm
      exact ⟨t, rfl, ht⟩

theorem isInert_of_hexValue? {n : Nat} (h : hexValue? c = some n) : isInert c := by
  rw [isInert_iff]
  refine ⟨?_, ?_, ?_⟩
  · rintro rfl
    contradiction
  · rintro rfl
    contradiction
  · rintro rfl
    contradiction

theorem isInert_of_unit? {a b c d : Char} {n : Nat} (h : unit? a b c d = some n) :
    ['u', a, b, c, d].all isInert := by
  obtain ⟨_, ha, h⟩ := Option.bind_eq_some_iff.1 h
  obtain ⟨_, hb, h⟩ := Option.bind_eq_some_iff.1 h
  obtain ⟨_, hc, h⟩ := Option.bind_eq_some_iff.1 h
  obtain ⟨_, hd, -⟩ := Option.bind_eq_some_iff.1 h
  have hu : isInert 'u' := by decide
  simp only [List.all_cons, List.all_nil, hu, isInert_of_hexValue? ha, isInert_of_hexValue? hb,
    isInert_of_hexValue? hc, isInert_of_hexValue? hd, Bool.and_self]

/-- A unit is written with the same digits before the rewriting. -/
theorem exists_of_requote_eq_unit {a b c d : Char} {n : Nat} (hn : unit? a b c d = some n)
    (h : requote raw = '\\' :: 'u' :: a :: b :: c :: d :: x) :
    ∃ t, raw = '\\' :: 'u' :: a :: b :: c :: d :: t ∧ requote t = x := by
  rcases requote_eq_cons h with ⟨-, t, -, ht⟩ | ⟨hq, -⟩ | ⟨t, rfl, hx⟩
  · cases ht
  · contradiction
  · obtain ⟨t, rfl, ht⟩ := exists_of_requote_eq_append (isInert_of_unit? hn) hx.symm
    exact ⟨t, rfl, ht⟩

/-! ### Reading from left to right -/

/-- The character that a sign after a backslash stands for between single quotes. -/
def unescapeSingle? (e : Char) : Option Char := if e = '\'' then some '\'' else Json.unescape? e

/-- The inside of single quotes and the text that it spells. Every character other than a backslash
stands for itself. -/
abbrev SpellsSingle : Text → Text → Prop := Spells (· ≠ '\\') unescapeSingle?

/-- The rewritten inside spells nothing else than the inside itself. -/
theorem spellsSingle_of_requote (h : SpellsString (requote raw) s) : SpellsSingle raw s := by
  generalize hx : requote raw = x at h
  induction h generalizing raw with
  | nil =>
    rw [requote_eq_nil hx]
    exact .nil
  | @self c x s hc _ ih =>
    rcases requote_eq_cons hx with ⟨hb, -⟩ | ⟨rfl, t, rfl, rfl⟩ | ⟨t, rfl, rfl⟩
    · exact absurd hb hc.2.1
    · exact .short rfl (ih rfl)
    · exact .self hc.2.1 (ih rfl)
  | @short e c x s he hrest ih =>
    rcases requote_eq_cons hx with ⟨-, t, rfl, ht⟩ | ⟨hq, -⟩ | ⟨t, rfl, ht⟩
    · obtain ⟨rfl, rfl⟩ := List.cons.inj ht
      cases he
      exact .self (by decide) (ih rfl)
    · contradiction
    · have hne : e ≠ '\'' := by
        rintro rfl
        contradiction
      rcases requote_eq_cons ht.symm with ⟨rfl, t, rfl, rfl⟩ | ⟨he, -⟩ | ⟨t, rfl, rfl⟩
      -- a double quote after a backslash would end the string
      · cases hrest with
        | self hc => exact absurd rfl hc.1
      · exact absurd he hne
      · exact .short (by rw [unescapeSingle?, if_neg hne, he]) (ih rfl)
  | unit hn hhigh hlow _ ih =>
    obtain ⟨t, rfl, ht⟩ := exists_of_requote_eq_unit hn hx
    exact .unit hn hhigh hlow (ih ht)
  | pair hn hm hhigh hlow _ ih =>
    obtain ⟨t, rfl, ht⟩ := exists_of_requote_eq_unit hn hx
    obtain ⟨u, rfl, hu⟩ := exists_of_requote_eq_unit hm ht
    exact .pair hn hm hhigh hlow (ih hu)

theorem SpellsSingle.unique (h : SpellsSingle raw s) (h' : SpellsSingle raw x) : s = x :=
  Spells.unique (fun _ hc => hc) rfl h h'

/-! ### Writing in single quotes -/

/-- A character as it is written between single quotes. -/
def escapeSingle (c : Char) : Text :=
  if c = '"' then ['"'] else if c = '\'' then ['\\', '\''] else escape c

/-- How a character other than a double quote is escaped: a backslash by another one, some
characters by inert ones after a backslash, and the others not at all. -/
theorem escape_cases (hc : c ≠ '"') : (c = '\\' ∧ escape c = ['\\', '\\']) ∨
    (∃ w, escape c = '\\' :: w ∧ w ≠ [] ∧ w.all isInert) ∨ (c ≠ '\\' ∧ escape c = [c]) := by
  have hdigits : ∀ n < 0x20,
      ['u', '0', '0', Nat.digitChar (n / 16), Nat.digitChar (n % 16)].all isInert := by
    decide
  by_cases hb : c = '\\'
  · exact .inl ⟨hb, by rw [hb]; rfl⟩
  refine .inr ?_
  unfold escape
  rw [if_neg hc, if_neg hb]
  split_ifs with h₁ h₂ h₃ h₄ h₅ h₆
  · exact .inl ⟨['b'], rfl, by simp, by decide⟩
  · exact .inl ⟨['f'], rfl, by simp, by decide⟩
  · exact .inl ⟨['n'], rfl, by simp, by decide⟩
  · exact .inl ⟨['r'], rfl, by simp, by decide⟩
  · exact .inl ⟨['t'], rfl, by simp, by decide⟩
  · exact .inl ⟨_, rfl, by simp, hdigits _ h₆⟩
  · exact .inr ⟨hb, rfl⟩

theorem escapeSingle_append_ne (c : Char) (t u : Text) : escapeSingle c ++ t ≠ '\'' :: u := by
  have hne {d : Char} {w : Text} (hd : d ≠ '\'') (hw : escapeSingle c = d :: w) :
      escapeSingle c ++ t ≠ '\'' :: u := by
    rw [hw]
    exact fun h => hd (List.cons.inj h).1
  by_cases hdouble : c = '"'
  · exact hne (by decide) (if_pos hdouble)
  by_cases hsingle : c = '\''
  · exact hne (by decide) ((if_neg hdouble).trans (if_pos hsingle))
  have hescape : escapeSingle c = escape c := by
    rw [escapeSingle, if_neg hdouble, if_neg hsingle]
  rcases escape_cases hdouble with ⟨-, he⟩ | ⟨w, he, -, -⟩ | ⟨-, he⟩
  · exact hne (by decide) (hescape.trans he)
  · exact hne (by decide) (hescape.trans he)
  · exact hne hsingle (hescape.trans he)

/-- The backslash of anything but a single quote is kept. -/
theorem requote_backslash (ht : ∀ u, t ≠ '\'' :: u) : requote ('\\' :: t) = '\\' :: requote t :=
  requote_cons (by decide) fun _ => ht

theorem requote_escapeSingle_append (ht : ∀ u, t ≠ '\'' :: u) :
    requote (escapeSingle c ++ t) = escape c ++ requote t := by
  by_cases hdouble : c = '"'
  · subst hdouble
    exact requote_quote t
  by_cases hsingle : c = '\''
  · subst hsingle
    exact requote_escaped t
  rw [escapeSingle, if_neg hdouble, if_neg hsingle]
  rcases escape_cases hdouble with ⟨-, he⟩ | ⟨w, he, hw, hinert⟩ | ⟨hb, he⟩
  · have hne : ∀ u, '\\' :: t ≠ '\'' :: u := fun u h => absurd (List.cons.inj h).1 (by decide)
    rw [he, List.cons_append, List.singleton_append, requote_backslash hne, requote_backslash ht]
    rfl
  · have hne : ∀ u, w ++ t ≠ '\'' :: u := by
      obtain ⟨e, w, rfl⟩ := List.exists_cons_of_ne_nil hw
      intro u h
      obtain rfl : e = '\'' := (List.cons.inj h).1
      contradiction
    rw [he, List.cons_append, requote_backslash hne, requote_append_of_inert hinert]
    rfl
  · have hinert : [c].all isInert := by
      rw [List.all_cons, List.all_nil, Bool.and_true]
      exact isInert_iff.2 ⟨hdouble, hb, hsingle⟩
    rw [he, requote_append_of_inert hinert]

/-- The text written for single quotes becomes the text written for double quotes. -/
theorem requote_flatMap_escapeSingle (s : Text) :
    requote (s.flatMap escapeSingle) = s.flatMap escape := by
  induction s with
  | nil => exact requote_nil
  | cons c s ih =>
    rw [List.flatMap_cons, List.flatMap_cons, requote_escapeSingle_append, ih]
    intro u
    cases s with
    | nil => simp
    | cons d s => exact escapeSingle_append_ne d _ u

/-! ### Literals in quotes -/

variable {b : Text} {v : Value}

theorem jsonText?_single (raw : Text) :
    jsonText? ('\'' :: (raw ++ ['\''])) = some ('"' :: (requote raw ++ ['"'])) := by
  rw [jsonText?, List.isSuffixOf?_eq_some_iff_append_eq.2 rfl]
  rfl

theorem jsonText?_trim_single (raw : Text) :
    jsonText? (Text.trim ('\'' :: (raw ++ ['\'']))) = some ('"' :: (requote raw ++ ['"'])) := by
  rw [Text.trim_quoted (by decide), jsonText?_single]

theorem jsonText?_trim_double (b : Text) :
    jsonText? (Text.trim ('"' :: (b ++ ['"']))) = some ('"' :: (b ++ ['"'])) := by
  rw [Text.trim_quoted (by decide)]
  rfl

theorem decode_of_spells (hj : jsonText? t.trim = some ('"' :: (b ++ ['"'])))
    (h : SpellsString b s) : decode t = .ok (.string s) := by
  have hp := Json.Value.parse?_quoted.2 ⟨s, rfl, h⟩
  rw [decode, hj]
  simp only [hp]
  rfl

theorem decode_of_not_spells (hj : jsonText? t.trim = some ('"' :: (b ++ ['"'])))
    (h : ∀ s, ¬SpellsString b s) : decode t = .error (.notLiteral ('"' :: (b ++ ['"']))) := by
  have hp : Json.Value.parse? ('"' :: (b ++ ['"'])) = none := by
    rw [Option.eq_none_iff_forall_ne_some]
    intro j hj
    obtain ⟨s, -, hs⟩ := Json.Value.parse?_quoted.1 hj
    exact h s hs
  rw [decode, hj]
  simp only [hp]

theorem exists_of_decode (hj : jsonText? t.trim = some ('"' :: (b ++ ['"'])))
    (hv : decode t = .ok v) : ∃ s, v = .string s ∧ SpellsString b s := by
  by_cases h : ∃ s, SpellsString b s
  · obtain ⟨s, hs⟩ := h
    exact ⟨s, Except.ok.inj (hv.symm.trans (decode_of_spells hj hs)), hs⟩
  · rw [decode_of_not_spells hj (not_exists.1 h)] at hv
    contradiction

/-- A literal in single quotes that is read gives the one text that its inside spells, and every
text is read from the literal in single quotes that is written for it. -/
theorem decode_singleQuoted :
    (∀ t raw v, Text.trim t = '\'' :: (raw ++ ['\'']) → decode t = .ok v →
      ∃ s, v = .string s ∧ ∀ s', SpellsSingle raw s' ↔ s' = s) ∧
    ∀ s : Text, decode ('\'' :: (s.flatMap escapeSingle ++ ['\''])) = .ok (.string s) := by
  constructor
  · intro t raw v ht hv
    have hj : jsonText? t.trim = some ('"' :: (requote raw ++ ['"'])) := by
      rw [ht, jsonText?_single]
    obtain ⟨s, rfl, hs⟩ := exists_of_decode hj hv
    have hread : SpellsSingle raw s := spellsSingle_of_requote hs
    refine ⟨s, rfl, fun s' => ⟨fun hs' => hs'.unique hread, ?_⟩⟩
    rintro rfl
    exact hread
  · intro s
    apply decode_of_spells (b := s.flatMap escape)
    · rw [jsonText?_trim_single, requote_flatMap_escapeSingle]
    · exact Json.spells_flatMap_escape s

/-- A bare double quote, a single quote and a backslash that are escaped, and a surrogate pair. -/
theorem decode_singleQuoted_escapes :
    Text.trim " 'a\"\\'\\\\\\uD83D\\uDE00' ".toList =
        '\'' :: ("a\"\\'\\\\\\uD83D\\uDE00".toList ++ ['\'']) ∧
      decode " 'a\"\\'\\\\\\uD83D\\uDE00' ".toList = .ok (.string "a\"'\\😀".toList) ∧
      ∃ s, Value.string "a\"'\\😀".toList = .string s ∧
        ∀ s', SpellsSingle "a\"\\'\\\\\\uD83D\\uDE00".toList s' ↔ s' = s := by
  have ht : Text.trim " 'a\"\\'\\\\\\uD83D\\uDE00' ".toList =
      '\'' :: ("a\"\\'\\\\\\uD83D\\uDE00".toList ++ ['\'']) := by decide +kernel
  have hv : decode " 'a\"\\'\\\\\\uD83D\\uDE00' ".toList =
      .ok (.string "a\"'\\😀".toList) := by decide +kernel
  exact ⟨ht, hv, decode_singleQuoted.1 _ _ _ ht hv⟩

/-! ### The same inside in both quotes -/

theorem quoted_append_of_inert {w : Text} (hw : w.all isInert) (h : Quoted '"' t) :
    Quoted '"' (w ++ t) := by
  induction w with
  | nil => exact h
  | cons c w ih =>
    rw [List.all_cons, Bool.and_eq_true] at hw
    obtain ⟨hquote, hbackslash, -⟩ := isInert_iff.1 hw.1
    exact .char hquote hbackslash (ih hw.2)

/-- In a JSON string each double quote comes after the backslash that takes it. -/
theorem quoted_of_spells (h : SpellsString t s) : Quoted '"' t := by
  have hunit {a b c d : Char} {n : Nat} {t : Text} (hn : unit? a b c d = some n)
      (h : Quoted '"' t) : Quoted '"' ('\\' :: 'u' :: a :: b :: c :: d :: t) := by
    have hdigits := isInert_of_unit? hn
    rw [List.all_cons, Bool.and_eq_true] at hdigits
    exact .escape 'u' (quoted_append_of_inert hdigits.2 h)
  induction h with
  | nil => exact .nil
  | self hc _ ih => exact .char hc.1 hc.2.1 ih
  | short _ _ ih => exact .escape _ ih
  | unit hn _ _ _ ih => exact hunit hn ih
  | pair hn hm _ _ _ ih => exact hunit hn (hunit hm ih)

theorem ne_cons_of_not_mem (h : c ∉ t) (u : Text) : t ≠ c :: u := by
  rintro rfl
  exact h List.mem_cons_self

theorem requote_eq_self (hd : '"' ∉ b) (hs : '\'' ∉ b) : requote b = b := by
  induction b with
  | nil => rfl
  | cons c t ih =>
    have hc : c ≠ '"' := (List.ne_of_not_mem_cons hd).symm
    have hs : '\'' ∉ t := List.not_mem_of_not_mem_cons hs
    rw [requote_cons hc fun _ => ne_cons_of_not_mem hs, ih (List.not_mem_of_not_mem_cons hd) hs]

/-- An escaped double quote gets a backslash that takes its own, and so it ends the string. -/
theorem not_quoted_requote (h : Quoted '"' b) (hs : '\'' ∉ b) (hd : '"' ∈ b) :
    ¬Quoted '"' (requote b) := by
  induction h with
  | nil => contradiction
  | @char c t hquote hbackslash _ ih =>
    have hs : '\'' ∉ t := List.not_mem_of_not_mem_cons hs
    have hd : '"' ∈ t := (List.mem_cons.1 hd).resolve_left (Ne.symm hquote)
    rw [requote_cons hquote fun _ => ne_cons_of_not_mem hs]
    exact fun h => ih hs hd (h.of_cons hbackslash)
  | @escape t c _ ih =>
    have hs : '\'' ∉ c :: t := List.not_mem_of_not_mem_cons hs
    rw [requote_backslash (ne_cons_of_not_mem hs)]
    by_cases hc : c = '"'
    · rw [hc, requote_quote]
      exact fun h => h.of_escape.head_ne (by decide) rfl
    · have hs : '\'' ∉ t := List.not_mem_of_not_mem_cons hs
      have hd : '"' ∈ t := by
        simpa [Ne.symm hc] using hd
      rw [requote_cons hc fun _ => ne_cons_of_not_mem hs]
      exact fun h => ih hs hd h.of_escape

/-- A literal without single quotes inside that is read in double quotes is read in single quotes
with the same value, unless it has an escaped double quote: then it is not read. -/
theorem decode_single_of_double (hs : '\'' ∉ b) (hv : decode ('"' :: (b ++ ['"'])) = .ok v) :
    decode ('\'' :: (b ++ ['\''])) =
      if '"' ∈ b then .error (.notLiteral ('"' :: (requote b ++ ['"']))) else .ok v := by
  obtain ⟨s, rfl, hb⟩ := exists_of_decode (jsonText?_trim_double b) hv
  split_ifs with hd
  · apply decode_of_not_spells (jsonText?_trim_single b)
    intro s' hs'
    exact not_quoted_requote (quoted_of_spells hb) hs hd (quoted_of_spells hs')
  · have hsingle := jsonText?_trim_single b
    rw [requote_eq_self hd hs] at hsingle
    exact decode_of_spells hsingle hb

/-- An escaped backslash and a code point have the same meaning in both quotes. -/
theorem decode_single_of_double_backslash :
    '\'' ∉ "C:\\\\temp\\u00e9".toList ∧
      decode "\"C:\\\\temp\\u00e9\"".toList = .ok (.string "C:\\tempé".toList) ∧
      decode "'C:\\\\temp\\u00e9'".toList = .ok (.string "C:\\tempé".toList) := by
  have hs : '\'' ∉ "C:\\\\temp\\u00e9".toList := by decide
  have hv : decode "\"C:\\\\temp\\u00e9\"".toList = .ok (.string "C:\\tempé".toList) := by
    decide +kernel
  exact ⟨hs, hv, (decode_single_of_double hs hv).trans (if_neg (by decide))⟩

/-- An escaped double quote is read in double quotes, but refused in single quotes. -/
theorem decode_single_of_double_escaped :
    decode "\"\\\"\"".toList = .ok (.string "\"".toList) ∧
      decode "'\\\"'".toList = .error (.notLiteral "\"\\\\\"\"".toList) := by
  decide +kernel

end Value

end AssemblyInfo
