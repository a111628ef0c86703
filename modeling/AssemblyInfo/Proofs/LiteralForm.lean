import AssemblyInfo.Proofs.Except
import AssemblyInfo.Proofs.Text
import AssemblyInfo.Text.Quoting
import AssemblyInfo.Value

/-! The form of literals. A text that is read as a value, without the blanks around it, is either in
quotes or made of the few characters that words and numbers are written with. No other sign can
stand at its end or outside of quotes. -/

namespace AssemblyInfo

namespace Json

/-- A character of a word or a number. -/
def isBare (c : Char) : Bool := c.isAlphanum || c == '-' || c == '+' || c == '.'

/-- Nothing but a word or a number is taken from the text, and the rest is left. -/
def Takes (t rest : Text) : Prop := ∃ u, t = u ++ rest ∧ ∀ c ∈ u, isBare c

variable {t u rest : Text}

theorem Takes.refl (t : Text) : Takes t t := ⟨[], rfl, by simp⟩

theorem Takes.cons {c : Char} (hc : isBare c) (h : Takes t rest) : Takes (c :: t) rest := by
  obtain ⟨u, rfl, hu⟩ := h
  exact ⟨c :: u, rfl, List.forall_mem_cons.2 ⟨hc, hu⟩⟩

theorem Takes.trans (h : Takes t u) (h' : Takes u rest) : Takes t rest := by
  obtain ⟨a, rfl, ha⟩ := h
  obtain ⟨b, rfl, hb⟩ := h'
  refine ⟨a ++ b, by simp, ?_⟩
  intro c hc
  exact (List.mem_append.1 hc).elim (ha c) (hb c)

/-! ### Words and numbers -/

theorem takes_of_isPrefixOf? {word : Text} (h : word.isPrefixOf? t = some rest)
    (hw : word.all isBare) : Takes t rest :=
  ⟨word, Text.eq_append_of_isPrefixOf? h, List.all_eq_true.1 hw⟩

namespace Numeral

variable {digits : Text}

theorem takes_of_readDigits? (h : readDigits? t = some (digits, rest)) : Takes t rest := by
  rw [readDigits?] at h
  split_ifs at h
  cases h
  refine ⟨t.takeWhile Char.isDigit, List.takeWhile_append_dropWhile.symm, ?_⟩
  intro c hc
  have hd : c.isDigit := List.mem_takeWhile_imp hc
  simp [isBare, Char.isAlphanum, hd]

theorem takes_of_readWhole? (h : readWhole? t = some (digits, rest)) : Takes t rest := by
  rw [readWhole?] at h
  obtain ⟨⟨ds, r⟩, hd, h⟩ := Option.bind_eq_some_iff.1 h
  dsimp only at h
  split_ifs at h
  cases h
  exact takes_of_readDigits? hd

theorem takes_of_readFraction? {fraction : Option Text}
    (h : readFraction? t = some (fraction, rest)) : Takes t rest := by
  rw [readFraction?.eq_def] at h
  split at h
  · obtain ⟨⟨ds, r⟩, hd, he⟩ := Option.map_eq_some_iff.1 h
    cases he
    exact (takes_of_readDigits? hd).cons (by decide)
  · cases h
    exact .refl t

theorem takes_readSign (t : Text) : Takes t (readSign t).2 := by
  rw [readSign.eq_def]
  split
  · exact (Takes.refl _).cons (by decide)
  · exact (Takes.refl _).cons (by decide)
  · exact .refl t

theorem takes_of_readExponent? {exponent : Option (Bool × Text)}
    (h : readExponent? t = some (exponent, rest)) : Takes t rest := by
  cases t with
  | nil =>
    cases h
    exact .refl []
  | cons c t =>
    rw [readExponent?] at h
    split_ifs at h with hc
    · obtain ⟨⟨ds, r⟩, hd, he⟩ := Option.map_eq_some_iff.1 h
      cases he
      have hbare : isBare c := by
        rcases hc with rfl | rfl
        · decide
        · decide
      exact ((takes_readSign t).trans (takes_of_readDigits? hd)).cons hbare
    · cases h
      exact .refl _

theorem takes_of_read? {n : Numeral} (h : read? t = some (n, rest)) : Takes t rest := by
  have hunsigned {negative : Bool} {t : Text} (h : ((readWhole? t).bind fun whole =>
      (readFraction? whole.2).bind fun fraction => (readExponent? fraction.2).bind fun exponent =>
        some (Numeral.mk negative whole.1 fraction.1 exponent.1, exponent.2)) = some (n, rest)) :
      Takes t rest := by
    obtain ⟨⟨whole, t₁⟩, h₁, h⟩ := Option.bind_eq_some_iff.1 h
    obtain ⟨⟨fraction, t₂⟩, h₂, h⟩ := Option.bind_eq_some_iff.1 h
    obtain ⟨⟨exponent, t₃⟩, h₃, h⟩ := Option.bind_eq_some_iff.1 h
    cases h
    exact ((takes_of_readWhole? h₁).trans (takes_of_readFraction? h₂)).trans
      (takes_of_readExponent? h₃)
  unfold read? at h
  dsimp only at h
  split at h
  · exact (hunsigned h).cons (by decide)
  · exact hunsigned h

end Numeral

/-! ### Strings -/

/-- A string is closed by a quote. -/
theorem exists_of_readPieces? {pieces : List Piece} (h : readPieces? t = some (pieces, rest)) :
    ∃ u, t = u ++ '"' :: rest := by
  fun_induction readPieces? t generalizing pieces with
  | case1 => contradiction
  | case2 t =>
    cases h
    exact ⟨[], rfl⟩
  | case3 h₁ h₂ h₃ h₄ t hq ih =>
    obtain ⟨n, -, h⟩ := Option.bind_eq_some_iff.1 h
    obtain ⟨ps, -, hps⟩ := Text.exists_of_map_cons h
    obtain ⟨u, rfl⟩ := ih hps
    exact ⟨'\\' :: 'u' :: h₁ :: h₂ :: h₃ :: h₄ :: u, rfl⟩
  | case4 e t hne hq ih =>
    obtain ⟨c, -, h⟩ := Option.bind_eq_some_iff.1 h
    obtain ⟨ps, -, hps⟩ := Text.exists_of_map_cons h
    obtain ⟨u, rfl⟩ := ih hps
    exact ⟨'\\' :: e :: u, rfl⟩
  | case5 => contradiction
  | case6 => contradiction
  | case7 c t hq hb hc ih =>
    obtain ⟨ps, -, hps⟩ := Text.exists_of_map_cons h
    obtain ⟨u, rfl⟩ := ih hps
    exact ⟨c :: u, rfl⟩

/-! ### Values -/

/-- A string in quotes, a word or a number. -/
def Literal (t : Text) : Prop :=
  (∃ q u, Text.isQuote q ∧ t = q :: (u ++ [q])) ∨ ∀ c ∈ t, isBare c

/-- A literal with blanks around it or not. -/
def HoldsLiteral (t : Text) : Prop :=
  ∃ before u after, t = before ++ (u ++ after) ∧ (∀ c ∈ before, Text.isBlank c) ∧
    (∀ c ∈ after, Text.isBlank c) ∧ Literal u

theorem HoldsLiteral.blanks {a b : Text} (h : HoldsLiteral t) (ha : ∀ c ∈ a, Text.isBlank c)
    (hb : ∀ c ∈ b, Text.isBlank c) : HoldsLiteral (a ++ (t ++ b)) := by
  obtain ⟨before, u, after, rfl, hbefore, hafter, hu⟩ := h
  refine ⟨a ++ before, u, after ++ b, by simp, ?_, ?_, hu⟩
  · intro c hc
    exact (List.mem_append.1 hc).elim (ha c) (hbefore c)
  · intro c hc
    exact (List.mem_append.1 hc).elim (hafter c) (hb c)

namespace Shape

theorem isBlank_of_isBlank {c : Char} (h : isBlank c) : Text.isBlank c := by
  simp only [isBlank, Bool.or_eq_true, beq_iff_eq] at h
  rcases h with ((rfl | rfl) | rfl) | rfl
  · decide
  · decide
  · decide
  · decide

/-- A shape without parts. -/
def IsScalar : Shape → Prop
  | .array _ | .object _ => False
  | _ => True

theorem exists_literal_of_read? {bound : Nat} {s : Shape} (hs : s.IsScalar)
    (h : read? bound t = some (s, rest)) : ∃ u, skipBlanks t = u ++ rest ∧ Literal u := by
  have hbare {t : Text} (ht : Takes t rest) : ∃ u, t = u ++ rest ∧ Literal u := by
    obtain ⟨u, rfl, hu⟩ := ht
    exact ⟨u, rfl, .inr hu⟩
  have hword {word u : Text} {x : Shape} {c : Char} (hc : isBare c) (hw : word.all isBare)
      (hu : (word.isPrefixOf? u).map (fun t => (x, t)) = some (s, rest)) :
      ∃ v, c :: u = v ++ rest ∧ Literal v := by
    obtain ⟨r, hr, he⟩ := Option.map_eq_some_iff.1 hu
    cases he
    exact hbare ((takes_of_isPrefixOf? hr hw).cons hc)
  cases bound with
  | zero => contradiction
  | succ bound =>
    rw [read?] at h
    generalize skipBlanks t = t at h
    split at h
    · exact hword (by decide) (by decide) h
    · exact hword (by decide) (by decide) h
    · exact hword (by decide) (by decide) h
    · next t =>
      obtain ⟨⟨pieces, r⟩, hr, he⟩ := Option.map_eq_some_iff.1 h
      cases he
      obtain ⟨u, rfl⟩ := exists_of_readPieces? hr
      exact ⟨'"' :: (u ++ ['"']), by simp, .inl ⟨'"', u, by decide, rfl⟩⟩
    · obtain ⟨r, -, he⟩ := Option.map_eq_some_iff.1 h
      cases he
      exact hs.elim
    · obtain ⟨r, -, he⟩ := Option.map_eq_some_iff.1 h
      cases he
      exact hs.elim
    · obtain ⟨⟨n, r⟩, hr, he⟩ := Option.map_eq_some_iff.1 h
      cases he
      exact hbare (Numeral.takes_of_read? hr)

theorem holdsLiteral_of_parse? {s : Shape} (hs : s.IsScalar) (h : parse? t = some s) :
    HoldsLiteral t := by
  rw [parse?] at h
  split at h
  · next s' rest hread =>
    split_ifs at h with hrest
    cases h
    obtain ⟨u, hu, hl⟩ := exists_literal_of_read? hs hread
    have hsplit : t = t.takeWhile isBlank ++ (u ++ rest) := by
      rw [← hu]
      exact List.takeWhile_append_dropWhile.symm
    refine ⟨t.takeWhile isBlank, u, rest, hsplit, ?_, ?_, hl⟩
    · intro c hc
      exact isBlank_of_isBlank (List.mem_takeWhile_imp hc)
    · intro c hc
      exact isBlank_of_isBlank (List.dropWhile_eq_nil_iff.1 hrest c hc)
  · contradiction

/-- Only a shape without parts gives an attribute value. -/
theorem isScalar_of_ofJson {depth : Nat} {s : Shape} {j : Json.Value} {v : AssemblyInfo.Value}
    (hj : s.value? depth = some j) (hv : AssemblyInfo.Value.ofJson j = .ok v) : s.IsScalar := by
  cases s with
  | array items =>
    rw [value?] at hj
    split_ifs at hj
    obtain ⟨vs, -, rfl⟩ := Option.map_eq_some_iff.1 hj
    contradiction
  | object members =>
    rw [value?] at hj
    split_ifs at hj
    obtain ⟨vs, -, rfl⟩ := Option.map_eq_some_iff.1 hj
    contradiction
  | _ => trivial

end Shape

end Json

namespace Value

open Json (HoldsLiteral)

variable {t : Text} {v : Value}

theorem holdsLiteral_of_jsonText? {json : Text} (hjson : jsonText? t = some json)
    (h : HoldsLiteral json) : HoldsLiteral t := by
  rw [jsonText?.eq_def] at hjson
  split at hjson
  · next t =>
    obtain ⟨raw, hraw, -⟩ := Option.map_eq_some_iff.1 hjson
    obtain rfl := List.isSuffixOf?_eq_some_iff_append_eq.1 hraw
    exact ⟨[], '\'' :: (raw ++ ['\'']), [], by simp, by simp, by simp,
      .inl ⟨'\'', raw, by decide, rfl⟩⟩
  · cases hjson
    exact h

/-- What is read as a value is a literal. -/
theorem holdsLiteral_of_decode (h : decode t = .ok v) : HoldsLiteral t := by
  have htrim : HoldsLiteral t.trim := by
    rw [decode] at h
    split at h
    · contradiction
    · next json hjson =>
      split at h
      · contradiction
      · next j hj =>
        split at h
        · next v' hv =>
          obtain ⟨s, hs, hvalue⟩ := Option.bind_eq_some_iff.1 hj
          have hscalar := Json.Shape.isScalar_of_ofJson hvalue hv
          exact holdsLiteral_of_jsonText? hjson (Json.Shape.holdsLiteral_of_parse? hscalar hs)
        · contradiction
  have hsplit : t = t.takeWhile Text.isBlank ++ (t.trim ++ t.trimStart.trailingBlanks) := by
    rw [Text.trim, Text.trimEnd_append_trailingBlanks]
    exact List.takeWhile_append_dropWhile.symm
  rw [hsplit]
  apply htrim.blanks
  · exact fun _ => List.mem_takeWhile_imp
  · exact fun c hc => List.mem_takeWhile_imp (List.mem_reverse.1 hc)

/-- A text with a parenthesis that ends with neither a blank nor a quote is no literal. -/
theorem decode_ne_ok_of_parenthesis {c : Char} (hp : '(' ∈ t) (hb : Text.isBlank c = false)
    (hq : ¬Text.isQuote c) : decode (t ++ [c]) ≠ .ok v := by
  intro h
  obtain ⟨before, u, after, hsplit, hbefore, hafter, hu⟩ := holdsLiteral_of_decode h
  obtain rfl : after = [] := by
    rcases List.eq_nil_or_concat' after with hnil | ⟨after, d, rfl⟩
    · exact hnil
    · rw [← List.append_assoc, ← List.append_assoc] at hsplit
      obtain rfl := List.singleton_inj.1 (List.append_inj' hsplit rfl).2
      rw [hafter c (by simp)] at hb
      contradiction
  rw [List.append_nil] at hsplit
  rcases hu with ⟨q, w, hquote, rfl⟩ | hbare
  · rw [← List.cons_append, ← List.append_assoc] at hsplit
    obtain rfl := List.singleton_inj.1 (List.append_inj' hsplit rfl).2
    exact hq hquote
  · have hmem : '(' ∈ before ++ u := by
      rw [← hsplit]
      exact List.mem_append_left _ hp
    rcases List.mem_append.1 hmem with hmem | hmem
    · exact absurd (hbefore _ hmem) (by decide)
    · exact absurd (hbare _ hmem) (by decide)

end Value

end AssemblyInfo
