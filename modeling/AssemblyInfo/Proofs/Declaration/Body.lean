import AssemblyInfo.Proofs.Declaration.Written
import AssemblyInfo.Proofs.Except

/-! Bodies of JScript declarations. A body is complete if it is made of whole quoted strings and of
characters other than quotes and closing brackets. The reader of bodies ends a body at the bracket
after a complete text, whatever follows it. Where there is no such bracket it still ends the body at
some bracket, but a string is then left open, and the reader of calls refuses the body. -/

namespace AssemblyInfo

namespace Text

/-- The inside of a quoted string. A backslash takes the next character with it, whatever it is. -/
inductive Quoted (q : Char) : Text → Prop where
  | nil : Quoted q []
  | char {c : Char} {t : Text} (quote : c ≠ q) (backslash : c ≠ '\\') (rest : Quoted q t) :
      Quoted q (c :: t)
  | escape {t : Text} (c : Char) (rest : Quoted q t) : Quoted q ('\\' :: c :: t)

/-- Whole quoted strings one after another, and between them characters of a class that are no
quotes. -/
inductive Tokens (p : Char → Prop) : Text → Prop where
  | nil : Tokens p []
  | char {c : Char} {t : Text} (quote : ¬isQuote c) (allowed : p c) (rest : Tokens p t) :
      Tokens p (c :: t)
  | string {q : Char} {s t : Text} (quote : isQuote q) (inside : Quoted q s) (rest : Tokens p t) :
      Tokens p (q :: (s ++ q :: t))

/-- All quoted strings of the text are closed. -/
def Closed (t : Text) : Prop := Tokens (fun _ => True) t

/-- All quoted strings are closed, and no closing bracket stands outside of them. -/
def Complete (t : Text) : Prop := Tokens (· ≠ ']') t

variable {p : Char → Prop} {q : Quoting} {s t u : Text} {c : Char}

theorem Complete.closed (h : Complete t) : Closed t := by
  induction h with
  | nil => exact .nil
  | char hq _ _ ih => exact .char hq trivial ih
  | string hq hs _ ih => exact .string hq hs ih

theorem Quoted.of_cons {q : Char} (h : Quoted q (c :: t)) (hc : c ≠ '\\') : Quoted q t := by
  cases h with
  | char _ _ h => exact h
  | escape => exact absurd rfl hc

theorem Quoted.of_escape {q : Char} (h : Quoted q ('\\' :: c :: t)) : Quoted q t := by
  cases h with
  | char _ hb => exact absurd rfl hb
  | escape _ h => exact h

theorem Quoted.head_ne {q : Char} (h : Quoted q (c :: t)) (hq : q ≠ '\\') : c ≠ q := by
  cases h with
  | char hc => exact hc
  | escape => exact hq.symm

/-- Up to its first closing bracket outside of strings, a closed text is complete. -/
theorem Closed.complete_or_first (h : Closed t) :
    Complete t ∨ ∃ a b, t = a ++ ']' :: b ∧ Complete a := by
  induction h with
  | nil => exact .inl .nil
  | @char c t hq _ _ ih =>
    by_cases hc : c = ']'
    · exact .inr ⟨[], t, by rw [hc]; rfl, .nil⟩
    · rcases ih with h | ⟨a, b, rfl, h⟩
      · exact .inl (.char hq hc h)
      · exact .inr ⟨c :: a, b, rfl, .char hq hc h⟩
  | @string q s t hq hs _ ih =>
    rcases ih with h | ⟨a, b, rfl, h⟩
    · exact .inl (.string hq hs h)
    · exact .inr ⟨q :: (s ++ q :: a), b, by simp, .string hq hs h⟩

/-! ### Places in and out of strings -/

/-- The place after a text. -/
def Quoting.run (q : Quoting) (t : Text) : Quoting := t.foldl (fun q c => q.next c) q

@[simp] theorem Quoting.run_nil (q : Quoting) : q.run [] = q := rfl

@[simp] theorem Quoting.run_cons (q : Quoting) (c : Char) (t : Text) :
    q.run (c :: t) = (q.next c).run t := rfl

@[simp] theorem Quoting.run_append (q : Quoting) (s t : Text) :
    q.run (s ++ t) = (q.run s).run t := List.foldl_append

theorem Quoting.next_outside (h : ¬isQuote c) : Quoting.outside.next c = .outside := by
  rw [next, if_neg h]

/-- Text without quotes stays out of strings. -/
theorem Quoting.run_outside (h : ∀ c ∈ t, ¬isQuote c) : Quoting.outside.run t = .outside := by
  induction t with
  | nil => rfl
  | cons c t ih =>
    rw [run_cons, next_outside (h c List.mem_cons_self)]
    exact ih fun d hd => h d (List.mem_cons_of_mem c hd)

theorem not_isQuote_of_class (p : Char → Bool) (hp : p '"' = false ∧ p '\'' = false) (hc : p c) :
    ¬isQuote c := by
  intro hq
  simp only [isQuote, Bool.or_eq_true, beq_iff_eq] at hq
  rcases hq with rfl | rfl
  · simp [hp.1] at hc
  · simp [hp.2] at hc

theorem run_of_isBlank (h : ∀ c ∈ t, isBlank c) : Quoting.outside.run t = .outside :=
  Quoting.run_outside fun c hc => not_isQuote_of_class isBlank (by decide) (h c hc)

theorem run_trimStart (t : Text) : Quoting.outside.run t = Quoting.outside.run t.trimStart := by
  conv_lhs => rw [← List.takeWhile_append_dropWhile (p := isBlank) (l := t)]
  rw [Quoting.run_append, run_of_isBlank fun _ => List.mem_takeWhile_imp]
  rfl

/-- Blanks around a text neither open nor close strings. -/
theorem run_of_run_trim (h : Quoting.outside.run t.trim = .outside) :
    Quoting.outside.run t = .outside := by
  have hblank : ∀ c ∈ t.trimStart.trailingBlanks, isBlank c := fun c hc =>
    List.mem_takeWhile_imp (List.mem_reverse.1 hc)
  rw [run_trimStart, ← trimEnd_append_trailingBlanks t.trimStart, Quoting.run_append]
  change (Quoting.outside.run t.trim).run _ = _
  rw [h, run_of_isBlank hblank]

/-- What has to follow a place so that the strings are closed. -/
def Closes (p : Char → Prop) : Quoting → Text → Prop
  | .outside, t => Tokens p t
  | .inside q, t => ∃ s u, t = s ++ q :: u ∧ Quoted q s ∧ Tokens p u
  | .escaped q, t => ∃ c s u, t = c :: (s ++ q :: u) ∧ Quoted q s ∧ Tokens p u

theorem Closes.cons (h : Closes p (q.next c) t) (hc : q = .outside → ¬isQuote c → p c) :
    Closes p q (c :: t) := by
  cases q with
  | outside =>
    by_cases hq : isQuote c
    · rw [Quoting.next, if_pos hq] at h
      obtain ⟨s, u, rfl, hs, hu⟩ := h
      exact .string hq hs hu
    · rw [Quoting.next_outside hq] at h
      exact .char hq (hc rfl hq) h
  | inside q =>
    rw [Quoting.next] at h
    split_ifs at h with hb hq
    · subst hb
      obtain ⟨d, s, u, rfl, hs, hu⟩ := h
      exact ⟨'\\' :: d :: s, u, rfl, .escape d hs, hu⟩
    · subst hq
      exact ⟨[], t, rfl, .nil, h⟩
    · obtain ⟨s, u, rfl, hs, hu⟩ := h
      exact ⟨c :: s, u, rfl, .char hq hb hs, hu⟩
  | escaped q =>
    obtain ⟨s, u, rfl, hs, hu⟩ := h
    exact ⟨c, s, u, rfl, hs, hu⟩

end Text

open Text (Quoting Tokens Quoted Closes Complete Closed)

variable {q : Quoting} {s t body rest : Text} {c : Char}

/-! ### The reader of bodies -/

namespace Declaration.JScript

theorem readPlain?_ne_none (h : ']' ∈ t) (hn : '\n' ∉ t) : readPlain? t ≠ none := by
  induction t with
  | nil => contradiction
  | cons c t ih =>
    simp only [List.mem_cons, not_or] at hn
    rw [readPlain?, if_neg (Ne.symm hn.1)]
    split_ifs with hc
    · simp
    · have ht : ']' ∈ t := (List.mem_cons.1 h).resolve_left (Ne.symm hc)
      simpa using ih ht hn.2

/-- A line with a closing bracket has a body. -/
theorem readBody?_ne_none (h : ']' ∈ t) (hn : '\n' ∉ t) : readBody? .outside t ≠ none := by
  induction t with
  | nil => contradiction
  | cons c t ih =>
    have hplain := readPlain?_ne_none h hn
    simp only [List.mem_cons, not_or] at hn
    rw [readBody?, if_neg (Ne.symm hn.1)]
    dsimp only
    split_ifs with hc hq
    · simp
    · rw [ne_eq, Option.or_eq_none_iff]
      exact fun hnone => hplain hnone.2
    · have hc : c ≠ ']' := fun hc' => hc ⟨rfl, hc'⟩
      have ht : ']' ∈ t := (List.mem_cons.1 h).resolve_left (Ne.symm hc)
      rw [Quoting.next_outside fun hq' => hq ⟨rfl, hq'⟩]
      simpa using ih ht hn.2

theorem readBody?_inside_append {quote : Char} (hq : Text.isQuote quote) (hs : Quoted quote s)
    (hn : '\n' ∉ s) (h : readBody? .outside t = some (body, rest)) :
    readBody? (.inside quote) (s ++ quote :: t) = some (s ++ quote :: body, rest) := by
  have hquote : quote ≠ '\n' ∧ quote ≠ '\\' := by
    constructor
    · rintro rfl
      contradiction
    · rintro rfl
      contradiction
  induction hs with
  | nil =>
    have hnext : Quoting.next quote (.inside quote) = .outside := by
      rw [Quoting.next, if_neg hquote.2, if_pos rfl]
    exact readBody?_cons (q := .inside quote) hquote.1 (by simp) (hnext ▸ h)
  | @char c s hc hb _ ih =>
    simp only [List.mem_cons, not_or] at hn
    have hnext : Quoting.next c (.inside quote) = .inside quote := by
      rw [Quoting.next, if_neg hb, if_neg hc]
    refine readBody?_cons (q := .inside quote) (Ne.symm hn.1) (by simp) ?_
    rw [hnext]
    exact ih hn.2
  | escape c _ ih =>
    simp only [List.mem_cons, not_or] at hn
    have hescaped := readBody?_cons (q := .escaped quote) (Ne.symm hn.2.1) (by simp) (ih hn.2.2)
    exact readBody?_cons (q := .inside quote) (c := '\\') (by decide) (by simp) hescaped

/-- The body ends at the bracket after a complete text, whatever follows. -/
theorem readBody?_of_complete (h : Complete body) (hn : '\n' ∉ body) (rest : Text) :
    readBody? .outside (body ++ ']' :: rest) = some (body, rest) := by
  induction h with
  | nil => rfl
  | @char c body hq hc _ ih =>
    simp only [List.mem_cons, not_or] at hn
    refine readBody?_cons (q := .outside) (Ne.symm hn.1) (fun _ => hc) ?_
    rw [Quoting.next_outside hq]
    exact ih hn.2
  | @string quote s body hq hs _ ih =>
    simp only [List.mem_cons, List.mem_append, not_or] at hn
    have hbracket : quote ≠ ']' := by
      rintro rfl
      contradiction
    have hnext : Quoting.outside.next quote = .inside quote := by
      rw [Quoting.next, if_pos hq]
    have hinside := readBody?_inside_append hq hs hn.2.1 (ih hn.2.2.2)
    rw [List.cons_append, List.append_assoc, List.cons_append]
    exact readBody?_cons (q := .outside) (Ne.symm hn.1) (fun _ => hbracket) (hnext ▸ hinside)

/-- A bracket that stands outside of strings is not passed over without an end of the body. -/
theorem readBody?_ne_none_of_run (h : q.run body = .outside) (hn : '\n' ∉ body) (rest : Text) :
    readBody? q (body ++ ']' :: rest) ≠ none := by
  induction body generalizing q with
  | nil =>
    rw [Quoting.run_nil] at h
    subst h
    simp [readBody?]
  | cons c body ih =>
    simp only [List.mem_cons, not_or] at hn
    have hlater := ih h hn.2
    rw [List.cons_append, readBody?, if_neg (Ne.symm hn.1)]
    dsimp only
    split_ifs with hc hq
    · simp
    · rw [ne_eq, Option.or_eq_none_iff, Option.map_eq_none_iff]
      exact fun hnone => hlater hnone.1
    · simpa using hlater

/-- A body that closes its strings was not read by falling back on the first bracket. -/
theorem closes_of_readBody? (h : readBody? q t = some (body, rest)) (hrun : q.run body = .outside)
    (hn : '\n' ∉ body) : Closes (· ≠ ']') q body := by
  induction t generalizing q body with
  | nil => contradiction
  | cons c t ih =>
    have later (hc : ¬(q = .outside ∧ c = ']'))
        (hl : (readBody? (q.next c) t).map (Prod.map (c :: ·) id) = some (body, rest)) :
        Closes (· ≠ ']') q body := by
      obtain ⟨b, rfl, hb⟩ := Text.exists_of_map_cons hl
      simp only [List.mem_cons, not_or] at hn
      exact (ih hb hrun hn.2).cons fun hq _ hbracket => hc ⟨hq, hbracket⟩
    rw [readBody?] at h
    dsimp only at h
    split_ifs at h with hc hb hq
    · obtain ⟨rfl, rfl⟩ := h
      rw [hb.1]
      exact .nil
    · rcases Option.or_eq_some_iff.1 h with hl | ⟨hnone, hp⟩
      · exact later hb hl
      · -- the fallback is taken only where no bracket closes the body after the strings
        have htext := append_of_readPlain? hp
        cases body with
        | nil =>
          obtain ⟨rfl, -⟩ := List.cons.inj htext
          exact absurd hq.2 (by decide)
        | cons d b =>
          obtain ⟨rfl, rfl⟩ := List.cons.inj htext
          simp only [List.mem_cons, not_or] at hn
          exact absurd (Option.map_eq_none_iff.1 hnone)
            (readBody?_ne_none_of_run (q := q.next d) hrun hn.2 rest)
    · exact later hb h

theorem complete_of_readBody? (h : readBody? .outside t = some (body, rest))
    (hrun : Quoting.outside.run body = .outside) (hn : '\n' ∉ body) : Complete body :=
  closes_of_readBody? h hrun hn

end Declaration.JScript

/-! ### The reader of calls -/

namespace Call

/-- The argument list of a call ends out of strings. -/
theorem run_of_splitArguments? {depth : Nat} {pieces : List Text}
    (h : splitArguments? depth q t = some (pieces, rest)) :
    ∃ s, t = s ++ ')' :: rest ∧ q.run s = .outside := by
  induction t generalizing depth q pieces with
  | nil => contradiction
  | cons c t ih =>
    have later {depth' : Nat} {q' : Quoting} {f : List Text × Text → List Text × Text}
        (hf : ∀ r, (f r).2 = r.2) (hq : q.next c = q')
        (hl : (splitArguments? depth' q' t).map f = some (pieces, rest)) :
        ∃ s, c :: t = s ++ ')' :: rest ∧ q.run s = .outside := by
      obtain ⟨⟨as, r⟩, ha, he⟩ := Option.map_eq_some_iff.1 hl
      obtain rfl : r = rest := (hf (as, r)).symm.trans (congrArg Prod.snd he)
      obtain ⟨s, rfl, hs⟩ := ih ha
      exact ⟨c :: s, rfl, by rw [Quoting.run_cons, hq, hs]⟩
    have hadd : ∀ r, (addChar c r).2 = r.2 := by
      rintro ⟨_ | ⟨a, as⟩, r⟩
      · rfl
      · rfl
    have houtside (hq : ¬q ≠ .outside) (hc : ¬Text.isQuote c) : q.next c = .outside := by
      rw [not_not.1 hq]
      exact Quoting.next_outside hc
    rw [splitArguments?] at h
    split_ifs at h with hq hopen hend hclose hdepth hcomma
    · exact later hadd rfl h
    · exact later hadd (houtside hq (Text.not_isQuote_of_class isOpening (by decide) hopen)) h
    · obtain ⟨rfl, rfl⟩ := h
      exact ⟨[], by rw [hend.1]; rfl, not_not.1 hq⟩
    · exact later hadd (houtside hq (Text.not_isQuote_of_class isClosing (by decide) hclose)) h
    · have hc : ¬Text.isQuote c := by
        rw [hcomma.1]
        decide
      exact later (f := fun r => ([] :: r.1, r.2)) (fun _ => rfl) (houtside hq hc) h
    · exact later hadd rfl h

theorem run_of_readArgument {argument : Option Text} (h : readArgument t = .ok argument) :
    Quoting.outside.run t = .outside := by
  rw [Text.run_trimStart]
  rw [readArgument] at h
  split at h
  · next ht => rw [ht, Quoting.run_nil]
  · next c u ht =>
    split_ifs at h with hc
    split at h
    · contradiction
    · next pieces rest hs =>
      split_ifs at h with hrest
      obtain ⟨s, rfl, hrun⟩ := run_of_splitArguments? hs
      have hblank : Quoting.outside.run rest = .outside := by
        apply Text.run_of_run_trim
        rw [not_not.1 hrest, Quoting.run_nil]
      have hopen : Quoting.outside.next '(' = .outside := rfl
      have hclose : Quoting.outside.next ')' = .outside := rfl
      rw [ht, hc, Quoting.run_cons, hopen, Quoting.run_append, hrun, Quoting.run_cons, hclose,
        hblank]

/-- A text that is a call leaves no string open. -/
theorem run_of_parse {call : Call} (h : parse body = .ok call) :
    Quoting.outside.run body = .outside := by
  apply Text.run_of_run_trim
  obtain ⟨t, ht⟩ : ∃ t, t = body.trim := ⟨_, rfl⟩
  rw [parse, ← ht] at h
  rw [← ht]
  have hread := Except.mapError_eq_ok_iff.1 h
  rw [read] at hread
  split at hread
  · contradiction
  · split_ifs at hread
    obtain ⟨argument, ha, -⟩ := Except.map_eq_ok_iff.1 hread
    have hcallee : Quoting.outside.run (t.takeWhile Text.isIdentifierChar) = .outside :=
      Quoting.run_outside fun c hc =>
        Text.not_isQuote_of_class Text.isIdentifierChar (by decide +kernel)
          (List.mem_takeWhile_imp hc)
    rw [← List.takeWhile_append_dropWhile (p := Text.isIdentifierChar) (l := t),
      Quoting.run_append, hcallee, run_of_readArgument ha]

/-- A text that leaves a string open is not a call. -/
theorem exists_malformed_of_run (h : Quoting.outside.run body ≠ .outside) :
    ∃ fault, parse body = .error (.malformed body.trim fault) := by
  cases hread : read body.trim with
  | error fault => exact ⟨fault, by rw [parse, hread]; rfl⟩
  | ok call =>
    have hparse : parse body = .ok call := by rw [parse, hread]; rfl
    exact absurd (run_of_parse hparse) h

end Call

end AssemblyInfo
