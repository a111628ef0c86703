import AssemblyInfo.Fragment
import AssemblyInfo.Name
import AssemblyInfo.Declaration.Basic
import AssemblyInfo.Proofs.Declaration.CSharp
import AssemblyInfo.Proofs.Declaration.JScript
import AssemblyInfo.Proofs.Literal

/-! Declarations as they are written for a new value are read back, whatever follows them: as the
same declaration, with the same name and value. In C# the literal must not hold a closing
parenthesis, which would end the arguments. In JScript the literal is a quoted string or holds
neither quotes nor brackets, so that the reader of bodies and the reader of calls both pass it. -/

namespace AssemblyInfo

namespace Text

/-- The characters that mean something to the readers of bodies and calls. -/
def marks : List Char := ['\n', '(', '[', '\x7b', ')', ']', '\x7d', ',', '"', '\'']

/-- A text leads from one place to another, in or out of quotes, without a line feed, and without
brackets and commas outside of quotes. -/
inductive Passes : Quoting → Text → Quoting → Prop where
  | nil (q : Quoting) : Passes q [] q
  | cons {q q' : Quoting} {c : Char} {t : Text} (newline : c ≠ '\n')
      (outside : q = .outside → ¬Call.isOpening c ∧ ¬Call.isClosing c ∧ c ≠ ',')
      (rest : Passes (q.next c) t q') : Passes q (c :: t) q'

namespace Passes

variable {q q' q'' : Quoting} {s t : Text}

theorem append (hs : Passes q s q') (ht : Passes q' t q'') : Passes q (s ++ t) q'' := by
  induction hs with
  | nil => exact ht
  | cons hn ho _ ih => exact .cons hn ho (ih ht)

theorem of_not_marks (h : ∀ c ∈ t, c ∉ marks) : Passes .outside t .outside := by
  induction t with
  | nil => exact .nil _
  | cons c t ih =>
    have hc := h c List.mem_cons_self
    simp only [marks, List.mem_cons, List.not_mem_nil, or_false, not_or] at hc
    have hq : ¬isQuote c := by simp [isQuote, hc]
    refine .cons hc.1 (fun _ => by simp [Call.isOpening, Call.isClosing, hc]) ?_
    rw [Quoting.next, if_neg hq]
    exact ih fun d hd => h d (List.mem_cons_of_mem c hd)

/-- Characters other than quotes, backslashes and line feeds stay in double quotes. -/
theorem inside_of_plain (h : ∀ c ∈ t, c ≠ '\n' ∧ c ≠ '\\' ∧ c ≠ '"') :
    Passes (.inside '"') t (.inside '"') := by
  induction t with
  | nil => exact .nil _
  | cons c t ih =>
    obtain ⟨h₁, h₂, h₃⟩ := h c List.mem_cons_self
    refine .cons h₁ (by simp) ?_
    rw [Quoting.next, if_neg h₂, if_neg h₃]
    exact ih fun d hd => h d (List.mem_cons_of_mem c hd)

theorem inside_of_backslash {e : Char} (he : e ≠ '\n') :
    Passes (.inside '"') ['\\', e] (.inside '"') :=
  .cons (by decide) (by simp) (.cons he (by simp [Quoting.next]) (.nil _))

/-- The escape of a character stays in double quotes. -/
theorem escape (c : Char) : Passes (.inside '"') (Json.escape c) (.inside '"') := by
  unfold Json.escape
  split_ifs with h₁ h₂ h₃ h₄ h₅ h₆ h₇ h₈
  · exact inside_of_backslash (by decide)
  · exact inside_of_backslash (by decide)
  · exact inside_of_backslash (by decide)
  · exact inside_of_backslash (by decide)
  · exact inside_of_backslash (by decide)
  · exact inside_of_backslash (by decide)
  · exact inside_of_backslash (by decide)
  · have hu : Passes (.inside '"') ['\\', 'u'] (.inside '"') := inside_of_backslash (by decide)
    have hd : ∀ n : Nat, n.digitChar ≠ '\n' ∧ n.digitChar ≠ '\\' ∧ n.digitChar ≠ '"' := by simp
    refine hu.append (inside_of_plain ?_)
    simp [hd]
  · apply inside_of_plain
    simp [h₁, h₂, h₅]

theorem quote (t : Text) : Passes .outside (Json.quote t) .outside := by
  have hin : Passes (.inside '"') (t.flatMap Json.escape) (.inside '"') := by
    induction t with
    | nil => exact .nil _
    | cons c t ih => exact (escape c).append ih
  have hend : Passes (.inside '"') ['"'] .outside := .cons (by decide) (by simp) (.nil _)
  exact .cons (by decide) (by decide) (hin.append hend)

/-- Literals lead out of the quotes that they lead into. -/
theorem literal {v : Value} {literal : Text} (hv : v.isExact) (h : v.encode = .ok literal) :
    Passes .outside literal .outside := by
  rcases Value.literal_cases hv h with ⟨t, -, rfl⟩ | ⟨-, hp, -⟩
  · exact quote t
  · have hm : ∀ c ∈ marks, !Value.isPlainChar c := List.all_eq_true.1 (by decide)
    apply of_not_marks
    intro c hc hmark
    simpa [hp c hc] using hm c hmark

end Passes

end Text

open Text (Quoting Passes)

variable {q q' : Quoting} {s t : Text}

theorem Declaration.JScript.readBody?_cons {c : Char} {body rest : Text} (hn : c ≠ '\n')
    (ho : q = .outside → c ≠ ']') (h : readBody? (q.next c) t = some (body, rest)) :
    readBody? q (c :: t) = some (c :: body, rest) := by
  have hc : ¬(q = .outside ∧ c = ']') := by
    rintro ⟨hq, rfl⟩
    exact ho hq rfl
  rw [readBody?, if_neg hn, if_neg hc, h]
  split_ifs <;> rfl

theorem Declaration.JScript.readBody?_of_passes {body rest : Text} (hs : Passes q s q')
    (h : readBody? q' t = some (body, rest)) : readBody? q (s ++ t) = some (s ++ body, rest) := by
  induction hs with
  | nil => exact h
  | cons hn ho _ ih =>
    apply readBody?_cons hn _ (ih h)
    rintro hq rfl
    exact (ho hq).2.1 rfl

theorem Call.splitArguments?_of_passes {depth : Nat} {a : Text} {as : List Text} {rest : Text}
    (hs : Passes q s q') (h : splitArguments? depth q' t = some (a :: as, rest)) :
    splitArguments? depth q (s ++ t) = some ((s ++ a) :: as, rest) := by
  induction hs with
  | nil => exact h
  | @cons q q' c s hn ho _ ih =>
    rw [List.cons_append, splitArguments?]
    by_cases hq : q = .outside
    · obtain ⟨h₁, h₂, h₃⟩ := ho hq
      have h₄ : c ≠ ')' := by rintro rfl; exact h₂ rfl
      subst hq
      rw [if_neg (by simp), if_neg h₁, if_neg (by simp [h₄]), if_neg h₂, if_neg (by simp [h₃]),
        ih h]
      rfl
    · rw [if_pos hq, ih h]
      rfl

/-! ### Calls -/

namespace Call

/-- A name that a call can have. -/
structure IsCallee (name : Text) : Prop where
  ne_nil : name ≠ []
  isIdentifierChar : ∀ c ∈ name, Text.isIdentifierChar c
  start : ∀ c ∈ name.head?, ¬c.isDigit

theorem readArgument_written {literal : Text} (hp : Passes .outside literal .outside)
    (hne : literal ≠ []) (ht : literal.trim = literal) :
    readArgument ('(' :: (literal ++ [')'])) = .ok (some literal) := by
  have hs : Text.trimStart ('(' :: (literal ++ [')'])) = '(' :: (literal ++ [')']) := rfl
  have hclose : splitArguments? 0 .outside [')'] = some ([[]], []) := rfl
  have hsplit := splitArguments?_of_passes hp hclose
  have hargs : arguments [literal ++ []] = [literal] := by
    simp [arguments, ht, hne]
  rw [readArgument, hs]
  simp only [if_true, hsplit, hargs]
  rfl

/-- The body of a written declaration is a call of its name with its literal. -/
theorem parse_written {name literal : Text} (hn : IsCallee name)
    (hp : Passes .outside literal .outside) (hne : literal ≠ []) (ht : literal.trim = literal) :
    parse (' ' :: name ++ '(' :: literal ++ [')']) = .ok ⟨name, some literal⟩ := by
  obtain ⟨c, n, rfl⟩ := List.exists_cons_of_ne_nil hn.ne_nil
  have htrim : Text.trim (' ' :: (c :: n) ++ '(' :: literal ++ [')']) =
      (c :: n) ++ '(' :: (literal ++ [')']) := by
    simp only [List.cons_append, List.append_assoc]
    rw [Text.trim_cons_of_isBlank _ rfl]
    apply Text.trim_eq_self
    · rintro _ _ ⟨⟩
      exact Text.isBlank_of_isIdentifierChar (hn.isIdentifierChar c List.mem_cons_self)
    · intro t' d hd
      have hlast : (c :: (n ++ '(' :: literal)) ++ [')'] = t' ++ [d] := by simpa using hd
      cases (List.append_inj' hlast rfl).2
      decide
  have hspan := Text.span_run_cons (t := literal ++ [')']) hn.isIdentifierChar
    (by decide : Text.isIdentifierChar '(' = false)
  have hd : ¬c.isDigit := hn.start c rfl
  rw [parse, htrim]
  simp only [read, hspan, if_neg hd, readArgument_written hp hne ht]
  rfl

end Call

/-! ### Declarations -/

namespace Declaration

/-- The declaration to write for a name and a literal, by its parts. -/
def written (dialect : Dialect) (name literal : Text) : Declaration :=
  match dialect with
  | .csharp =>
    .csharp { afterBracket := [], afterKeyword := [], afterColon := [' '], name, afterName := [],
              arguments := literal, afterArguments := [] }
  | .jscript =>
    .jscript { afterBracket := [], afterKeyword := [],
               body := ' ' :: name ++ '(' :: literal ++ [')'] }

theorem text_written (dialect : Dialect) (name literal : Text) :
    (written dialect name literal).text = (Fragment.ofAttribute name literal).text := by
  have h : "[assembly: ".toList = '[' :: keyword ++ [':', ' '] := by decide
  cases dialect with
  | csharp => simp [text, written, CSharp.text, Fragment.ofAttribute, Fragment.text, h]
  | jscript => simp [text, written, JScript.text, Fragment.ofAttribute, Fragment.text, h]

/-- A name that a declaration can have. -/
def IsName (dialect : Dialect) (name : Text) : Prop :=
  match dialect with
  | .csharp => name ≠ [] ∧ ∀ c ∈ name, c.isAlphanum
  | .jscript => Call.IsCallee name

/-- A literal of a value that a declaration can hold: in C# it has no closing parenthesis. -/
structure Holds (dialect : Dialect) (value : Value) (literal : Text) : Prop where
  isExact : value.isExact
  encode_eq : value.encode = .ok literal
  parenthesis : dialect = .csharp → ')' ∉ literal

variable {dialect : Dialect} {name literal : Text} {value : Value}

theorem CSharp.wellFormed_written (hn : IsName .csharp name) (hl : Holds .csharp value literal) :
    CSharp.WellFormed ⟨[], [], [' '], name, [], literal, []⟩ := by
  have hargs : literal ≠ [] := Value.literal_ne_nil hl.isExact hl.encode_eq
  exact ⟨⟨by simp, by simp, by simp; decide, hn.1, hn.2, by simp, hl.parenthesis rfl⟩, hargs,
    by simp⟩

theorem CSharp.read?_written (hn : IsName .csharp name) (hl : Holds .csharp value literal)
    (rest : Text) :
    Declaration.read? .csharp ((written .csharp name literal).text ++ rest) =
      some (written .csharp name literal, rest) := by
  simp only [Declaration.read?, written, Declaration.text,
    read?_text_append (wellFormed_written hn hl), Option.map_some]

theorem JScript.readBody?_written (hn : Call.IsCallee name)
    (hp : Passes .outside literal .outside) (rest : Text) :
    readBody? .outside (' ' :: name ++ '(' :: literal ++ [')'] ++ ']' :: rest) =
      some (' ' :: name ++ '(' :: literal ++ [')'], rest) := by
  have hname : Passes .outside name .outside := by
    have hm : ∀ c ∈ Text.marks, !Text.isIdentifierChar c :=
      List.all_eq_true.1 (by decide +kernel)
    apply Passes.of_not_marks
    intro c hc hmark
    simpa [hn.isIdentifierChar c hc] using hm c hmark
  have hend : readBody? .outside (']' :: rest) = some ([], rest) := rfl
  have hclose := readBody?_cons (c := ')') (q := .outside) (by decide) (by simp) hend
  have hopen := readBody?_cons (c := '(') (q := .outside) (by decide) (by simp)
    (readBody?_of_passes hp hclose)
  have hspace := readBody?_cons (c := ' ') (q := .outside) (by decide) (by simp)
    (readBody?_of_passes hname hopen)
  simpa using hspace

/-- A declaration in brackets is read as it was written if its literal is passed over. -/
theorem JScript.read?_of_passes (hn : Call.IsCallee name) (hp : Passes .outside literal .outside)
    (rest : Text) :
    Declaration.read? .jscript ((written .jscript name literal).text ++ rest) =
      some (written .jscript name literal, rest) := by
  have hd := read?_text_append (d := ⟨[], [], ' ' :: name ++ '(' :: literal ++ [')']⟩) (by simp)
    (by simp) (readBody?_written hn hp rest)
  simp only [Declaration.read?, written, Declaration.text, hd, Option.map_some]

/-- It declares what its literal is read as. -/
theorem JScript.declared_of_decode (hn : Call.IsCallee name)
    (hp : Passes .outside literal .outside) (hne : literal ≠ []) (ht : literal.trim = literal)
    (hdecode : Value.decode literal = .ok value) :
    (written .jscript name literal).declared = .ok (name, value) := by
  simp only [written, declared, Call.parse_written hn hp hne ht]
  change (Value.decode literal).map _ = _
  rw [hdecode]
  rfl

theorem JScript.read?_written (hn : Call.IsCallee name) (hl : Holds .jscript value literal)
    (rest : Text) :
    Declaration.read? .jscript ((written .jscript name literal).text ++ rest) =
      some (written .jscript name literal, rest) :=
  read?_of_passes hn (Passes.literal hl.isExact hl.encode_eq) rest

theorem read?_written (hn : IsName dialect name) (hl : Holds dialect value literal) (rest : Text) :
    read? dialect ((written dialect name literal).text ++ rest) =
      some (written dialect name literal, rest) := by
  cases dialect with
  | csharp => exact CSharp.read?_written hn hl rest
  | jscript => exact JScript.read?_written hn hl rest

theorem declared_written (hn : IsName dialect name) (hl : Holds dialect value literal) :
    (written dialect name literal).declared = .ok (name, value) := by
  have hdecode := Value.decode_literal hl.isExact hl.encode_eq
  cases dialect with
  | csharp =>
    simp only [written, declared, hdecode]
    rfl
  | jscript =>
    exact JScript.declared_of_decode hn (Passes.literal hl.isExact hl.encode_eq)
      (Value.literal_ne_nil hl.isExact hl.encode_eq) (Value.trim_literal hl.isExact hl.encode_eq)
      hdecode

end Declaration

end AssemblyInfo
