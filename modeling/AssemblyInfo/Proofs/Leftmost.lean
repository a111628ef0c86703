import AssemblyInfo.Proofs.Scan

/-! C# sources are scanned from left to right. From each place, the first line start where a
declaration begins counts, and the scan goes on from the end of that declaration, which may be some
lines further on. A line start where the grammar fails hides nothing that starts on a later line. At
each line start the grammar leaves one choice at most. -/

namespace AssemblyInfo.Declaration.CSharp

open Segment (readIndented?)
open Text (LineStart)

/-- The text begins with an indented declaration, and `rest` follows it. -/
structure Begins (t indent : Text) (d : CSharp) (rest : Text) : Prop where
  blank : ∀ c ∈ indent, Text.isSpaceOrTab c
  wellFormed : d.WellFormed
  text_eq : t = indent ++ (d.text ++ rest)

/-- No declaration begins with the text. -/
def Fails (t : Text) : Prop := ∀ indent d rest, ¬Begins t indent d rest

/-- No declaration begins at a line start in the text `skipped`, which follows `past` and is followed
by `t`. -/
def Clear (past skipped t : Text) : Prop :=
  ∀ a u, skipped ++ t = a ++ u → a.length < skipped.length → LineStart (past ++ a) → Fails u

/-- The declarations that are found in a text that follows `past`, each with the byte offset of its
bracket. -/
inductive Picks : (past t : Text) → List (Nat × CSharp) → Prop where
  /-- No declaration begins at any line start. -/
  | done {past t : Text} (fails : ∀ a u, t = a ++ u → LineStart (past ++ a) → Fails u) :
      Picks past t []
  /-- The first line start where a declaration begins, and the rest from its end. -/
  | next {past t skipped u indent rest : Text} {d : CSharp} {ds : List (Nat × CSharp)}
      (text_eq : t = skipped ++ u) (line : LineStart (past ++ skipped))
      (begins : Begins u indent d rest) (clear : Clear past skipped u)
      (later : Picks (past ++ (skipped ++ (indent ++ d.text))) rest ds) :
      Picks past t ((Text.byteSize (past ++ (skipped ++ indent)), d) :: ds)

variable {past skipped t u l indent rest : Text} {d : CSharp}

/-! ### One choice -/

theorem Begins.readIndented?_eq (h : Begins t indent d rest) :
    readIndented? .csharp t = some (.csharp d, rest) ∧ t.takeWhile Text.isSpaceOrTab = indent := by
  obtain ⟨hi, hd, rfl⟩ := h
  apply readIndented?_indent hi
  simp only [Declaration.read?, read?_text_append hd, Option.map_some]

/-- A text begins with at most one declaration, in at most one way. -/
theorem Begins.unique {indent' rest' : Text} {d' : CSharp} (h : Begins t indent d rest)
    (h' : Begins t indent' d' rest') : indent = indent' ∧ d = d' ∧ rest = rest' := by
  obtain ⟨hr, hi⟩ := h.readIndented?_eq
  obtain ⟨hr', hi'⟩ := h'.readIndented?_eq
  cases hr.symm.trans hr'
  exact ⟨hi.symm.trans hi', rfl, rfl⟩

theorem fails_of_readIndented? (h : readIndented? .csharp t = none) : Fails t := by
  intro indent d rest hb
  rw [hb.readIndented?_eq.1] at h
  contradiction

/-- The declarations that are found are determined by the text. -/
theorem Picks.unique {ds ds' : List (Nat × CSharp)} (h : Picks past t ds) (h' : Picks past t ds') :
    ds = ds' := by
  induction h generalizing ds' with
  | done hfails =>
    cases h' with
    | done => rfl
    | next ht hline hb => exact absurd hb (hfails _ _ ht hline _ _ _)
  | @next past t skipped u indent rest d ds ht hline hb hclear hlater ih =>
    cases h' with
    | done hfails => exact absurd hb (hfails _ _ ht hline _ _ _)
    | @next _ _ skipped' u' indent' rest' d' ds' ht' hline' hb' hclear' hlater' =>
      have heq : skipped ++ u = skipped' ++ u' := ht.symm.trans ht'
      -- of two line starts, the earlier one would have been skipped
      have hle : skipped.length ≤ skipped'.length := by
        by_contra hlt
        exact hclear _ _ heq (Nat.lt_of_not_le hlt) hline' _ _ _ hb'
      have hge : skipped'.length ≤ skipped.length := by
        by_contra hlt
        exact hclear' _ _ heq.symm (Nat.lt_of_not_le hlt) hline _ _ _ hb
      obtain ⟨rfl, rfl⟩ := List.append_inj heq (Nat.le_antisymm hle hge)
      obtain ⟨rfl, rfl, rfl⟩ := hb.unique hb'
      rw [ih hlater']

/-! ### Line starts -/

theorem newline_mem_of_lineStart {a : Text} (h : LineStart (past ++ a)) (ha : a ≠ []) : '\n' ∈ a := by
  obtain ⟨a, c, rfl⟩ := (List.eq_nil_or_concat' a).resolve_left ha
  rcases h with h | ⟨b, hb⟩
  · simp at h
  · rw [← List.append_assoc] at hb
    obtain ⟨-, hc⟩ := List.append_inj' hb rfl
    simp [hc]

/-- No line begins where a declaration ends. -/
theorem not_lineStart_text (past : Text) (d : CSharp) : ¬LineStart (past ++ d.text) := by
  obtain ⟨z, hz⟩ : ∃ z, d.text = z ++ [']'] := Declaration.text_eq_concat (.csharp d)
  rw [hz, ← List.append_assoc]
  rintro (h | ⟨a, h⟩)
  · simp at h
  · exact absurd (List.append_inj' h rfl).2 (by decide)

theorem clear_nil (past t : Text) : Clear past [] t := fun a u _ hlt => absurd hlt (by simp)

/-- The line starts up to the end of a text without a line feed are those before the text, and maybe
the start of the text. -/
theorem Clear.fails_of_prefix {a y : Text} (h : Clear past skipped (l ++ y)) (hl : '\n' ∉ l)
    (hf : LineStart (past ++ skipped) → Fails (l ++ y)) (ha : skipped ++ (l ++ y) = a ++ u)
    (hle : a.length ≤ (skipped ++ l).length) (hline : LineStart (past ++ a)) : Fails u := by
  rcases List.append_eq_append_iff.1 ha with ⟨x, rfl, hx⟩ | ⟨x, rfl, rfl⟩
  · cases x with
    | nil =>
      rw [List.append_nil] at hline
      rw [List.nil_append] at hx
      exact hx ▸ hf hline
    | cons c x =>
      rw [← List.append_assoc] at hline
      have hm := newline_mem_of_lineStart hline (by simp)
      have hstarts : c :: x <+: l := by
        refine List.prefix_of_prefix_length_le ⟨u, hx.symm⟩ (List.prefix_append l y) ?_
        simpa using hle
      exact absurd (hstarts.mem hm) hl
  · cases x with
    | nil =>
      rw [List.append_nil] at hf
      exact hf hline
    | cons c x => exact h _ _ ha (by simp) hline

/-- Skips a line. -/
theorem Clear.line (h : Clear past skipped (l ++ '\n' :: u)) (hl : '\n' ∉ l)
    (hf : LineStart (past ++ skipped) → Fails (l ++ '\n' :: u)) :
    Clear past (skipped ++ (l ++ ['\n'])) u := by
  intro a v ha hlt hline
  apply h.fails_of_prefix hl hf (by simpa using ha) _ hline
  simp only [List.length_append, List.length_singleton] at hlt ⊢
  omega

/-- No line starts after the last one. -/
theorem Clear.last (h : Clear past skipped l) (hl : '\n' ∉ l)
    (hf : LineStart (past ++ skipped) → Fails l) : Picks past (skipped ++ l) [] := by
  rw [← List.append_nil l] at h hf
  refine .done fun a u ha hline => h.fails_of_prefix hl hf (by simpa using ha) ?_ hline
  have hlen := congrArg List.length ha
  simp only [List.length_append] at hlen ⊢
  omega

/-! ### Scanning -/

theorem begins_of_read? {e : Declaration} (hi : ∀ c ∈ indent, Text.isSpaceOrTab c)
    (h : Declaration.read? .csharp (e.text ++ rest) = some (e, rest)) :
    ∃ d, e = .csharp d ∧ Begins (indent ++ (e.text ++ rest)) indent d rest := by
  obtain ⟨⟨d, r⟩, hd, he⟩ := Option.map_eq_some_iff.1 h
  obtain ⟨rfl, rfl⟩ := Prod.mk.inj he
  exact ⟨d, rfl, hi, wellFormed_of_read? hd, rfl⟩

/-- From a line start, where nothing has been skipped that counts, the scan finds what is to be
found. -/
theorem exists_picks {w : Marked Declaration} (h : Laid .csharp t w)
    (hline : LineStart (past ++ skipped)) (hclear : Clear past skipped t) :
    ∃ ds, scanFrom .csharp (Text.byteSize (past ++ skipped)) t = ds.map (Prod.map id .csharp) ∧
      Picks past (skipped ++ t) ds := by
  induction h generalizing past skipped with
  | last hl hr =>
    exact ⟨[], scanFrom_last _ hl hr, hclear.last hl fun _ => fails_of_readIndented? hr⟩
  | @line l u w hl hr hu ih =>
    have hline' : LineStart (past ++ (skipped ++ (l ++ ['\n']))) :=
      .inr ⟨past ++ (skipped ++ l), by simp⟩
    obtain ⟨ds, hds, hp⟩ := ih hline' (hclear.line hl fun _ => fails_of_readIndented? hr)
    refine ⟨ds, ?_, by simpa using hp⟩
    rw [scanFrom_line _ hl hr, ← hds]
    simp [Nat.add_assoc]
  | @lastDeclaration indent l e hi hl hr =>
    obtain ⟨d, rfl, hb⟩ := begins_of_read? hi hr
    have hend : ¬LineStart (past ++ (skipped ++ (indent ++ d.text)) ++ []) := by
      simpa using not_lineStart_text (past ++ (skipped ++ indent)) d
    have hlater := (clear_nil _ l).last hl fun h => absurd h hend
    refine ⟨_, ?_, .next rfl hline hb hclear hlater⟩
    rw [scanFrom_lastDeclaration _ hi hl hr]
    simp [Nat.add_assoc]
  | @declaration indent l u e w hi hl hr hu ih =>
    obtain ⟨d, rfl, hb⟩ := begins_of_read? hi hr
    have hend : ¬LineStart (past ++ (skipped ++ (indent ++ d.text)) ++ []) := by
      simpa using not_lineStart_text (past ++ (skipped ++ indent)) d
    have hskip := (clear_nil _ (l ++ '\n' :: u)).line hl fun h => absurd h hend
    obtain ⟨ds, hds, hp⟩ := ih
      (.inr ⟨past ++ (skipped ++ (indent ++ d.text)) ++ l, by simp⟩) hskip
    refine ⟨(Text.byteSize (past ++ (skipped ++ indent)), d) :: ds, ?_,
      .next rfl hline hb hclear (by simpa using hp)⟩
    rw [scanFrom_declaration _ hi hl hr, List.map_cons, ← hds]
    simp [Nat.add_assoc, Declaration.text]

/-- The scan of a C# source gives exactly the declarations that begin at the first line start from
each place on, and there is one way only to read a declaration at a line start. -/
theorem scan_eq_leftmost (t : Text) :
    (∃ ds, scan .csharp t = ds.map (Prod.map id .csharp) ∧ ∀ ds', Picks [] t ds' ↔ ds' = ds) ∧
      ∀ u indent d rest indent' d' rest', Begins u indent d rest → Begins u indent' d' rest' →
        indent = indent' ∧ d = d' ∧ rest = rest' := by
  refine ⟨?_, fun _ _ _ _ _ _ _ h h' => h.unique h'⟩
  have hstart : LineStart ([] ++ []) := .inl rfl
  obtain ⟨ds, hds, hp⟩ := exists_picks (laid_cut 0 t) hstart (clear_nil [] t)
  refine ⟨ds, hds, fun ds' => ⟨fun hp' => hp'.unique hp, ?_⟩⟩
  rintro rfl
  exact hp

/-- A declaration that is broken off on the first line hides nothing on the second. -/
theorem scan_eq_leftmost_second_line :
    Picks [] "[assembly:\n [assembly: A(1)]".toList
      [(12, ⟨[], [], [' '], ['A'], [], ['1'], []⟩)] := by
  obtain ⟨⟨ds, hds, hpicks⟩, -⟩ := scan_eq_leftmost "[assembly:\n [assembly: A(1)]".toList
  have hscan : scan .csharp "[assembly:\n [assembly: A(1)]".toList =
      [(12, ⟨[], [], [' '], ['A'], [], ['1'], []⟩)].map (Prod.map id .csharp) := by
    decide +kernel
  have hinj : Function.Injective (Prod.map (id : Nat → Nat) Declaration.csharp) :=
    Function.injective_id.prodMap fun _ _ => Declaration.csharp.inj
  rw [hpicks]
  exact List.map_injective_iff.2 hinj (hscan.symm.trans hds)

end AssemblyInfo.Declaration.CSharp
