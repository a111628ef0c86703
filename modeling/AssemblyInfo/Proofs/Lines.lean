import AssemblyInfo.Proofs.Anchoring
import AssemblyInfo.Proofs.Declaration.Body
import AssemblyInfo.Proofs.Scan

/-! JScript sources are decided line by line. What stands before a line feed and what stands after
it are scanned apart, for declarations and for header lines. A line holds one declaration if it opens
one and a closing bracket follows, and none otherwise. The declaration ends at the first bracket that
stands outside of quoted strings; if there is none, it ends at some bracket of the line and has no
value. -/

namespace AssemblyInfo.Declaration.JScript

open Segment (readIndented?)
open Text (Quoting Complete Closed)

/-- A whole line of a source, between the texts before and after it. -/
structure IsLine (source before line after : Text) : Prop where
  source_eq : source = before ++ (line ++ after)
  newline : '\n' ∉ line
  start : Text.LineStart before
  stop : after = [] ∨ ∃ u, after = '\n' :: u

/-- The line opens a declaration, and `t` follows its colon. -/
structure Opening (line indent afterBracket afterKeyword t : Text) : Prop where
  blank_indent : ∀ c ∈ indent, Text.isSpaceOrTab c
  blank_afterBracket : ∀ c ∈ afterBracket, Text.isSpaceOrTab c
  blank_afterKeyword : ∀ c ∈ afterKeyword, Text.isSpaceOrTab c
  line_eq : line = indent ++ '[' :: (afterBracket ++ (keyword ++ (afterKeyword ++ ':' :: t)))

/-- The declarations of a source that have a byte between two offsets. -/
def scanWithin (source : Text) (start stop : Nat) : List (Nat × Declaration) :=
  (scan .jscript source).filter fun p => start < p.1 + p.2.text.byteSize ∧ p.1 < stop

variable {source before line after indent afterBracket afterKeyword t body rest : Text}

/-! ### The declarations of a line -/

/-- What is found before a line has no byte in it. -/
theorem scan_append_of_lineStart (h : Text.LineStart before) (t : Text) :
    ∃ ds, scan .jscript (before ++ t) = ds ++ scanFrom .jscript before.byteSize t ∧
      ∀ p ∈ ds, p.1 + p.2.text.byteSize ≤ before.byteSize := by
  rcases h with rfl | ⟨a, rfl⟩
  · exact ⟨[], rfl, by simp⟩
  · refine ⟨scanFrom .jscript 0 a, ?_, ?_⟩
    · have happend := scanFrom_jscript_append 0 a t
      rw [Nat.zero_add] at happend
      rw [List.append_assoc, List.singleton_append]
      exact happend
    · intro p hp
      have := (bounds_of_mem_scanFrom hp).2
      rw [Text.byteSize_append]
      omega

/-- What is found after a line has no byte in it. -/
theorem scanFrom_append_of_lineEnd (h : after = [] ∨ ∃ u, after = '\n' :: u) (offset : Nat) :
    ∃ ds, scanFrom .jscript offset (line ++ after) = scanFrom .jscript offset line ++ ds ∧
      ∀ p ∈ ds, offset + line.byteSize ≤ p.1 := by
  rcases h with rfl | ⟨u, rfl⟩
  · exact ⟨[], by simp, by simp⟩
  · refine ⟨_, scanFrom_jscript_append offset line u, ?_⟩
    intro p hp
    have := (bounds_of_mem_scanFrom hp).1
    rw [Text.byteSize_append] at this
    omega

/-- What is found on a line is what is found in the line alone. -/
theorem IsLine.scanWithin_eq (h : IsLine source before line after) :
    scanWithin source before.byteSize (Text.byteSize (before ++ line)) =
      scanFrom .jscript before.byteSize line := by
  obtain ⟨rfl, -, hstart, hstop⟩ := h
  obtain ⟨ds, hds, hbefore⟩ := scan_append_of_lineStart hstart (line ++ after)
  obtain ⟨es, hes, hafter⟩ := @scanFrom_append_of_lineEnd line after hstop before.byteSize
  have hline : ∀ p ∈ scanFrom .jscript before.byteSize line,
      before.byteSize < p.1 + p.2.text.byteSize ∧ p.1 < before.byteSize + line.byteSize := by
    intro p hp
    have hbounds := bounds_of_mem_scanFrom hp
    have hpos := Text.byteSize_pos (List.ne_nil_of_length_pos p.2.length_text_pos)
    omega
  rw [scanWithin, hds, hes, Text.byteSize_append, List.filter_append, List.filter_append,
    List.filter_eq_nil_iff.2, List.filter_eq_self.2, List.filter_eq_nil_iff.2, List.nil_append,
    List.append_nil]
  · intro p hp
    have := hafter p hp
    simp only [decide_eq_true_eq]
    omega
  · intro p hp
    simpa only [decide_eq_true_eq] using hline p hp
  · intro p hp
    have := hbefore p hp
    simp only [decide_eq_true_eq]
    omega

/-- A line that opens a declaration holds the one with the body that is read. -/
theorem Opening.scanFrom_eq (h : Opening line indent afterBracket afterKeyword t)
    (hn : '\n' ∉ line) (hbody : readBody? .outside t = some (body, rest)) (offset : Nat) :
    scanFrom .jscript offset line =
      [(offset + indent.byteSize, .jscript ⟨afterBracket, afterKeyword, body⟩)] := by
  obtain ⟨hi, hb, hk, rfl⟩ := h
  have ht := append_of_readBody? hbody
  have htext : '[' :: (afterBracket ++ (keyword ++ (afterKeyword ++ ':' :: t))) =
      (⟨afterBracket, afterKeyword, body⟩ : JScript).text ++ rest := by
    simp [text, ← ht]
  have hread : read? ((⟨afterBracket, afterKeyword, body⟩ : JScript).text ++ rest) =
      some (⟨afterBracket, afterKeyword, body⟩, rest) :=
    read?_text_append hb hk (by rw [ht, hbody])
  have hrest : '\n' ∉ rest := by
    intro hm
    apply hn
    simp [← ht, hm]
  rw [htext]
  refine scanFrom_lastDeclaration (d := .jscript ⟨afterBracket, afterKeyword, body⟩) offset hi hrest ?_
  simp only [Declaration.read?, Declaration.text, hread, Option.map_some]

theorem exists_opening_of_scanFrom (hn : '\n' ∉ line) {offset : Nat}
    (h : scanFrom .jscript offset line ≠ []) :
    ∃ indent afterBracket afterKeyword t,
      Opening line indent afterBracket afterKeyword t ∧ ']' ∈ t := by
  cases hread : readIndented? .jscript line with
  | none => exact absurd (scanFrom_last offset hn hread) h
  | some r =>
    obtain ⟨⟨d, rest⟩, hd, -⟩ := Option.map_eq_some_iff.1 hread
    have htext := text_append_of_read? hd
    simp only [read?, Option.bind_eq_bind, Option.bind_eq_some_iff] at hd
    obtain ⟨t₁, -, t₂, -, t₃, -, ⟨body, r⟩, -, he⟩ := hd
    obtain ⟨rfl, rfl⟩ := Prod.mk.inj (Option.some.inj he)
    refine ⟨line.takeWhile Text.isSpaceOrTab, t₁.takeWhile Text.isSpaceOrTab,
      t₂.takeWhile Text.isSpaceOrTab, body ++ ']' :: r, ⟨fun _ => List.mem_takeWhile_imp,
        fun _ => List.mem_takeWhile_imp, fun _ => List.mem_takeWhile_imp, ?_⟩, by simp⟩
    conv_lhs => rw [← List.takeWhile_append_dropWhile (p := Text.isSpaceOrTab) (l := line)]
    rw [← htext]
    simp [text]

/-- The declarations of two texts with a line feed between them are those of the first text and then
those of the second, each as it is there, at an offset that is larger by the bytes of the first text
and one. A header line stands in one of the two. -/
theorem scan_newline (t u : Text) :
    scan .jscript (t ++ '\n' :: u) =
        scan .jscript t ++ (scan .jscript u).map (fun p => (p.1 + (t.byteSize + 1), p.2)) ∧
      (Dialect.hasHeader .jscript (t ++ '\n' :: u) ↔
        Dialect.hasHeader .jscript t ∨ Dialect.hasHeader .jscript u) := by
  have hsize : Text.byteSize (t ++ ['\n']) = t.byteSize + 1 := Text.byteSize_append t ['\n']
  constructor
  · have happend := scanFrom_jscript_append 0 t u
    rw [scanFrom_add, hsize] at happend
    exact happend
  · rw [Dialect.hasHeader_newline, Bool.or_eq_true]

/-! ### Where a declaration ends -/

/-- A body with a value closes its strings before its bracket. -/
theorem complete_of_declared {r : Text × Value} (hbody : readBody? .outside t = some (body, rest))
    (hn : '\n' ∉ body)
    (h : (Declaration.jscript ⟨afterBracket, afterKeyword, body⟩).declared = .ok r) :
    Complete body := by
  obtain ⟨call, hcall, -⟩ := Except.bind_eq_ok_iff.1 h
  exact complete_of_readBody? hbody (Call.run_of_parse hcall) hn

/-- A body that is never complete before a bracket is refused. -/
theorem exists_malformed (hbody : readBody? .outside t = some (body, rest)) (hn : '\n' ∉ body)
    (h : ¬Complete body) : ∃ fault,
      (Declaration.jscript ⟨afterBracket, afterKeyword, body⟩).declared =
        .error (.malformed body.trim fault) := by
  obtain ⟨fault, hf⟩ := Call.exists_malformed_of_run fun hrun =>
    h (complete_of_readBody? hbody hrun hn)
  exact ⟨fault, by simp only [declared, hf]; rfl⟩

/-- No bracket outside of strings stands before the one that ends the body. -/
theorem length_le_of_closed {a c : Text} (hbody : readBody? .outside t = some (body, rest))
    (hn : '\n' ∉ t) (ht : t = a ++ ']' :: c) (ha : Closed a) : body.length ≤ a.length := by
  subst ht
  simp only [List.mem_append, List.mem_cons, not_or] at hn
  rcases ha.complete_or_first with h | ⟨a, b, rfl, h⟩
  · cases (readBody?_of_complete h hn.1 c).symm.trans hbody
    exact Nat.le_refl _
  · simp only [List.mem_append, List.mem_cons, not_or] at hn
    rw [List.append_assoc, List.cons_append, readBody?_of_complete h hn.1.1] at hbody
    cases hbody
    simp

/-- A line of a JScript source holds a declaration exactly if it opens one before a closing bracket.
There is one then, and it ends at the bracket after a complete body. Without such a bracket its body
is refused, so that a declaration with a value ends at the first bracket outside of strings. -/
theorem scan_line (h : IsLine source before line after) :
    (scanWithin source before.byteSize (Text.byteSize (before ++ line)) ≠ [] ↔
      ∃ indent afterBracket afterKeyword t,
        Opening line indent afterBracket afterKeyword t ∧ ']' ∈ t) ∧
      ∀ indent afterBracket afterKeyword t, Opening line indent afterBracket afterKeyword t →
        ']' ∈ t → ∃ body rest, t = body ++ ']' :: rest ∧
          scanWithin source before.byteSize (Text.byteSize (before ++ line)) =
            [(before.byteSize + indent.byteSize, .jscript ⟨afterBracket, afterKeyword, body⟩)] ∧
          (∀ body' rest', t = body' ++ ']' :: rest' → Complete body' → body' = body) ∧
          ((¬∃ body' rest', t = body' ++ ']' :: rest' ∧ Complete body') →
            ∃ fault, (Declaration.jscript ⟨afterBracket, afterKeyword, body⟩).declared =
              .error (.malformed body.trim fault)) ∧
          ∀ r, (Declaration.jscript ⟨afterBracket, afterKeyword, body⟩).declared = .ok r →
            Closed body ∧ ∀ a c, t = a ++ ']' :: c → Closed a → body.length ≤ a.length := by
  have hn := h.newline
  rw [h.scanWithin_eq]
  have hfound : ∀ indent afterBracket afterKeyword t,
      Opening line indent afterBracket afterKeyword t → ']' ∈ t →
        '\n' ∉ t ∧ ∃ body rest, readBody? .outside t = some (body, rest) := by
    intro indent afterBracket afterKeyword t ho ht
    have hnt : '\n' ∉ t := by
      intro hm
      apply hn
      simp [ho.line_eq, hm]
    obtain ⟨⟨body, rest⟩, hbody⟩ := Option.ne_none_iff_exists'.1 (readBody?_ne_none ht hnt)
    exact ⟨hnt, body, rest, hbody⟩
  constructor
  · constructor
    · exact exists_opening_of_scanFrom hn
    · rintro ⟨indent, afterBracket, afterKeyword, t, ho, ht⟩
      obtain ⟨-, body, rest, hbody⟩ := hfound _ _ _ _ ho ht
      simp [ho.scanFrom_eq hn hbody]
  · intro indent afterBracket afterKeyword t ho ht
    obtain ⟨hnt, body, rest, hbody⟩ := hfound _ _ _ _ ho ht
    have htext := append_of_readBody? hbody
    have hnb : '\n' ∉ body := by
      intro hm
      apply hnt
      simp [← htext, hm]
    refine ⟨body, rest, htext.symm, ho.scanFrom_eq hn hbody _, ?_, ?_, ?_⟩
    · rintro body' rest' rfl hc
      simp only [List.mem_append, not_or] at hnt
      cases (readBody?_of_complete hc hnt.1 rest').symm.trans hbody
      rfl
    · intro hnone
      exact exists_malformed hbody hnb fun hc => hnone ⟨body, rest, htext.symm, hc⟩
    · intro r hr
      exact ⟨(complete_of_declared hbody hnb hr).closed,
        fun a c hac ha => length_le_of_closed hbody hnt hac ha⟩

/-- Neither a bracket in a string nor one further on in the line ends the declaration. -/
theorem scan_line_bracket_in_string :
    scanWithin "x\n [assembly: A(\"]\")] ]\ny".toList 2 23 =
      [(3, .jscript ⟨[], [], " A(\"]\")".toList⟩)] := by
  have hline : IsLine "x\n [assembly: A(\"]\")] ]\ny".toList "x\n".toList
      " [assembly: A(\"]\")] ]".toList "\ny".toList :=
    ⟨by decide, by decide, .inr ⟨['x'], by decide⟩, .inr ⟨['y'], by decide⟩⟩
  have hopening : Opening " [assembly: A(\"]\")] ]".toList [' '] [] []
      (" A(\"]\")".toList ++ ']' :: " ]".toList) :=
    ⟨by simp [Text.isSpaceOrTab], by simp, by simp, by decide⟩
  have hcomplete : Complete " A(\"]\")".toList := by
    have hstring : Complete ['"', ']', '"', ')'] :=
      .string (q := '"') (s := [']']) (t := [')']) (by decide)
        (.char (by decide) (by decide) .nil) (.char (by decide) (by decide) .nil)
    exact .char (by decide) (by decide) (.char (by decide) (by decide)
      (.char (by decide) (by decide) hstring))
  obtain ⟨body, rest, -, hscan, hbody, -, -⟩ :=
    (scan_line hline).2 _ _ _ _ hopening (by simp)
  rw [← hbody _ _ rfl hcomplete] at hscan
  exact hscan

end AssemblyInfo.Declaration.JScript
