import AssemblyInfo.Declaration.Basic

/-! A source cut into segments: declarations, and the gaps between them. A declaration counts when
its bracket is the first character of a line other than a space or a tab; the line that it ends on
holds no second one. The texts of all segments, one after another, are the source. -/

namespace AssemblyInfo

/-- A piece of a source: a gap, which is not empty, or a declaration with its byte offset. -/
inductive Segment where
  | gap (slice : Slice)
  | declaration (start : Nat) (d : Declaration)
  deriving DecidableEq, Repr

namespace Segment

/-- The segment as it stands in the source. -/
def text : Segment → Text
  | .gap s => s.text
  | .declaration _ d => d.text

/-- Puts a text, at the byte offset `start`, in front of segments. -/
def addGap (start : Nat) (t : Text) : List Segment → List Segment
  | .gap s :: segments => .gap ⟨start, t ++ s.text⟩ :: segments
  | segments => if t = [] then segments else .gap ⟨start, t⟩ :: segments

theorem flatMap_text_addGap (start : Nat) (t : Text) (segments : List Segment) :
    (addGap start t segments).flatMap text = t ++ segments.flatMap text := by
  rw [addGap.eq_def]
  split
  · simp [text]
  · split
    · next ht => simp [ht]
    · simp [text]

/-- The declaration that a line starts with, after its indentation. -/
def readIndented? (dialect : Dialect) (t : Text) : Option (Declaration × Text) :=
  Declaration.read? dialect (t.dropWhile Text.isSpaceOrTab)

theorem append_of_readIndented? {dialect : Dialect} {t rest : Text} {d : Declaration}
    (h : readIndented? dialect t = some (d, rest)) :
    t.takeWhile Text.isSpaceOrTab ++ (d.text ++ rest) = t := by
  rw [Declaration.text_append_of_read? h, List.takeWhile_append_dropWhile]

theorem length_lt_of_readIndented? {dialect : Dialect} {t rest : Text} {d : Declaration}
    (h : readIndented? dialect t = some (d, rest)) : rest.length < t.length := by
  have e := congrArg List.length (append_of_readIndented? h)
  have := d.length_text_pos
  simp only [List.length_append] at e
  omega

/-- The segments of a source from the start of a line, at a byte offset. -/
def cut (dialect : Dialect) (offset : Nat) (t : Text) : List Segment :=
  if ht : t = [] then []
  else
    match h : readIndented? dialect t with
    | none =>
      let line := t.cutLine
      have : line.2.length < t.length := Text.length_cutLine_lt ht
      addGap offset line.1 (cut dialect (offset + line.1.byteSize) line.2)
    | some (d, rest) =>
      let indent : Text := t.takeWhile Text.isSpaceOrTab
      let start := offset + indent.byteSize
      let stop := start + d.text.byteSize
      let line := rest.cutLine
      have : line.2.length < t.length :=
        Nat.lt_of_le_of_lt (Text.length_cutLine_le rest) (length_lt_of_readIndented? h)
      addGap offset indent (.declaration start d ::
        addGap stop line.1 (cut dialect (stop + line.1.byteSize) line.2))
termination_by t.length

@[simp] theorem cut_nil (dialect : Dialect) (offset : Nat) : cut dialect offset [] = [] := by
  rw [cut, dif_pos rfl]

/-- A line that does not start with a declaration is a gap. -/
theorem cut_of_none {dialect : Dialect} {t : Text} (offset : Nat) (ht : t ≠ [])
    (h : readIndented? dialect t = none) :
    cut dialect offset t = addGap offset t.cutLine.1
      (cut dialect (offset + t.cutLine.1.byteSize) t.cutLine.2) := by
  rw [cut, dif_neg ht]
  split
  · rfl
  · next hs => simp [h] at hs

/-- A declaration stands between two gaps, its indentation and the rest of its line. -/
theorem cut_of_some {dialect : Dialect} {t rest : Text} {d : Declaration} (offset : Nat)
    (h : readIndented? dialect t = some (d, rest)) :
    cut dialect offset t =
      let start := offset + Text.byteSize (t.takeWhile Text.isSpaceOrTab)
      let stop := start + d.text.byteSize
      addGap offset (t.takeWhile Text.isSpaceOrTab) (.declaration start d ::
        addGap stop rest.cutLine.1
          (cut dialect (stop + rest.cutLine.1.byteSize) rest.cutLine.2)) := by
  have ht : t ≠ [] := by
    rintro rfl
    exact Nat.not_lt_zero _ (length_lt_of_readIndented? h)
  rw [cut, dif_neg ht]
  split
  · next hs => simp [h] at hs
  · next d' rest' hs =>
    obtain ⟨rfl, rfl⟩ := Prod.mk.inj (Option.some.inj (h.symm.trans hs))
    rfl

/-- Nothing of the source is lost. -/
theorem flatMap_text_cut (dialect : Dialect) (offset : Nat) (t : Text) :
    (cut dialect offset t).flatMap text = t := by
  fun_induction cut dialect offset t with
  | case1 => rfl
  | case2 offset t ht h line hl ih =>
    rw [flatMap_text_addGap, ih]
    exact t.cutLine_append
  | case3 offset t ht d rest h indent start stop line hl ih =>
    rw [flatMap_text_addGap, List.flatMap_cons, flatMap_text_addGap, ih, rest.cutLine_append]
    exact append_of_readIndented? h

/-- The segments of a source. -/
def ofSource (dialect : Dialect) (source : Text) : List Segment := cut dialect 0 source

/-- The declaration in a segment, with its byte offset. -/
def declaration? : Segment → Option (Nat × Declaration)
  | .gap _ => none
  | .declaration start d => some (start, d)

end Segment

/-- The declarations of a source, each with its byte offset. -/
def Declaration.scan (dialect : Dialect) (source : Text) : List (Nat × Declaration) :=
  (Segment.ofSource dialect source).filterMap Segment.declaration?

end AssemblyInfo
