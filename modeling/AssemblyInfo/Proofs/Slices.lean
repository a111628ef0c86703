import AssemblyInfo.Proofs.Layout

/-! Slices by their offsets. A slice of a source can be taken out of it again between the byte
offsets of its ends, which are both between characters. The segments of a source are slices that
follow one another without a gap, from the start of the source to its end. -/

namespace AssemblyInfo

namespace Text

/-- What follows the first `n` bytes. None if there are fewer, or they end inside of a character. -/
def dropBytes? : Nat → Text → Option Text
  | 0, t => some t
  | _ + 1, [] => none
  | n + 1, c :: t => if c.utf8Size ≤ n + 1 then dropBytes? (n + 1 - c.utf8Size) t else none

/-- The first `n` bytes. None if there are fewer, or they end inside of a character. -/
def takeBytes? : Nat → Text → Option Text
  | 0, _ => some []
  | _ + 1, [] => none
  | n + 1, c :: t =>
    if c.utf8Size ≤ n + 1 then (takeBytes? (n + 1 - c.utf8Size) t).map (c :: ·) else none

/-- The piece between two byte offsets. None if the offsets are out of order, beyond the end or
inside of a character. -/
def slice? (t : Text) (start stop : Nat) : Option Text :=
  if start ≤ stop then (dropBytes? start t).bind (takeBytes? (stop - start)) else none

theorem byteSize_pos {t : Text} (h : t ≠ []) : 0 < t.byteSize := by
  obtain ⟨c, t, rfl⟩ := List.exists_cons_of_ne_nil h
  have hpos := c.utf8Size_pos
  rw [byteSize_cons]
  omega

theorem byteSize_eq_zero_iff {t : Text} : t.byteSize = 0 ↔ t = [] := by
  constructor
  · intro h
    by_contra hne
    exact absurd h (byteSize_pos hne).ne'
  · rintro rfl
    rfl

/-- A piece of a text that has bytes starts as the text does. -/
theorem exists_cons_of_byteSize {c : Char} {t s r : Text} {n : Nat} (h : c :: t = s ++ r)
    (hn : s.byteSize = n + 1) : ∃ s', s = c :: s' ∧ t = s' ++ r := by
  cases s with
  | nil => contradiction
  | cons d s =>
    obtain ⟨rfl, rfl⟩ := List.cons.inj h
    exact ⟨s, rfl, rfl⟩

theorem dropBytes?_eq_some_iff {n : Nat} {t r : Text} :
    dropBytes? n t = some r ↔ ∃ s, t = s ++ r ∧ s.byteSize = n := by
  fun_induction dropBytes? n t with
  | case1 t =>
    constructor
    · rintro ⟨⟩
      exact ⟨[], rfl, rfl⟩
    · rintro ⟨s, rfl, hs⟩
      rw [byteSize_eq_zero_iff.1 hs, List.nil_append]
  | case2 n =>
    constructor
    · nofun
    · rintro ⟨s, hs, hn⟩
      obtain ⟨rfl, rfl⟩ := List.append_eq_nil_iff.1 hs.symm
      contradiction
  | case3 n c t hc ih =>
    rw [ih]
    constructor
    · rintro ⟨s, rfl, hs⟩
      exact ⟨c :: s, rfl, by rw [byteSize_cons, hs, Nat.add_sub_cancel' hc]⟩
    · rintro ⟨s, hs, hn⟩
      obtain ⟨s, rfl, rfl⟩ := exists_cons_of_byteSize hs hn
      rw [byteSize_cons] at hn
      exact ⟨s, rfl, by omega⟩
  | case4 n c t hc =>
    constructor
    · nofun
    · rintro ⟨s, hs, hn⟩
      obtain ⟨s, rfl, rfl⟩ := exists_cons_of_byteSize hs hn
      rw [byteSize_cons] at hn
      omega

theorem takeBytes?_eq_some_iff {n : Nat} {t u : Text} :
    takeBytes? n t = some u ↔ ∃ r, t = u ++ r ∧ u.byteSize = n := by
  fun_induction takeBytes? n t generalizing u with
  | case1 t =>
    constructor
    · rintro ⟨⟩
      exact ⟨t, rfl, rfl⟩
    · rintro ⟨r, rfl, hu⟩
      rw [byteSize_eq_zero_iff.1 hu]
  | case2 n =>
    constructor
    · nofun
    · rintro ⟨r, hr, hn⟩
      obtain ⟨rfl, rfl⟩ := List.append_eq_nil_iff.1 hr.symm
      contradiction
  | case3 n c t hc ih =>
    rw [Option.map_eq_some_iff]
    constructor
    · rintro ⟨u, hu, rfl⟩
      obtain ⟨r, rfl, hn⟩ := ih.1 hu
      exact ⟨r, rfl, by rw [byteSize_cons, hn, Nat.add_sub_cancel' hc]⟩
    · rintro ⟨r, hr, hn⟩
      obtain ⟨u, rfl, rfl⟩ := exists_cons_of_byteSize hr hn
      rw [byteSize_cons] at hn
      exact ⟨u, ih.2 ⟨r, rfl, by omega⟩, rfl⟩
  | case4 n c t hc =>
    constructor
    · nofun
    · rintro ⟨r, hr, hn⟩
      obtain ⟨u, rfl, rfl⟩ := exists_cons_of_byteSize hr hn
      rw [byteSize_cons] at hn
      omega

theorem slice?_eq_some_iff {t u : Text} {start stop : Nat} :
    slice? t start stop = some u ↔
      ∃ before after, t = before ++ (u ++ after) ∧ before.byteSize = start ∧
        stop = start + u.byteSize := by
  unfold slice?
  split_ifs with h
  · rw [Option.bind_eq_some_iff]
    constructor
    · rintro ⟨r, hr, hu⟩
      obtain ⟨before, rfl, hb⟩ := dropBytes?_eq_some_iff.1 hr
      obtain ⟨after, rfl, hu⟩ := takeBytes?_eq_some_iff.1 hu
      exact ⟨before, after, rfl, hb, by omega⟩
    · rintro ⟨before, after, rfl, hb, hs⟩
      exact ⟨u ++ after, dropBytes?_eq_some_iff.2 ⟨before, rfl, hb⟩,
        takeBytes?_eq_some_iff.2 ⟨after, rfl, by omega⟩⟩
  · constructor
    · nofun
    · rintro ⟨before, after, rfl, -, hs⟩
      omega

end Text

namespace Slice

/-- The slice is a piece of the source, at its offset. -/
def IsIn (s : Slice) (source : Text) : Prop :=
  ∃ before after, source = before ++ (s.text ++ after) ∧ s.start = before.byteSize

theorem isIn_iff_slice? {s : Slice} {source : Text} :
    s.IsIn source ↔ source.slice? s.start s.stop = some s.text := by
  rw [Text.slice?_eq_some_iff]
  constructor
  · rintro ⟨before, after, h, hs⟩
    exact ⟨before, after, h, hs.symm, rfl⟩
  · rintro ⟨before, after, h, hs, -⟩
    exact ⟨before, after, h, hs.symm⟩

end Slice

namespace Segment

/-- The segment with its offset. -/
def slice : Segment → Slice
  | .gap s => s
  | .declaration start d => ⟨start, d.text⟩

theorem text_slice (x : Segment) : x.slice.text = x.text := by
  cases x with
  | gap s => rfl
  | declaration start d => rfl

/-- Segments that follow one another from an offset on, none of them empty. -/
def Placed : Nat → List Segment → Prop
  | _, [] => True
  | offset, x :: segments => x.slice.start = offset ∧ x.text ≠ [] ∧ Placed x.slice.stop segments

variable {offset : Nat} {segments : List Segment}

theorem Placed.addGap {t : Text} (h : Placed (offset + t.byteSize) segments) :
    Placed offset (addGap offset t segments) := by
  rw [addGap.eq_def]
  split
  · next s rest =>
    obtain ⟨hs, hne, hrest⟩ := h
    have hstop : (⟨offset, t ++ s.text⟩ : Slice).stop = s.stop := by
      have hs : s.start = offset + t.byteSize := hs
      rw [Slice.stop, Slice.stop, hs, Text.byteSize_append, Nat.add_assoc]
    refine ⟨rfl, by simp [text, show s.text ≠ [] from hne], ?_⟩
    rwa [slice, hstop]
  · split
    · next ht => simpa [ht] using h
    · next ht => exact ⟨rfl, ht, h⟩

theorem Placed.declaration {d : Declaration} (h : Placed (offset + d.text.byteSize) segments) :
    Placed offset (.declaration offset d :: segments) :=
  ⟨rfl, List.ne_nil_of_length_pos d.length_text_pos, h⟩

theorem placed_cut (dialect : Dialect) (offset : Nat) (t : Text) :
    Placed offset (cut dialect offset t) := by
  fun_induction cut dialect offset t with
  | case1 => trivial
  | case2 offset t ht h line hl ih => exact ih.addGap
  | case3 offset t ht d rest h indent start stop line hl ih =>
    exact ih.addGap.declaration.addGap

theorem Placed.isIn (before : Text) (h : Placed before.byteSize segments) :
    ∀ s ∈ segments.map slice, s.IsIn (before ++ segments.flatMap text) := by
  induction segments generalizing before with
  | nil => simp
  | cons x segments ih =>
    obtain ⟨hx, -, hrest⟩ := h
    have hstop : x.slice.stop = Text.byteSize (before ++ x.text) := by
      rw [Slice.stop, hx, text_slice, Text.byteSize_append]
    rw [hstop] at hrest
    intro s hs
    rw [List.map_cons] at hs
    rcases List.mem_cons.1 hs with rfl | hs
    · exact ⟨before, segments.flatMap text, by rw [text_slice, List.flatMap_cons], hx⟩
    · have hs := ih _ hrest s hs
      rwa [List.append_assoc] at hs

theorem Placed.lt_stop (h : Placed offset segments) :
    ∀ s ∈ segments.map slice, offset ≤ s.start ∧ s.start < s.stop := by
  induction segments generalizing offset with
  | nil => simp
  | cons x segments ih =>
    obtain ⟨hx, hne, hrest⟩ := h
    have hpos := Text.byteSize_pos hne
    have hstop : x.slice.stop = offset + x.text.byteSize := by rw [Slice.stop, hx, text_slice]
    intro s hs
    rw [List.map_cons] at hs
    rcases List.mem_cons.1 hs with rfl | hs
    · omega
    · have := ih hrest s hs
      omega

theorem Placed.pairwise (h : Placed offset segments) :
    (segments.map slice).Pairwise fun a b => a.stop ≤ b.start := by
  induction segments generalizing offset with
  | nil => exact List.Pairwise.nil
  | cons x segments ih =>
    obtain ⟨-, -, hrest⟩ := h
    exact List.pairwise_cons.2 ⟨fun s hs => (hrest.lt_stop s hs).1, ih hrest⟩

end Segment

end AssemblyInfo
