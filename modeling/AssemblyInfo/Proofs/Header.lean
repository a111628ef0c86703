import AssemblyInfo.Proofs.Anchoring
import AssemblyInfo.Proofs.Runs

/-! The header of JScript documents. It is a line before the others that is read as no declaration,
so that a document that is written with it is loaded as the same attributes, and is then written
without a second one. Setting attributes does not change whether a document needs it. -/

namespace AssemblyInfo

open Marked (keys fill only plain)

namespace Dialect

/-- The header of JScript. -/
def header : Text := "import System.Reflection;".toList

/-- The header of JScript with its line feed. -/
def headerLine : Text := header ++ ['\n']

theorem header?_jscript : header? .jscript = some header := rfl

theorem newline_not_mem_header : '\n' ∉ header := by decide

theorem headerLine_append (t : Text) : headerLine ++ t = header ++ '\n' :: t := by
  simp [headerLine]

theorem headerLine_ne_nil : headerLine ≠ [] := by simp [headerLine]

theorem hasHeader_headerLine (t : Text) : hasHeader .jscript (headerLine ++ t) = true := by
  have hheader : hasHeader .jscript header = true := by decide +kernel
  rw [headerLine_append, hasHeader_newline, hheader, Bool.true_or]

/-- No declaration is read in the header. -/
theorem laid_headerLine {t : Text} {w : Marked Declaration} (h : Laid .jscript t w) :
    Laid .jscript (headerLine ++ t) (plain headerLine ++ w) := by
  have hheader : Segment.readIndented? .jscript header = none := by decide +kernel
  have hread : Segment.readIndented? .jscript (header ++ '\n' :: t) = none := by
    rw [Declaration.JScript.readIndented?_newline newline_not_mem_header, hheader, Option.map_none]
  rw [headerLine_append]
  exact Laid.line newline_not_mem_header hread h

end Dialect

open Dialect (headerLine hasHeader)

namespace Outline

/-- The outline with the header before it. -/
def headed (o : Outline) : Outline := { o with body := plain headerLine ++ o.body }

/-- The outline with the header before it, if it has text and none of its lines is one. -/
def withHeader (o : Outline) : Outline :=
  if o.text ≠ [] ∧ hasHeader .jscript o.text = false then o.headed else o

variable {o : Outline}

@[simp] theorem text_headed (o : Outline) : o.headed.text = headerLine ++ o.text := by
  simp [headed, text]

@[simp] theorem keys_headed (o : Outline) : keys o.headed.body = keys o.body := by
  simp [headed]

theorem Readable.headed (h : o.Readable) (hd : o.dialect = .jscript) : o.headed.Readable := by
  obtain ⟨dialect, body, mode⟩ := o
  obtain rfl : dialect = .jscript := hd
  exact readable_of_laid (Dialect.laid_headerLine (laid_iff.2 rfl))
    ((Reads.plain headerLine).append h)

theorem Readable.withHeader (h : o.Readable) (hd : o.dialect = .jscript) :
    o.withHeader.Readable := by
  unfold Outline.withHeader
  split_ifs
  · exact h.headed hd
  · exact h

@[simp] theorem dialect_withHeader (o : Outline) : o.withHeader.dialect = o.dialect := by
  unfold withHeader
  split_ifs
  · rfl
  · rfl

theorem attributes_withHeader (o : Outline) : o.withHeader.attributes = o.attributes := by
  unfold withHeader
  split_ifs
  · simp [attributes, headed]
  · rfl

theorem text_withHeader_eq_nil (o : Outline) : o.withHeader.text = [] ↔ o.text = [] := by
  unfold withHeader
  split_ifs with h
  · simp [h.1, Dialect.headerLine_ne_nil]
  · rfl

theorem hasHeader_withHeader (h : o.text ≠ []) : hasHeader .jscript o.withHeader.text = true := by
  unfold withHeader
  split_ifs with hadd
  · rw [text_headed, Dialect.hasHeader_headerLine]
  · simpa [h] using hadd

/-- The header is not added twice. -/
theorem withHeader_withHeader (o : Outline) : o.withHeader.withHeader = o.withHeader := by
  by_cases h : o.text = []
  · have hnil : o.withHeader.text = [] := o.text_withHeader_eq_nil.2 h
    rw [withHeader, if_neg (by simp [hnil])]
  · rw [withHeader, if_neg (by simp [hasHeader_withHeader h])]

/-! ### Setting below a header -/

/-- The header does not matter for the end of a text that has a declaration. -/
theorem separator_headed (h : keys o.body ≠ []) : separator o.headed.text = separator o.text := by
  obtain ⟨key, hkey⟩ := List.exists_mem_of_ne_nil _ h
  obtain ⟨a, s, b, hbody, -, -⟩ := Marked.exists_last hkey
  have htext : o.text = Marked.text Slot.text a ++ (s.text ++ Marked.text Slot.text b) := by
    simp [text, hbody]
  have hblanks : o.headed.text.trailingBlanks = o.text.trailingBlanks := by
    rw [text_headed, htext, ← List.append_assoc, s.trailingBlanks_append, s.trailingBlanks_append]
  have hne : o.text ≠ [] := by simp [htext, s.text_ne_nil]
  have hne' : o.headed.text ≠ [] := by simp [Dialect.headerLine_ne_nil]
  simp only [separator, hblanks, hne, hne']

theorem set_headed (h : keys o.body ≠ []) (key : Text) (value : Value) :
    o.headed.set key value = (o.set key value).headed := by
  by_cases hk : (Name.canonical o.dialect key).key ∈ keys o.body
  · have hk' : (Name.canonical o.headed.dialect key).key ∈ keys o.headed.body := by
      rw [keys_headed]
      exact hk
    have hplain : fill (only (Name.canonical o.dialect key).key value) (plain headerLine) =
        plain headerLine := Marked.fill_of_not_mem (by simp)
    rw [set_of_mem value hk, set_of_mem value hk']
    simp only [headed, Marked.fill_append (a := plain headerLine) (by simp), hplain]
  · have hk' : (Name.canonical o.headed.dialect key).key ∉ keys o.headed.body := by
      rw [keys_headed]
      exact hk
    rw [set_of_not_mem value hk, set_of_not_mem value hk', append, separator_headed h]
    simp only [headed, append, List.append_assoc]
    rfl

theorem keys_set_ne_nil (o : Outline) (key : Text) (value : Value) :
    keys (o.set key value).body ≠ [] := by
  by_cases hk : (Name.canonical o.dialect key).key ∈ keys o.body
  · rw [set_of_mem value hk, Marked.keys_fill]
    exact List.ne_nil_of_mem hk
  · rw [set_of_not_mem value hk, keys_append]
    simp

theorem setAll_headed (h : keys o.body ≠ []) (sets : List (Text × Value)) :
    o.headed.setAll sets = (o.setAll sets).headed := by
  induction sets generalizing o with
  | nil => rfl
  | cons p sets ih =>
    have hnext := ih (o.keys_set_ne_nil p.1 p.2)
    rw [← set_headed h] at hnext
    exact hnext

theorem setAll_append (o : Outline) (sets sets' : List (Text × Value)) :
    o.setAll (sets ++ sets') = (o.setAll sets).setAll sets' := List.foldl_append

theorem keys_setAll_ne_nil (o : Outline) {sets : List (Text × Value)} (h : sets ≠ []) :
    keys (o.setAll sets).body ≠ [] := by
  obtain ⟨sets, p, rfl⟩ := (List.eq_nil_or_concat' sets).resolve_left h
  rw [setAll_append]
  exact keys_set_ne_nil _ p.1 p.2

theorem text_ne_nil_of_keys (h : keys o.body ≠ []) : o.text ≠ [] := by
  intro htext
  rw [eq_nil_of_text htext] at h
  exact h rfl

/-- A header that is added before attributes are set is the one that would be added after. -/
theorem withHeader_setAll {sets : List (Text × Value)} (ha : o.Anchored) (hk : keys o.body ≠ [])
    (hp : ∀ p ∈ sets, Name.IsPlain .jscript p.1)
    (hv : ∀ p ∈ sets, ∃ literal, p.2.encode = .ok literal) :
    (o.withHeader.setAll sets).withHeader = (o.setAll sets).withHeader := by
  by_cases hadd : o.text ≠ [] ∧ hasHeader .jscript o.text = false
  · have hheader := (ha.setAll hp hv).2
    have hnext : (o.setAll sets).withHeader = (o.setAll sets).headed := by
      have hne : (o.setAll sets).text ≠ [] := by
        by_cases hsets : sets = []
        · rw [hsets]
          exact hadd.1
        · exact text_ne_nil_of_keys (o.keys_setAll_ne_nil hsets)
      rw [withHeader, if_pos ⟨hne, hheader.trans hadd.2⟩]
    rw [show o.withHeader = o.headed from if_pos hadd, setAll_headed hk, ← hnext,
      withHeader_withHeader]
  · rw [show o.withHeader = o from if_neg hadd]

end Outline

/-! ### Documents -/

namespace Document

variable {doc : Document} {o : Outline}

/-- The document is written with a header that it does not hold. -/
def AddsHeader (doc : Document) : Prop := doc.render true = headerLine ++ doc.render false

theorem Shows.render_true (h : Shows doc o) (hd : o.dialect = .jscript) :
    doc.render true = o.withHeader.text := by
  have hdialect : doc.dialect = .jscript := h.dialect_eq.trans hd
  rw [render, hdialect, h.text_eq, Dialect.header?_jscript, Outline.withHeader]
  simp only [true_and, Bool.not_eq_true]
  split_ifs
  · rw [Outline.text_headed, Dialect.headerLine_append]
  · rfl

theorem Shows.render_false (h : Shows doc o) : doc.render false = o.text := by
  rw [Document.render_false, h.text_eq]

theorem Shows.render_true_or (h : Shows doc o) (hd : o.dialect = .jscript) :
    doc.render true = doc.render false ∨ doc.AddsHeader := by
  rw [AddsHeader, h.render_true hd, h.render_false, Outline.withHeader]
  split_ifs
  · exact .inr (Outline.text_headed o)
  · exact .inl rfl

theorem Shows.addsHeader_iff (h : Shows doc o) (hd : o.dialect = .jscript) :
    doc.AddsHeader ↔ o.text ≠ [] ∧ hasHeader .jscript o.text = false := by
  rw [AddsHeader, h.render_true hd, h.render_false, Outline.withHeader]
  split_ifs with hadd
  · simp [hadd]
  · refine iff_of_false ?_ hadd
    intro heq
    exact Dialect.headerLine_ne_nil (List.self_eq_append_left.1 heq)

/-- What is set in a JScript document neither adds a header line nor takes one away. -/
theorem trySetAll_hasHeader {requests : List Request} (h : Shows doc o) (ht : doc.Tidy)
    (ha : o.Anchored) (hne : o.text ≠ []) (hkeys : ∀ r ∈ requests, Name.IsPlain .jscript r.1) :
    ∃ o', Shows (doc.trySetAll requests) o' ∧ o'.dialect = .jscript ∧ o'.text ≠ [] ∧
      hasHeader .jscript o'.text = hasHeader .jscript o.text := by
  obtain ⟨o', hs, -, ha', hne', hheader⟩ := trySetAll_invariant_of_keys
    (P := fun doc => ∃ o', Shows doc o' ∧ doc.Tidy ∧ o'.Anchored ∧ o'.text ≠ [] ∧
      hasHeader .jscript o'.text = hasHeader .jscript o.text) (Q := Name.IsPlain .jscript)
    (by
      rintro d key value d' hkey ⟨o', hs, ht, ha, hne, hheader⟩ hset
      obtain ⟨literal, hl, -⟩ := set_cases hset
      obtain ⟨next, hnext, hs', ht'⟩ := hs.set ht hl key
      obtain rfl := Except.ok.inj (hset.symm.trans hnext)
      obtain ⟨ha', hheader'⟩ := ha.set hkey hl
      exact ⟨_, hs', ht', ha', Outline.text_set_ne_nil key value hne, hheader'.trans hheader⟩)
    ⟨o, h, ht, ha, hne, rfl⟩ hkeys
  exact ⟨o', hs, ha'.dialect_eq, hne', hheader⟩

/-- A JScript document that is written with its header is loaded again as the same attributes and
is written as it is from then on. It is empty exactly if its text is, and holds a header else.
Whatever is set under plain names, the header is needed afterwards exactly if it was needed before,
if there was a text at all. -/
theorem reload_render_header {t : Text} (h : ofText .jscript t = .ok doc) :
    (doc.render true = [] ↔ t = []) ∧
      (t ≠ [] → hasHeader .jscript (doc.render true) = true) ∧
      (∃ reloaded, ofText .jscript (doc.render true) = .ok reloaded ∧
        reloaded.attributes = doc.attributes ∧ reloaded.render true = doc.render true ∧
        reloaded.render false = doc.render true) ∧
      (t ≠ [] → ∀ requests : List Request, (∀ r ∈ requests, Name.IsPlain .jscript r.1) →
        hasHeader .jscript ((doc.trySetAll requests).render false) = hasHeader .jscript t ∧
          ((doc.trySetAll requests).AddsHeader ↔ doc.AddsHeader)) := by
  obtain ⟨o, hd, rfl, hr, hs⟩ := exists_readable_of_ofText h
  rw [hs.render_true hd]
  refine ⟨o.text_withHeader_eq_nil, Outline.hasHeader_withHeader, ?_, ?_⟩
  · obtain ⟨reloaded, hload, hshows, -⟩ := exists_ofText_of_readable (hr.withHeader hd)
    rw [Outline.dialect_withHeader, hd] at hload
    refine ⟨reloaded, hload, ?_, ?_, hshows.render_false⟩
    · rw [hshows.attributes_eq, hs.attributes_eq, Outline.attributes_withHeader]
    · rw [hshows.render_true (o.dialect_withHeader.trans hd), Outline.withHeader_withHeader]
  · intro hne requests hkeys
    obtain ⟨o', hs', hd', hne', hheader⟩ :=
      trySetAll_hasHeader hs (tidy_of_ofText h) (hr.anchored hd) hne hkeys
    rw [hs'.render_false, hs'.addsHeader_iff hd', hs.addsHeader_iff hd, hheader]
    exact ⟨rfl, by simp [hne, hne']⟩

/-- An import of another namespace is no header, and a value that cannot be written changes
nothing. -/
theorem reload_render_header_related_import : ∃ doc reloaded,
    ofText .jscript "import System.Reflection.Emit;\n[assembly: A(1)]".toList = .ok doc ∧
      ofText .jscript (doc.render true) = .ok reloaded ∧
      reloaded.render true = doc.render true ∧
      ((doc.trySetAll [("b".toList, .ok (.string "\n".toList)), ("A".toList, .ok .null)]).AddsHeader ↔
        doc.AddsHeader) := by
  obtain ⟨doc, h⟩ : ∃ doc, ofText .jscript
      "import System.Reflection.Emit;\n[assembly: A(1)]".toList = .ok doc :=
    Except.exists_of_isOk (by decide +kernel)
  obtain ⟨-, -, ⟨reloaded, hload, -, hrender, -⟩, hedit⟩ := reload_render_header h
  have hrequests := hedit (by decide)
    [("b".toList, .ok (.string "\n".toList)), ("A".toList, .ok .null)] (by decide)
  exact ⟨doc, reloaded, h, hload, hrender, hrequests.2⟩

end Document

end AssemblyInfo
