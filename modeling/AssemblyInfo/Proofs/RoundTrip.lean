import AssemblyInfo.Proofs.Refinement
import AssemblyInfo.Proofs.Utf8

/-! Documents that are written as they were loaded. The fragments of a loaded document are the
segments of its source one after another, and the bytes of the source are the UTF-8 form of its
text, so that nothing but the header of JScript is ever added. -/

namespace AssemblyInfo.Document

variable {dialect : Dialect} {doc : Document} {t : Text}

theorem render_false (doc : Document) : doc.render false = doc.text := by
  unfold render
  cases doc.dialect.header? with
  | none => rfl
  | some line => simp

theorem render_csharp (h : doc.dialect = .csharp) (header : Bool) :
    doc.render header = doc.text := by
  rw [render, h]
  rfl

theorem render_jscript (h : doc.dialect = .jscript) (header : Bool) :
    doc.render header = doc.text ∨
      doc.render header = "import System.Reflection;\n".toList ++ doc.text := by
  have hline : "import System.Reflection;\n".toList =
      "import System.Reflection;".toList ++ ['\n'] := by decide
  rw [render, h, Dialect.header?, hline]
  dsimp only
  split_ifs
  · right
    simp
  · exact .inl rfl

/-- A loaded document has the text that it was loaded from. -/
theorem text_of_ofText (h : ofText dialect t = .ok doc) : doc.text = t := by
  have hmap : doc.fragments.map Fragment.text = (Segment.ofSource dialect t).map Segment.text :=
    map_text_of_foldlM_add h
  rw [text_of_map_text hmap, ← List.flatMap_def]
  exact Segment.flatMap_text_cut dialect 0 t

/-- A document that is loaded from bytes is written as these bytes, in JScript with the header or
without. -/
theorem encode_render {bytes : Bytes} (h : ofSource dialect (.bytes bytes) = .ok doc) :
    Utf8.encode (doc.render false) = bytes ∧
      match dialect with
      | .csharp => Utf8.encode (doc.render true) = bytes
      | .jscript => Utf8.encode (doc.render true) = bytes ∨
          Utf8.encode (doc.render true) =
            Utf8.encode "import System.Reflection;\n".toList ++ bytes := by
  obtain ⟨t, ht, hdoc⟩ := Except.bind_eq_ok_iff.1 h
  have hbytes : Utf8.encode t = bytes := Utf8.encode_of_decode (Except.mapError_eq_ok_iff.1 ht)
  have htext := text_of_ofText hdoc
  obtain ⟨_, _, _, hs⟩ := exists_reads_of_ofText hdoc
  have hd : doc.dialect = dialect := hs.dialect_eq
  refine ⟨by rw [render_false, htext, hbytes], ?_⟩
  cases dialect with
  | csharp => exact by rw [render_csharp hd, htext, hbytes]
  | jscript =>
    rcases render_jscript hd true with hr | hr
    · exact .inl (by rw [hr, htext, hbytes])
    · right
      rw [hr, htext, Utf8.encode_append, hbytes]

/-- Two declarations of one key, a carriage return, text after a bracket and characters of two
bytes. -/
theorem encode_render_duplicate :
    ∃ doc, ofSource .jscript (.bytes (Utf8.encode
        "// é\r\n[assembly: A(1)] x\n [assembly: AAttribute('ü')]".toList)) = .ok doc ∧
      Utf8.encode (doc.render false) = Utf8.encode
        "// é\r\n[assembly: A(1)] x\n [assembly: AAttribute('ü')]".toList := by
  obtain ⟨doc, h⟩ : ∃ doc, ofSource .jscript (.bytes (Utf8.encode
      "// é\r\n[assembly: A(1)] x\n [assembly: AAttribute('ü')]".toList)) = .ok doc :=
    Except.exists_of_isOk (by decide +kernel)
  exact ⟨doc, h, (encode_render h).1⟩

end AssemblyInfo.Document
