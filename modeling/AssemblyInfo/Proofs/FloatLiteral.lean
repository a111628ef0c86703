import AssemblyInfo.Proofs.Decimals
import AssemblyInfo.Proofs.Declaration.Written

/-! Literals of all values, floats included. The literal of a float is a numeral, so that it has
neither quotes, brackets nor blanks, and it is read as a float of the same sign, but not always as
the same one. All other literals are read as the values that they were written for. So each literal
can stand in a declaration in brackets. -/

namespace AssemblyInfo

open Text (isBlank Passes)

/-! ### Floats -/

namespace Json.Number

variable {negative : Bool} {m : Binary64.Magnitude} {c : Char}

theorem mem_write_float (h : c ∈ (float negative m).write) :
    c.isDigit ∨ c ∈ ['-', '+', '.', 'e'] := by
  obtain ⟨n, hn, htext, -⟩ := exists_numeral negative m
  rw [← htext] at h
  exact Numeral.mem_text hn h

theorem not_mem_marks_of_mem_write (h : c ∈ (float negative m).write) : c ∉ Text.marks := by
  have hmarks : Text.marks.all fun d => !(d.isDigit || ['-', '+', '.', 'e'].elem d) := by decide
  intro hmark
  have hother := List.all_eq_true.1 hmarks c hmark
  rw [List.elem_eq_mem, Bool.not_eq_true', Bool.eq_false_iff, ne_eq, Bool.or_eq_true,
    decide_eq_true_eq] at hother
  exact hother (mem_write_float h)

theorem isBlank_of_mem_write (h : c ∈ (float negative m).write) : isBlank c = false := by
  have hsigns : ['-', '+', '.', 'e'].all fun d => !isBlank d := by decide
  rcases mem_write_float h with hdigit | hsign
  · exact Text.isBlank_of_isAlphanum (by simp [Char.isAlphanum, hdigit])
  · simpa using List.all_eq_true.1 hsigns c hsign

end Json.Number

/-! ### All values -/

namespace Value

variable {v : Value} {literal : Text}

theorem encode_cases (h : v.encode = .ok literal) :
    v.isExact ∨ ∃ negative m, v = .number (.float negative m) ∧
      literal = (Json.Number.float negative m).write := by
  cases v with
  | null => contradiction
  | bool b => exact .inl rfl
  | number n =>
    cases n with
    | integer n low high => exact .inl rfl
    | float negative m => exact .inr ⟨negative, m, rfl, (Except.ok.inj h).symm⟩
  | string t => exact .inl rfl

/-- What the literal of a value may be read as: as the value itself, or for a float as a float of
the same sign. -/
def ReadsAs (v v' : Value) : Prop :=
  v' = v ∨ ∃ negative m m', v = .number (.float negative m) ∧ v' = .number (.float negative m')

theorem ReadsAs.exists_encode {v' : Value} (h : v.ReadsAs v') (hv : v.encode = .ok literal) :
    ∃ literal', v'.encode = .ok literal' := by
  rcases h with rfl | ⟨negative, m, m', -, rfl⟩
  · exact ⟨literal, hv⟩
  · exact ⟨_, rfl⟩

/-- Every literal is read. -/
theorem exists_decode_of_encode (h : v.encode = .ok literal) :
    ∃ v', v.ReadsAs v' ∧ decode literal = .ok v' := by
  rcases encode_cases h with hexact | ⟨negative, m, rfl, rfl⟩
  · exact ⟨v, .inl rfl, decode_literal hexact h⟩
  · obtain ⟨m', hm'⟩ := Json.Number.exists_parse?_write negative m
    have hquote : '\'' ∉ (Json.Number.float negative m).write := fun hm =>
      Json.Number.not_mem_marks_of_mem_write hm (by decide)
    refine ⟨.number (.float negative m'), .inr ⟨negative, m, m', rfl, rfl⟩, ?_⟩
    rw [decode_bare (fun c hc => Json.Number.isBlank_of_mem_write hc) hquote, hm']
    rfl

theorem trim_of_encode (h : v.encode = .ok literal) : literal.trim = literal := by
  rcases encode_cases h with hexact | ⟨negative, m, rfl, rfl⟩
  · exact trim_literal hexact h
  · exact Text.trim_of_no_blank fun c hc => Json.Number.isBlank_of_mem_write hc

theorem ne_nil_of_encode (h : v.encode = .ok literal) : literal ≠ [] := by
  rintro rfl
  obtain ⟨v', -, hdecode⟩ := exists_decode_of_encode h
  have hnone : (decode []).toOption = none := by decide +kernel
  rw [hdecode] at hnone
  contradiction

end Value

theorem Text.Passes.of_encode {v : Value} {literal : Text} (h : v.encode = .ok literal) :
    Passes .outside literal .outside := by
  rcases Value.encode_cases h with hexact | ⟨negative, m, rfl, rfl⟩
  · exact Passes.literal hexact h
  · exact Passes.of_not_marks fun c hc => Json.Number.not_mem_marks_of_mem_write hc

/-- A declaration in brackets that is written for a value declares what its literal is read as. -/
theorem Declaration.JScript.exists_declared_written {name literal : Text} {v : Value}
    (hn : Call.IsCallee name) (h : v.encode = .ok literal) :
    ∃ v', v.ReadsAs v' ∧ (written .jscript name literal).declared = .ok (name, v') := by
  obtain ⟨v', hreads, hdecode⟩ := Value.exists_decode_of_encode h
  exact ⟨v', hreads, declared_of_decode hn (.of_encode h) (Value.ne_nil_of_encode h)
    (Value.trim_of_encode h) hdecode⟩

end AssemblyInfo
