import AssemblyInfo.Proofs.Integrity

/-! Documents with all bounds checked. The operations on documents are given once more, now with the
texts of slices taken out of the source by their offsets, with places looked up before they are
written, and with a demotion only of a declaration that stands in the source. A step that is out of
bounds is stuck and gives nothing. In a well-formed document none is, and the steps give what the
operations give. -/

namespace AssemblyInfo

/-- The fragments with another one at a place. None if there is no such place. -/
def setAt? (fragments : List Fragment) (i : Nat) (f : Fragment) : Option (List Fragment) :=
  if i < fragments.length then some (fragments.set i f) else none

/-- Turns a declaration into plain text. None if no declaration of the source is at the place. -/
def demoteAt? (fragments : List Fragment) (i : Nat) : Option (List Fragment) :=
  match fragments[i]? with
  | some (.declared s) => some (fragments.set i (.literal s))
  | _ => none

namespace Fragment

/-- The text of a fragment, for a slice by its offsets in the source. -/
def textIn? (source : Text) : Fragment → Option Text
  | .literal s => source.slice? s.start s.stop
  | .newline => some ['\n']
  | .declared s => source.slice? s.start s.stop
  | .written t => some t

/-- Whether what follows the trimmed text of a fragment holds a line feed. -/
def endsLine? (source : Text) (f : Fragment) : Option Bool := do
  let t ← f.textIn? source
  let blanks ← t.slice? t.trimEnd.byteSize t.byteSize
  return blanks.contains '\n'

variable {source : Text} {f : Fragment}

theorem textIn?_eq (h : ∀ s, f.slice? = some s → s.IsIn source) :
    f.textIn? source = some f.text := by
  cases f with
  | literal s => exact Slice.isIn_iff_slice?.1 (h s rfl)
  | newline => rfl
  | declared s => exact Slice.isIn_iff_slice?.1 (h s rfl)
  | written t => rfl

theorem endsLine?_eq (h : ∀ s, f.slice? = some s → s.IsIn source) :
    f.endsLine? source = some f.endsLine := by
  have hslice : f.text.slice? f.text.trimEnd.byteSize f.text.byteSize =
      some f.text.trailingBlanks := by
    have htext := f.text.trimEnd_append_trailingBlanks
    refine Text.slice?_eq_some_iff.2 ⟨f.text.trimEnd, [], by simp, rfl, ?_⟩
    rw [← Text.byteSize_append, htext]
  simp [endsLine?, textIn?_eq h, hslice, endsLine]

end Fragment

namespace Document

/-! ### Checked operations -/

/-- Registers an attribute. Stuck if the previous declaration of the key cannot be demoted. -/
def register? (doc : Document) (name : Name) (value : Value) (fragment : Nat) : Option Document :=
  let suffixMode := doc.suffixMode || name.suffixed
  let entry : Entry := ⟨Name.written name.key suffixMode, value, fragment⟩
  let registered := { doc with suffixMode, registry := doc.registry.insert name.key entry }
  match doc.registry.find? name.key with
  | none => some registered
  | some previous =>
    (demoteAt? doc.fragments previous.fragment).map fun fragments => { registered with fragments }

/-- Adds a segment of the source. -/
def add? (doc : Document) : Segment → Option (Except Error Document)
  | .gap s => some (.ok (doc.push (.literal s)))
  | .declaration start d =>
    match d.declared with
    | .error e => some (.error e)
    | .ok (name, value) =>
      let doc := doc.push (.declared ⟨start, d.text⟩)
      (doc.register? (Name.canonical doc.dialect name) value (doc.fragments.length - 1)).map .ok

/-- Adds segments up to the first one that fails. -/
def addAll? (doc : Document) : List Segment → Option (Except Error Document)
  | [] => some (.ok doc)
  | segment :: segments =>
    match doc.add? segment with
    | none => none
    | some (.error e) => some (.error e)
    | some (.ok doc) => addAll? doc segments

def ofText? (dialect : Dialect) (source : Text) : Option (Except Error Document) :=
  (empty dialect).addAll? (Segment.ofSource dialect source)

/-- The text of the document, with its slices taken out of the source. -/
def text? (source : Text) (doc : Document) : Option Text :=
  (doc.fragments.mapM (Fragment.textIn? source)).map List.flatten

/-- Ends the last line. -/
def endLine? (source : Text) (doc : Document) : Option Document :=
  match doc.fragments.getLast? with
  | none => some doc
  | some f => (f.endsLine? source).map fun ends => if ends then doc else doc.push .newline

/-- Writes the declaration of a registered attribute anew. -/
def replace? (doc : Document) (key : Text) (entry : Entry) (value : Value) (literal : Text) :
    Option Document := do
  let fragments ←
    setAt? doc.fragments entry.fragment (Fragment.ofAttribute entry.writtenName literal)
  return { doc with fragments, registry := doc.registry.insert key { entry with value } }

/-- Appends the declaration of an attribute. It is empty until the name to write is known. -/
def append? (source : Text) (doc : Document) (name : Name) (value : Value) (literal : Text) :
    Option Document := do
  let doc ← doc.endLine? source
  let doc := doc.push (.written [])
  let place := doc.fragments.length - 1
  let doc ← doc.register? name value place
  let entry ← doc.registry.find? name.key
  let fragments ← setAt? doc.fragments place (Fragment.ofAttribute entry.writtenName literal)
  return { doc with fragments }

/-- Sets an attribute. -/
def set? (source : Text) (doc : Document) (key : Text) (value : Value) :
    Option (Except Error Document) :=
  match value.encode with
  | .error e => some (.error e)
  | .ok literal =>
    let name := Name.canonical doc.dialect key
    match doc.registry.find? name.key with
    | some entry => (doc.replace? name.key entry value literal).map .ok
    | none => (doc.append? source name value literal).map .ok

/-! ### Loading is never stuck -/

variable {source : Text} {doc : Document}

/-- A registration is not stuck if the previous entry of the key points to a declaration of the
source. -/
theorem register?_eq {name : Name} (value : Value) (i : Nat)
    (h : ∀ p, doc.registry.find? name.key = some p →
      ∃ s, doc.fragments[p.fragment]? = some (.declared s)) :
    doc.register? name value i = some (doc.register name value i) := by
  unfold register? register
  cases hfind : doc.registry.find? name.key with
  | none => rfl
  | some previous =>
    obtain ⟨s, hs⟩ := h previous hfind
    have hmodify : doc.fragments.modify previous.fragment Fragment.demote =
        doc.fragments.set previous.fragment (.literal s) := by
      rw [List.modify_eq_set_getElem?, hs]
      rfl
    simp [demoteAt?, hs, hmodify]

theorem Loaded.add?_eq {before : List Segment} (h : Loaded before doc) (segment : Segment) :
    doc.add? segment = some (doc.add segment) := by
  cases segment with
  | gap s => rfl
  | declaration start d =>
    have hregister (name : Name) (value : Value) :
        (doc.push (.declared ⟨start, d.text⟩)).register? name value doc.fragments.length =
          some ((doc.push (.declared ⟨start, d.text⟩)).register name value
            doc.fragments.length) := by
      apply register?_eq
      intro p hp
      obtain ⟨s, hs⟩ := h.declared hp
      have hlt := (List.getElem?_eq_some_iff.1 hs).1
      exact ⟨s, by rw [push, List.getElem?_append_left hlt, hs]⟩
    have hplace : (doc.push (.declared ⟨start, d.text⟩)).fragments.length - 1 =
        doc.fragments.length := by simp [push]
    simp only [add?, Document.add, hplace, hregister]
    cases d.declared with
    | error e => rfl
    | ok r => rfl

theorem Loaded.addAll?_eq {before : List Segment} (h : Loaded before doc)
    (segments : List Segment) : doc.addAll? segments = some (segments.foldlM Document.add doc) := by
  induction segments generalizing doc before with
  | nil => rfl
  | cons segment segments ih =>
    rw [addAll?, h.add?_eq, List.foldlM_cons]
    cases hadd : doc.add segment with
    | error e => rfl
    | ok next => exact ih (h.add hadd)

/-! ### Setting is never stuck -/

theorem WellFormed.isIn_of_mem {f : Fragment} (h : WellFormed source doc) (hf : f ∈ doc.fragments) :
    ∀ s, f.slice? = some s → s.IsIn source :=
  fun s hs => h.isIn s (List.mem_filterMap.2 ⟨f, hf, hs⟩)

theorem WellFormed.text?_eq (h : WellFormed source doc) : doc.text? source = some doc.text := by
  have hmap (fragments : List Fragment)
      (hf : ∀ f ∈ fragments, f.textIn? source = some f.text) :
      fragments.mapM (Fragment.textIn? source) = some (fragments.map Fragment.text) := by
    induction fragments with
    | nil => rfl
    | cons f fragments ih =>
      rw [List.mapM_cons, hf f List.mem_cons_self,
        ih fun g hg => hf g (List.mem_cons_of_mem f hg)]
      rfl
  rw [text?, hmap _ fun f hf => Fragment.textIn?_eq (h.isIn_of_mem hf), Option.map_some, text,
    List.flatMap_def]

theorem WellFormed.endLine?_eq (h : WellFormed source doc) :
    doc.endLine? source = some doc.endLine := by
  unfold endLine? endLine needsNewline
  cases hlast : doc.fragments.getLast? with
  | none => rfl
  | some f =>
    have hf : f ∈ doc.fragments := List.mem_of_getLast? hlast
    dsimp only
    rw [Fragment.endsLine?_eq (h.isIn_of_mem hf), Option.map_some]
    by_cases hends : f.endsLine
    · simp [hends]
    · simp [hends]

theorem WellFormed.replace?_eq {key : Text} {entry : Entry} (h : WellFormed source doc)
    (hfind : doc.registry.find? key = some entry) (value : Value) (literal : Text) :
    doc.replace? key entry value literal = some (doc.replace key entry value literal) := by
  have hlt := (h.linked.points hfind).lt_length
  simp [replace?, setAt?, hlt, Document.replace]

theorem WellFormed.append?_eq {name : Name} (h : WellFormed source doc)
    (hfind : doc.registry.find? name.key = none) (value : Value) (literal : Text) :
    doc.append? source name value literal = some (doc.append name value literal) := by
  have hfind' : doc.endLine.registry.find? name.key = none := by rwa [registry_endLine]
  have hregister : (doc.endLine.push (.written [])).register? name value
      doc.endLine.fragments.length = some ((doc.endLine.push (.written [])).register name value
        doc.endLine.fragments.length) :=
    register?_eq value _ fun p hp => absurd (hfind'.symm.trans hp) (by simp)
  have hplace : (doc.endLine.push (.written [])).fragments.length - 1 =
      doc.endLine.fragments.length := by simp [push]
  have hentry : ((doc.endLine.push (.written [])).register name value
      doc.endLine.fragments.length).registry.find? name.key =
        some ⟨Name.written name.key (doc.endLine.suffixMode || name.suffixed), value,
          doc.endLine.fragments.length⟩ := Registry.find?_insert_self _ _ _
  have hfragments : ((doc.endLine.push (.written [])).register name value
      doc.endLine.fragments.length).fragments = doc.endLine.fragments ++ [.written []] := by
    simp only [register, push, hfind']
  have hset (f : Fragment) : setAt? (doc.endLine.fragments ++ [.written []])
      doc.endLine.fragments.length f = some (doc.endLine.fragments ++ [f]) := by
    simp [setAt?, List.set_append_right]
  simp only [append?, h.endLine?_eq, Option.bind_eq_bind, Option.bind_some, hplace, hregister,
    hentry, hfragments, hset]
  simp only [Document.append, push, register, hfind']
  rfl

theorem WellFormed.set?_eq (h : WellFormed source doc) (key : Text) (value : Value) :
    doc.set? source key value = some (doc.set key value) := by
  unfold set? Document.set
  cases value.encode with
  | error e => rfl
  | ok literal =>
    dsimp only
    cases hfind : doc.registry.find? (Name.canonical doc.dialect key).key with
    | some entry =>
      dsimp only
      rw [h.replace?_eq hfind]
      simp [Except.map]
    | none =>
      dsimp only
      rw [h.append?_eq hfind]
      simp [Except.map]

/-- Documents never get out of bounds, and what is reached by requests from a loaded document is
well-formed. -/
theorem wellFormed_and_never_stuck (dialect : Dialect) (source : Text) :
    ofText? dialect source = some (ofText dialect source) ∧
    ∀ doc, ofText dialect source = .ok doc → ∀ requests,
      WellFormed source (doc.trySetAll requests) ∧
      (∀ t, .written t ∈ (doc.trySetAll requests).fragments → t ≠ []) ∧
      (doc.trySetAll requests).text? source = some (doc.trySetAll requests).text ∧
      ∀ key value, (doc.trySetAll requests).set? source key value =
        some ((doc.trySetAll requests).set key value) := by
  refine ⟨(loaded_empty dialect).addAll?_eq _, ?_⟩
  intro doc h requests
  have hwell := (wellFormed_of_ofText h).trySetAll requests
  refine ⟨hwell, ?_, hwell.text?_eq, hwell.set?_eq⟩
  rintro t ht rfl
  obtain ⟨hhead, -⟩ := hwell.bracketed _ ht rfl
  contradiction

/-- The second declaration takes the place of the first, in a source with a character of two bytes.
Of the requests the first appends and the second fails. -/
theorem wellFormed_and_never_stuck_duplicate : ∃ doc,
    ofText .csharp "é\n[assembly: A(1)]\n [assembly: A(2)]".toList = .ok doc ∧
    WellFormed "é\n[assembly: A(1)]\n [assembly: A(2)]".toList
      (doc.trySetAll [("B".toList, .ok (.bool true)), ("A".toList, .ok .null)]) ∧
    (doc.trySetAll [("B".toList, .ok (.bool true)), ("A".toList, .ok .null)]).text?
        "é\n[assembly: A(1)]\n [assembly: A(2)]".toList =
      some "é\n[assembly: A(1)]\n [assembly: A(2)]\n[assembly: B(true)]".toList := by
  obtain ⟨doc, h⟩ := Except.exists_of_isOk
    (x := ofText .csharp "é\n[assembly: A(1)]\n [assembly: A(2)]".toList) (by decide +kernel)
  obtain ⟨hwell, -, htext, -⟩ := (wellFormed_and_never_stuck _ _).2 doc h
    [("B".toList, .ok (.bool true)), ("A".toList, .ok .null)]
  refine ⟨doc, h, hwell, htext.trans ?_⟩
  have hedited : (ofText .csharp "é\n[assembly: A(1)]\n [assembly: A(2)]".toList).toOption.map
      (fun doc => (doc.trySetAll [("B".toList, .ok (.bool true)), ("A".toList, .ok .null)]).text) =
    some "é\n[assembly: A(1)]\n [assembly: A(2)]\n[assembly: B(true)]".toList := by
    decide +kernel
  rw [h] at hedited
  exact hedited

end Document

end AssemblyInfo
