import AssemblyInfo.Command.Run
import AssemblyInfo.Proofs.Anchoring
import AssemblyInfo.Proofs.Call
import AssemblyInfo.Proofs.Capitals
import AssemblyInfo.Proofs.Objects
import AssemblyInfo.Proofs.Swallowing

/-! Lists of attributes read back. A key has no blanks, whatever the dialect, and a literal stands
on one line, so each line of the plain list is cut at its first space into the key and the value.
The JSON list is an object with the keys and the values as members, in the order of the
document. -/

namespace AssemblyInfo

open Text (isBlank)

/-! ### Joined lines -/

namespace Text

theorem lines_joinWith {ls : List Text} (hne : ls ≠ []) (h : ∀ l ∈ ls, '\n' ∉ l) :
    lines (joinWith ['\n'] ls) = ls :=
  List.splitOn_intercalate '\n' h hne

theorem joinWith_newline {ls : List Text} (hne : ls ≠ []) :
    joinWith ['\n'] ls ++ ['\n'] = ls.flatMap (· ++ ['\n']) := by
  induction ls with
  | nil => contradiction
  | cons l ls ih =>
    cases ls with
    | nil => simp [joinWith]
    | cons m ls =>
      rw [List.flatMap_cons, ← ih (List.cons_ne_nil m ls)]
      simp [joinWith]

end Text

/-! ### Keys -/

/-- A name that is not empty and has no blanks. -/
structure Name.IsSolid (t : Text) : Prop where
  ne_nil : t ≠ []
  isBlank : ∀ c ∈ t, isBlank c = false

namespace Name

variable {t : Text}

theorem IsSolid.not_mem (h : IsSolid t) {c : Char} (hc : Text.isBlank c) : c ∉ t := by
  intro hm
  rw [h.isBlank c hm] at hc
  contradiction

theorem IsSolid.key_ofText (h : IsSolid t) : IsSolid (ofText t).key := by
  rcases ofText_cases t with ⟨-, hne, ht⟩ | ht
  · refine ⟨hne, fun c hc => h.isBlank c ?_⟩
    rw [ht]
    exact List.mem_append_left _ hc
  · rw [ht]
    exact h

theorem IsSolid.capitalize (h : IsSolid t) : IsSolid t.capitalize := by
  refine ⟨?_, Text.isBlank_of_mem_capitalize h.isBlank⟩
  obtain ⟨c, t, rfl⟩ := List.exists_cons_of_ne_nil h.ne_nil
  simp [Text.capitalize, Text.uppercase_ne_nil]

theorem IsSolid.key_canonical (h : IsSolid t) (dialect : Dialect) :
    IsSolid (canonical dialect t).key := by
  cases dialect with
  | csharp => exact h.key_ofText
  | jscript => exact h.capitalize.key_ofText

end Name

/-- A declared name has no blanks. -/
theorem Declaration.isSolid_of_declared {dialect : Dialect} {t rest name : Text} {d : Declaration}
    {value : Value} (hr : read? dialect t = some (d, rest)) (hd : d.declared = .ok (name, value)) :
    Name.IsSolid name := by
  cases dialect with
  | csharp =>
    obtain ⟨e, rfl, he, -⟩ := read?_csharp_iff.1 hr
    obtain ⟨v, -, hv⟩ := Except.map_eq_ok_iff.1 hd
    cases hv
    exact ⟨he.name_ne_nil, fun c hc => Text.isBlank_of_isAlphanum (he.name c hc)⟩
  | jscript =>
    obtain ⟨⟨e, r⟩, -, he⟩ := Option.map_eq_some_iff.1 hr
    obtain ⟨rfl, rfl⟩ := Prod.mk.inj he
    have hcallee := Call.isCallee_of_declared hd
    exact ⟨hcallee.ne_nil, fun c hc =>
      Text.isBlank_of_isIdentifierChar (hcallee.isIdentifierChar c hc)⟩

/-- No key of a loaded document has blanks. -/
theorem Document.isSolid_of_mem_attributes {dialect : Dialect} {source key : Text} {doc : Document}
    {value : Value} (h : ofText dialect source = .ok doc) (hmem : (key, value) ∈ doc.attributes) :
    Name.IsSolid key := by
  have hkey : key ∈ OrderedMap.keys doc.attributes := List.mem_map_of_mem hmem
  rw [attributes_of_ofText h, OrderedMap.keys_ofList, List.mem_eraseDups,
    Declaration.pairs_eq_filterMap] at hkey
  obtain ⟨p, hp, rfl⟩ := List.mem_map.1 hkey
  obtain ⟨d, hd, hpair⟩ := List.mem_filterMap.1 hp
  obtain ⟨⟨name, v⟩, hdeclared, rfl⟩ := Option.map_eq_some_iff.1 hpair
  obtain ⟨rest, hread⟩ := Laid.exists_read? (laid_iff.2 rfl) ((Marked.mem_items ..).1 hd)
  exact (Declaration.isSolid_of_declared hread
    (Except.eq_ok_of_toOption hdeclared)).key_canonical dialect

/-! ### Values -/

namespace Value

def isFloat : Value → Bool
  | .number (.float _ _) => true
  | _ => false

variable {v : Value}

theorem display_cases (hv : v.isFloat = false) :
    v = .null ∧ v.display = "null".toList ∨ v.isExact ∧ v.encode = .ok v.display := by
  cases v with
  | null => exact .inl ⟨rfl, rfl⟩
  | bool b => cases b <;> exact .inr ⟨rfl, rfl⟩
  | number n =>
    cases n with
    | integer n low high => exact .inr ⟨rfl, rfl⟩
    | float negative m => contradiction
  | string t => exact .inr ⟨rfl, rfl⟩

theorem decode_display (hv : v.isFloat = false) : decode v.display = .ok v := by
  rcases display_cases hv with ⟨rfl, hnull⟩ | ⟨hexact, hl⟩
  · rw [hnull]
    decide +kernel
  · exact decode_literal hexact hl

theorem newline_not_mem_display (v : Value) : '\n' ∉ v.display := by
  unfold display
  split
  · next literal hl => exact newline_not_mem_literal hl
  · decide

/-- The value in JSON. -/
def toJson : Value → Json.Value
  | .null => .null
  | .bool b => .bool b
  | .number n => .number n
  | .string t => .string t

@[simp] theorem ofJson_toJson (v : Value) : ofJson v.toJson = .ok v := by
  cases v <;> rfl

/-- The shape that the value is displayed in. -/
def shape : Value → Json.Shape
  | .null => .null
  | .bool b => .bool b
  | .number (.integer n _ _) => .number (.ofInt n)
  | .number (.float negative m) => .number (.ofDecimal negative m.shortest)
  | .string t => .string (t.map Json.Piece.ofChar)

theorem written_display (v : Value) : Json.Shape.Written v.display v.shape := by
  cases v with
  | null => exact fun _ _ _ => rfl
  | bool b =>
    cases b with
    | false => exact fun _ _ _ => rfl
    | true => exact fun _ _ _ => rfl
  | number n =>
    cases n with
    | integer n low high =>
      have hwritten := Json.Shape.written_number (Json.Numeral.wellFormed_ofInt n)
      rw [Json.Numeral.text_ofInt] at hwritten
      exact hwritten
    | float negative m =>
      have hwritten := Json.Shape.written_number
        (Json.Numeral.wellFormed_ofDecimal negative m.isNormal_shortest)
      rw [Json.Numeral.text_ofDecimal] at hwritten
      exact hwritten
  | string t => exact Json.Shape.written_quote t

theorem value?_shape (hv : v.isFloat = false) (depth : Nat) :
    v.shape.value? depth = some v.toJson := by
  cases v with
  | null => rfl
  | bool b => rfl
  | number n =>
    cases n with
    | integer n low high =>
      rw [shape, Json.Shape.value?, Json.Numeral.number?_ofInt n low high]
      rfl
    | float negative m => contradiction
  | string t =>
    rw [shape, Json.Shape.value?, Json.joinPieces?_map_ofChar]
    rfl

end Value

namespace Command

variable {attributes : List (Text × Value)}

/-! ### The JSON list -/

theorem members?_shapes (h : ∀ p ∈ attributes, p.2.isFloat = false) (depth : Nat) :
    Json.Shape.members? depth
        (attributes.map fun p => (p.1.map Json.Piece.ofChar, p.2.shape)) =
      some (attributes.map fun p => (p.1, p.2.toJson)) := by
  induction attributes with
  | nil => rfl
  | cons p attributes ih =>
    obtain ⟨hp, hrest⟩ := List.forall_mem_cons.1 h
    simp only [List.map_cons, Json.Shape.members?, Json.joinPieces?_map_ofChar,
      Value.value?_shape hp, ih hrest]
    rfl

/-- The JSON list is an object with the attributes as members. -/
theorem parse?_jsonListing (h : ∀ p ∈ attributes, p.2.isFloat = false) :
    Json.Value.parse? (jsonListing attributes) =
      some (.object (attributes.map fun p => (p.1, p.2.toJson))) := by
  have hshape : Json.Shape.parse? (jsonListing attributes) =
      some (.object (attributes.map fun p => (p.1.map Json.Piece.ofChar, p.2.shape))) :=
    Json.Shape.parse?_writeObjectLines fun p _ => p.2.written_display
  rw [Json.Value.parse?, hshape]
  exact congrArg (Option.map _) (members?_shapes h _)

/-! ### The plain list -/

/-- The line of an attribute, with a column of `width` characters for the keys. -/
def line (width : Nat) (p : Text × Value) : Text :=
  p.1 ++ List.replicate (width - p.1.length) ' ' ++ " = ".toList ++ p.2.display

/-- Reads a line: the key up to the first space, and the value after the sign. -/
def readLine? (t : Text) : Option (Text × Value) := do
  let (key, rest) ← Text.splitAt? ' ' t
  let literal ← "= ".toList.isPrefixOf? (rest.dropWhile (· == ' '))
  let value ← (Value.decode literal).toOption
  some (key, value)

theorem listing_eq (attributes : List (Text × Value)) :
    listing false attributes =
      Text.joinWith ['\n'] (attributes.map (line (keyWidth attributes))) := rfl

/-- A line gives back the attribute, however wide the column is. -/
theorem readLine?_line {p : Text × Value} (hkey : ' ' ∉ p.1) (hv : p.2.isFloat = false)
    (width : Nat) : readLine? (line width p) = some p := by
  -- the first space is one of the column, or the one before the sign if the key is as wide
  obtain ⟨n, hn⟩ : ∃ n, line width p =
      p.1 ++ ' ' :: (List.replicate n ' ' ++ '=' :: ' ' :: p.2.display) := by
    refine ⟨width - p.1.length, ?_⟩
    have hspaces : List.replicate (width - p.1.length) ' ' ++ [' '] =
        ' ' :: List.replicate (width - p.1.length) ' ' :=
      List.replicate_succ'.symm.trans List.replicate_succ
    have hassoc : line width p = p.1 ++ ((List.replicate (width - p.1.length) ' ' ++ [' ']) ++
        '=' :: ' ' :: p.2.display) := by
      simp [line]
    rw [hassoc, hspaces]
    rfl
  have hspaces : ∀ c ∈ List.replicate n ' ', c == ' ' := by
    intro c hc
    simp [List.eq_of_mem_replicate hc]
  have hdrop := (Text.span_run_cons (p := (· == ' ')) (t := ' ' :: p.2.display) hspaces
    (by decide : ('=' == ' ') = false)).2
  rw [readLine?, hn, Text.splitAt?_append hkey]
  simp only [Option.bind_eq_bind, Option.bind_some, hdrop]
  have hafter : "= ".toList.isPrefixOf? ('=' :: ' ' :: p.2.display) = some p.2.display :=
    Text.isPrefixOf?_append "= ".toList p.2.display
  rw [hafter, Option.bind_some, Value.decode_display hv]
  rfl

theorem mapM_readLine? {width : Nat}
    (h : ∀ p ∈ attributes, readLine? (line width p) = some p) :
    (attributes.map (line width)).mapM readLine? = some attributes := by
  induction attributes with
  | nil => rfl
  | cons p attributes ih =>
    obtain ⟨hp, hrest⟩ := List.forall_mem_cons.1 h
    rw [List.map_cons, List.mapM_cons, hp, ih hrest]
    rfl

/-! ### The width of the keys -/

/-- The width of the column is the length of the longest key. -/
theorem max?_length_keys (h : attributes ≠ []) :
    (attributes.map fun p => p.1.length).max? = some (keyWidth attributes) := by
  obtain ⟨n, hn⟩ : ∃ n, (attributes.map fun p => p.1.length).max? = some n :=
    Option.isSome_iff_exists.1 (List.isSome_max?_of_ne_nil (mt List.map_eq_nil_iff.1 h))
  have hfold : keyWidth attributes = max 0 ((attributes.map fun p => p.1.length).max?.getD 0) :=
    List.foldl_max
  rw [hfold, hn, Option.getD_some, Nat.zero_max]

theorem length_le_keyWidth {p : Text × Value} (h : p ∈ attributes) :
    p.1.length ≤ keyWidth attributes :=
  (List.max?_eq_some_iff.1 (max?_length_keys (List.ne_nil_of_mem h))).2 _ (List.mem_map_of_mem h)

theorem exists_length_eq_keyWidth (h : attributes ≠ []) :
    ∃ p ∈ attributes, p.1.length = keyWidth attributes :=
  List.mem_map.1 (List.max?_eq_some_iff.1 (max?_length_keys h)).1

/-! ### Both lists -/

/-- The lines of the plain list: one for each attribute, so none if there is none. -/
def listingLines (attributes : List (Text × Value)) : List Text :=
  if attributes = [] then [] else Text.lines (listing false attributes)

theorem listingLines_eq (hkeys : ∀ p ∈ attributes, Name.IsSolid p.1) :
    listingLines attributes = attributes.map (line (keyWidth attributes)) := by
  rw [listingLines]
  split_ifs with hnil
  · rw [hnil]
    rfl
  · rw [listing_eq]
    refine Text.lines_joinWith (by simpa using hnil) ?_
    intro l hl
    obtain ⟨p, hp, rfl⟩ := List.mem_map.1 hl
    have hkey := (hkeys p hp).not_mem (by decide : isBlank '\n')
    simp [line, hkey, p.2.newline_not_mem_display]

/-- A command for the list prints the lines, or the JSON list. -/
theorem execute_list {read : Reader} {inv : Invocation} {options : Option DocumentOptions}
    {file : Text} {json : Bool} {doc : Document} (ha : inv.action = .list file json)
    (ho : Command.options read inv = .ok options)
    (hd : load read (dialect options inv) file = .ok doc)
    (hkeys : ∀ p ∈ doc.attributes, Name.IsSolid p.1) :
    execute read false inv = .ok (.print (if json then jsonListing doc.attributes ++ ['\n']
      else (listingLines doc.attributes).flatMap (· ++ ['\n']))) := by
  have hprint : (if doc.attributes = [] then Except.ok (.print [])
      else Except.ok (.print (listing false doc.attributes ++ ['\n'])) : Except Error Output) =
      .ok (.print ((listingLines doc.attributes).flatMap (· ++ ['\n']))) := by
    rw [listingLines_eq hkeys, listing_eq]
    split_ifs with hnil
    · rw [hnil]
      rfl
    · rw [Text.joinWith_newline (by simpa using hnil)]
  simp only [execute, ho, ha, hd, bind, Except.bind]
  cases json with
  | true => rfl
  | false => exact hprint

/-- Both lists tell the attributes of a document without floats. Each line of the plain list is the
key, spaces up to the length of the longest key, the sign and the literal, and none of these has a
line feed or the key a blank, so a line is read back as its attribute. The JSON list is read back as
the object of the attributes. -/
theorem read_listing {dialect : Dialect} {source : Text} {doc : Document}
    (h : Document.ofText dialect source = .ok doc)
    (hfloat : ∀ p ∈ doc.attributes, p.2.isFloat = false) :
    (∀ p ∈ doc.attributes, p.1 ≠ [] ∧ (∀ c ∈ p.1, isBlank c = false) ∧ '\n' ∉ p.2.display ∧
      p.1.length ≤ keyWidth doc.attributes) ∧
    (doc.attributes ≠ [] → ∃ p ∈ doc.attributes, p.1.length = keyWidth doc.attributes) ∧
    listingLines doc.attributes = doc.attributes.map (fun p =>
      p.1 ++ List.replicate (keyWidth doc.attributes - p.1.length) ' ' ++ " = ".toList ++
        p.2.display) ∧
    (listingLines doc.attributes).mapM readLine? = some doc.attributes ∧
    Json.Value.parse? (jsonListing doc.attributes) =
      some (.object (doc.attributes.map fun p => (p.1, p.2.toJson))) ∧
    ∀ read inv options file json, inv.action = .list file json →
      Command.options read inv = .ok options →
      load read (Command.dialect options inv) file = .ok doc →
      execute read false inv = .ok (.print (if json then jsonListing doc.attributes ++ ['\n']
        else (listingLines doc.attributes).flatMap (· ++ ['\n']))) := by
  have hkeys (p : Text × Value) (hp : p ∈ doc.attributes) : Name.IsSolid p.1 :=
    Document.isSolid_of_mem_attributes h hp
  have hlines := listingLines_eq hkeys
  refine ⟨?_, exists_length_eq_keyWidth, hlines, ?_, parse?_jsonListing hfloat, ?_⟩
  · intro p hp
    exact ⟨(hkeys p hp).ne_nil, (hkeys p hp).isBlank, p.2.newline_not_mem_display,
      length_le_keyWidth hp⟩
  · rw [hlines, mapM_readLine?]
    intro p hp
    exact readLine?_line ((hkeys p hp).not_mem (by decide)) (hfloat p hp) _
  · intro read inv options file json ha ho hd
    exact execute_list ha ho hd hkeys

/-- The shorter key is padded, a marker has the literal of null, and a line feed in a string is
escaped. -/
theorem read_listing_marker : ∃ doc,
    Document.ofText .jscript "[assembly: foo]\n[assembly: A('x\\ny')]".toList = .ok doc ∧
    listingLines doc.attributes = ["Foo = null".toList, "A   = \"x\\ny\"".toList] ∧
    (listingLines doc.attributes).mapM readLine? =
      some [("Foo".toList, .null), ("A".toList, .string "x\ny".toList)] ∧
    Json.Value.parse? (jsonListing doc.attributes) =
      some (.object [("Foo".toList, .null), ("A".toList, .string "x\ny".toList)]) ∧
    execute (fun _ => .ok (Utf8.encode "[assembly: foo]\n[assembly: A('x\\ny')]".toList)) false
        ⟨.list "a.js".toList false, none, none, false⟩ =
      .ok (.print "Foo = null\nA   = \"x\\ny\"\n".toList) := by
  obtain ⟨doc, h⟩ := Except.exists_of_isOk (x := Document.ofText .jscript
    "[assembly: foo]\n[assembly: A('x\\ny')]".toList) (by decide +kernel)
  have hattributes : doc.attributes =
      [("Foo".toList, .null), ("A".toList, .string "x\ny".toList)] :=
    (Document.attributes_of_ofText h).trans (by decide +kernel)
  obtain ⟨-, -, hlines, hread, hjson, hexecute⟩ := read_listing h
    (by rw [hattributes]; decide)
  have hload : load (fun _ => .ok (Utf8.encode "[assembly: foo]\n[assembly: A('x\\ny')]".toList))
      (dialect none ⟨.list "a.js".toList false, none, none, false⟩) "a.js".toList = .ok doc := by
    rw [← h]
    rfl
  have hprinted := hexecute _ _ _ _ _ rfl rfl hload
  refine ⟨doc, h, ?_⟩
  rw [hattributes] at hlines hread hjson hprinted ⊢
  refine ⟨hlines.trans (by decide +kernel), hread, hjson, ?_⟩
  rw [hprinted, hlines]
  decide +kernel

end Command

end AssemblyInfo
