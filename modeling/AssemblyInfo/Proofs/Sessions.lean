import AssemblyInfo.Proofs.Commands
import AssemblyInfo.Proofs.Header

/-! Commands that set attributes of a JScript file one after another. Each of them reads back what
the one before it wrote, and finds the document that was in memory, with its header. So the last of
them leaves the bytes that a single command with all assignments would have left, and the header is
added by the first one or by none. -/

namespace AssemblyInfo.Command

open Declaration (Holds)
open Marked (keys)

/-- The arguments ask to set attributes of a JScript file in place, with the header if it is
missing, and name no options file. -/
def SetsInPlace (arguments : List Text) (file : Text) (assignments : List Text) : Prop :=
  ∃ inv, parse arguments = .ok inv ∧ inv.action = .set file assignments true true ∧
    inv.config = none ∧ dialect none inv = .jscript

/-- A JSON string, boolean or integer. -/
def isScalar : Json.Value → Bool
  | .string _ => true
  | .bool _ => true
  | .number (.integer _ _ _) => true
  | _ => false

/-- An assignment to a plain name, of a text that is not JSON or is a string, a boolean or an
integer in JSON. -/
def IsEdit (assignment : Text) : Prop :=
  ∃ name t, assignment = name ++ '=' :: t ∧ '=' ∉ name ∧ Name.IsPlain .jscript name.trim ∧
    ∀ v, Json.Value.parse? t = some v → isScalar v

/-- There is no file, or it holds a JScript document. If the blanks at its end hold a line feed, only
spaces and tabs follow the last one. -/
def Editable (files : Files) (file : Text) : Prop :=
  files.read file = .error .missing ∨
    ∃ bytes t doc, files.read file = .ok bytes ∧ Utf8.decode bytes = .ok t ∧
      Document.ofText .jscript t = .ok doc ∧ t.EndsBlank

theorem isEdit_append {name t : Text} (hname : '=' ∉ name) (hp : Name.IsPlain .jscript name.trim)
    (h : (Json.Value.parse? t).all isScalar) : IsEdit (name ++ '=' :: t) :=
  ⟨name, t, rfl, hname, hp, (Option.all_eq_true _ _).1 h⟩

/-- Runs commands one after another. Gives the files afterwards. -/
def runAll (settings : Settings) (files : Files) (commands : List (List Text)) : Files :=
  commands.foldl (fun files arguments => (run settings files arguments).2) files

/-! ### Plain command lines -/

theorem add_operand {allowed : List Flag} {side : Side} {argument : Text} (he : side.ended = false)
    (hp : side.pending = none) (h : Side.isOption argument = false) :
    side.add allowed argument = .ok { side with operands := side.operands ++ [argument] } := by
  unfold Side.add
  rw [if_neg (by simp [he]), hp]
  dsimp only
  split
  · contradiction
  · contradiction
  · contradiction
  · rfl

theorem foldlM_add_operands {allowed : List Flag} {side : Side} {arguments : List Text}
    (he : side.ended = false) (hp : side.pending = none)
    (h : ∀ a ∈ arguments, Side.isOption a = false) :
    arguments.foldlM (Side.add allowed) side =
      .ok { side with operands := side.operands ++ arguments } := by
  induction arguments generalizing side with
  | nil =>
    rw [List.append_nil]
    rfl
  | cons a arguments ih =>
    rw [List.foldlM_cons, add_operand he hp (h a List.mem_cons_self)]
    have hrest := @ih { side with operands := side.operands ++ [a] } he hp
      fun b hb => h b (List.mem_cons_of_mem a hb)
    rw [List.append_assoc, List.singleton_append] at hrest
    exact hrest

/-- An edit starts with its name or with blanks, and is no option. -/
theorem IsEdit.isOption_eq_false {assignment : Text} (h : IsEdit assignment) :
    Side.isOption assignment = false := by
  obtain ⟨name, t, rfl, -, hplain, -⟩ := h
  by_contra hoption
  obtain ⟨rest, rfl⟩ : ∃ rest, name = '-' :: rest := by
    match name, hoption with
    | [], hoption => exact absurd rfl hoption
    | c :: rest, hoption =>
      unfold Side.isOption at hoption
      split at hoption
      · exact ⟨rest, by simp_all⟩
      · contradiction
  have htrim : Text.trim ('-' :: rest) = Text.trimEnd ('-' :: rest) := rfl
  have hsplit : '-' ∈ Text.trimEnd ('-' :: rest) ++ Text.trailingBlanks ('-' :: rest) := by
    rw [Text.trimEnd_append_trailingBlanks]
    exact List.mem_cons_self
  rcases List.mem_append.1 hsplit with hmem | hmem
  · rw [htrim] at hplain
    exact absurd (hplain.2.1 '-' hmem) (by decide)
  · have hblank := List.mem_takeWhile_imp (List.mem_reverse.1 hmem)
    exact absurd hblank (by decide)

/-- The name of a JScript file, edits and the flag for changes in place are such arguments. -/
theorem setsInPlace_of_js {file : Text} {assignments : List Text} (hne : file ≠ [])
    (hfile : Side.isOption file = false) (hjs : dialectOfFile? file = some .jscript)
    (hsome : assignments ≠ []) (h : ∀ a ∈ assignments, IsEdit a) :
    SetsInPlace ("set".toList :: (file :: assignments ++ ["-i".toList])) file assignments := by
  obtain ⟨a, rest, rfl⟩ := List.exists_cons_of_ne_nil hsome
  have hfront : Side.addFront [.verbose, .version] {}
      ("set".toList :: (file :: a :: rest ++ ["-i".toList])) =
        .ok ({}, "set".toList, file :: a :: rest ++ ["-i".toList]) := rfl
  have hoperands : (file :: a :: rest).foldlM (Side.add setForm.flags) {} =
      .ok { operands := file :: a :: rest } :=
    foldlM_add_operands rfl rfl
      (List.forall_mem_cons.2 ⟨hfile, fun b hb => (h b hb).isOption_eq_false⟩)
  have hback : Side.addAll setForm.flags (file :: a :: rest ++ ["-i".toList]) =
      .ok { flags := [.inPlace], operands := file :: a :: rest } := by
    rw [Side.addAll, List.foldlM_append, hoperands]
    rfl
  have hform : form? "set".toList = some setForm := rfl
  have haction : setForm.action? [.inPlace] (file :: a :: rest) =
      some (.set file (a :: rest) true true) := rfl
  refine ⟨⟨.set file (a :: rest) true true, none, none, false⟩, ?_, rfl, rfl, ?_⟩
  · rw [parse, hfront]
    simp only [bind, Except.bind, hform, hback, haction]
    rw [if_neg (show (Action.set file (a :: rest) true true).file ≠ [] from hne)]
    rfl
  · simp [dialect, Action.file, hjs]

/-! ### What assignments set -/

variable {files : Files} {file : Text} {o : Outline}

/-- The settings that assignments ask for, one for each. -/
abbrev Assign (assignments : List Text) (sets : List (Text × Value)) : Prop :=
  List.Forall₂ (fun t p => Assigns t p.1 p.2) assignments sets

theorem IsEdit.exists_assigns {assignment : Text} (h : IsEdit assignment) :
    ∃ key value, Assigns assignment key value ∧ Name.IsPlain .jscript key ∧ value.isExact := by
  obtain ⟨name, t, rfl, hname, hplain, hscalar⟩ := h
  obtain ⟨value, hvalue, hexact⟩ : ∃ value, assignedValue t = .ok value ∧ value.isExact := by
    rw [assignedValue]
    cases hparse : Json.Value.parse? t with
    | none => exact ⟨_, rfl, rfl⟩
    | some v =>
      have hv := hscalar v hparse
      cases v with
      | string s => exact ⟨_, rfl, rfl⟩
      | bool b => exact ⟨_, rfl, rfl⟩
      | number n =>
        cases n with
        | integer n low high => exact ⟨_, rfl, rfl⟩
        | float negative m => contradiction
      | null => contradiction
      | array items => contradiction
      | object members => contradiction
  exact ⟨name.trim, value, ⟨name, t, rfl, hname, rfl, hplain.ne_nil, hvalue⟩, hplain, hexact⟩

/-- Settings of plain names to values that are read back. -/
def Plain (sets : List (Text × Value)) : Prop :=
  ∀ p ∈ sets, Name.IsPlain .jscript p.1 ∧ p.2.isExact

theorem exists_assign {assignments : List Text} (h : ∀ a ∈ assignments, IsEdit a) :
    ∃ sets, Assign assignments sets ∧ Plain sets := by
  induction assignments with
  | nil => exact ⟨[], .nil, by simp [Plain]⟩
  | cons a assignments ih =>
    obtain ⟨ha, hrest⟩ := List.forall_mem_cons.1 h
    obtain ⟨key, value, hassigns, hplain⟩ := ha.exists_assigns
    obtain ⟨sets, hsets, hall⟩ := ih hrest
    exact ⟨(key, value) :: sets, .cons hassigns hsets, List.forall_mem_cons.2 ⟨hplain, hall⟩⟩

theorem Plain.exists_holds {sets : List (Text × Value)} (h : Plain sets) :
    ∀ p ∈ sets, ∃ literal, Holds .jscript p.2 literal := by
  intro p hp
  obtain ⟨literal, hl⟩ := Value.exists_encode (h p hp).2
  exact ⟨literal, (h p hp).2, hl, nofun⟩

theorem Plain.exists_encode {sets : List (Text × Value)} (h : Plain sets) :
    ∀ p ∈ sets, ∃ literal, p.2.encode = .ok literal := fun p hp =>
  Value.exists_encode (h p hp).2

theorem Plain.sound_setAll {sets : List (Text × Value)} (h : Plain sets)
    (hd : o.dialect = .jscript) (ho : o.Sound) : (o.setAll sets).Sound :=
  ho.setAll (fun p hp => hd ▸ (h p hp).1) fun p hp => hd ▸ h.exists_holds p hp

/-! ### One command -/

/-- The file holds the text of an outline. There may be no file for the outline without text. -/
inductive Stores (files : Files) (file : Text) : Outline → Prop
  | missing (h : files.read file = .error .missing) : Stores files file ⟨.jscript, [], true⟩
  | text {o : Outline} (h : files.read file = .ok (Utf8.encode o.text))
      (dialect_eq : o.dialect = .jscript) (readable : o.Readable) : Stores files file o

theorem Stores.dialect_eq (h : Stores files file o) : o.dialect = .jscript := by
  cases h with
  | missing => rfl
  | text _ hd => exact hd

/-- A command opens the document of the outline that is stored. -/
theorem Stores.exists_opens {inv : Invocation} {assignments : List Text} (h : Stores files file o)
    (haction : inv.action = .set file assignments true true) (hconfig : inv.config = none)
    (hdialect : dialect none inv = .jscript) :
    ∃ doc, Opens files inv doc ∧ doc.Shows o ∧ doc.Tidy := by
  have hin : InDialect files inv .jscript := ⟨none, by rw [options, hconfig], hdialect⟩
  have hfile : inv.action.file = file := by rw [haction]; rfl
  cases h with
  | missing h =>
    rw [← hfile] at h
    exact ⟨_, .new hin h (by rw [haction]; rfl), Document.shows_empty .jscript,
      Document.tidy_of_ofText (Document.ofText_nil .jscript)⟩
  | text h hd hr =>
    rw [← hfile] at h
    obtain ⟨doc, hdoc, hshows, htidy⟩ := Document.exists_ofText_of_readable hr
    rw [hd] at hdoc
    exact ⟨doc, .file hin h (Utf8.decode_encode o.text) hdoc, hshows, htidy⟩

variable {arguments assignments : List Text} {sets : List (Text × Value)} {path : Path}

/-- A command writes the outline with its settings and its header, if the file can be written. -/
theorem run_setsInPlace (settings : Settings) (hs : SetsInPlace arguments file assignments)
    (ho : Stores files file o) (ha : Assign assignments sets) (hp : Plain sets) :
    ∃ inv edited, parse arguments = .ok inv ∧ Edits files inv assignments edited ∧
      edited.Shows (o.setAll sets) ∧ (o.setAll sets).dialect = .jscript ∧
      (run settings files arguments).2 =
        match files.write file (Utf8.encode (o.setAll sets).withHeader.text) with
        | .ok files' => files'
        | .error _ => files := by
  obtain ⟨inv, hparse, haction, hconfig, hdialect⟩ := hs
  obtain ⟨doc, hopens, hshows, htidy⟩ := ho.exists_opens haction hconfig hdialect
  obtain ⟨edited, hedited, hshows', -⟩ := hshows.setAll htidy hp.exists_encode
  have hd : (o.setAll sets).dialect = .jscript := (o.dialect_setAll sets).trans ho.dialect_eq
  have hedits : Edits files inv assignments edited := ⟨doc, sets, hopens, ha, hedited⟩
  refine ⟨inv, edited, hparse, hedits, hshows', hd, ?_⟩
  have hexecute := hedits.execute_eq haction settings.color
  rw [hshows'.render_true hd] at hexecute
  simp only [run, hparse, hexecute, if_true]
  cases files.write file (Utf8.encode (o.setAll sets).withHeader.text) with
  | error fault => rfl
  | ok files' => rfl

/-- Where the file can be written, it holds the new text afterwards. -/
theorem run_of_leadsTo (settings : Settings) (hs : SetsInPlace arguments file assignments)
    (ho : Stores files file o) (ha : Assign assignments sets) (hp : Plain sets)
    (hlead : files.LeadsTo file path) :
    (run settings files arguments).2 =
      files.put path (Utf8.encode (o.setAll sets).withHeader.text) := by
  obtain ⟨-, -, -, -, -, -, hrun⟩ := run_setsInPlace settings hs ho ha hp
  rw [hrun, hlead.write_eq]

/-- Where it cannot be written, nothing changes. -/
theorem run_of_not_leadsTo (settings : Settings) (hs : SetsInPlace arguments file assignments)
    (ho : Stores files file o) (ha : Assign assignments sets) (hp : Plain sets)
    (hlead : ¬∃ path, files.LeadsTo file path) : (run settings files arguments).2 = files := by
  obtain ⟨-, -, -, -, -, -, hrun⟩ := run_setsInPlace settings hs ho ha hp
  rw [hrun]
  cases hwrite : files.write file (Utf8.encode (o.setAll sets).withHeader.text) with
  | error fault => rfl
  | ok files' =>
    obtain ⟨path, hpath, -⟩ := Files.exists_leadsTo_of_write hwrite
    exact absurd ⟨path, hpath⟩ hlead

/-! ### Several commands -/

/-- The command carries out settings, at least one. -/
structure Carries (file : Text) (arguments : List Text) (sets : List (Text × Value)) : Prop where
  ne_nil : sets ≠ []
  plain : Plain sets
  asks : ∃ assignments, SetsInPlace arguments file assignments ∧ Assign assignments sets

variable {commands : List (List Text)} {runs : List (List (Text × Value))}

theorem runAll_cons (settings : Settings) (files : Files) (arguments : List Text)
    (commands : List (List Text)) :
    runAll settings files (arguments :: commands) =
      runAll settings (run settings files arguments).2 commands := rfl

/-- What a command wrote, the next one reads back. -/
theorem stores_put (hlead : files.LeadsTo file path) (hd : o.dialect = .jscript)
    (hr : o.Readable) :
    Stores (files.put path (Utf8.encode o.withHeader.text)) file o.withHeader :=
  .text (hlead.read_put _) (o.dialect_withHeader.trans hd) (hr.withHeader hd)

/-- Commands that follow a first one add their settings to what it set. -/
theorem runAll_put (settings : Settings) (hlead : files.LeadsTo file path)
    (hruns : List.Forall₂ (Carries file) commands runs) (hd : o.dialect = .jscript)
    (hsound : o.Sound) (hk : keys o.body ≠ []) :
    runAll settings (files.put path (Utf8.encode o.withHeader.text)) commands =
      files.put path (Utf8.encode (o.setAll runs.flatten).withHeader.text) := by
  induction hruns generalizing o with
  | nil => rfl
  | @cons arguments sets commands runs hcarries hrest ih =>
    obtain ⟨hne, hplain, assignments, hasks, hassign⟩ := hcarries
    have hlead' : (files.put path (Utf8.encode o.withHeader.text)).LeadsTo file path :=
      ⟨_, hlead.locate_put _, rfl⟩
    have hstep := run_of_leadsTo settings hasks (stores_put hlead hd hsound.readable) hassign hplain
      hlead'
    -- The header of the command before is the one that would be added now.
    rw [Files.put_put, Outline.withHeader_setAll (hsound.readable.anchored hd) hk
      (fun p hp => (hplain p hp).1) hplain.exists_encode] at hstep
    rw [runAll_cons, hstep, List.flatten_cons, Outline.setAll_append]
    exact ih ((o.dialect_setAll sets).trans hd) (hplain.sound_setAll hd hsound)
      (o.keys_setAll_ne_nil hne)

theorem runAll_of_leadsTo (settings : Settings) (hlead : files.LeadsTo file path)
    (ho : Stores files file o) (hsound : o.Sound)
    (hruns : List.Forall₂ (Carries file) commands runs) (hne : commands ≠ []) :
    runAll settings files commands =
      files.put path (Utf8.encode (o.setAll runs.flatten).withHeader.text) := by
  cases hruns with
  | nil => contradiction
  | @cons arguments sets commands runs hcarries hrest =>
    obtain ⟨hsome, hplain, assignments, hasks, hassign⟩ := hcarries
    rw [runAll_cons, run_of_leadsTo settings hasks ho hassign hplain hlead, List.flatten_cons,
      Outline.setAll_append]
    exact runAll_put settings hlead hrest ((o.dialect_setAll sets).trans ho.dialect_eq)
      (hplain.sound_setAll ho.dialect_eq hsound) (o.keys_setAll_ne_nil hsome)

theorem runAll_of_not_leadsTo (settings : Settings) (hlead : ¬∃ path, files.LeadsTo file path)
    (ho : Stores files file o) (hruns : List.Forall₂ (Carries file) commands runs) :
    runAll settings files commands = files := by
  induction hruns with
  | nil => rfl
  | cons hcarries _ ih =>
    obtain ⟨-, hplain, assignments, hasks, hassign⟩ := hcarries
    rw [runAll_cons, run_of_not_leadsTo settings hasks ho hassign hplain hlead]
    exact ih

theorem Editable.exists_stores (h : Editable files file) : ∃ o, Stores files file o ∧ o.Sound := by
  obtain hmissing | ⟨bytes, t, doc, hread, hdecode, hdoc, hends⟩ := h
  · have hlaid : Laid .jscript [] [] := .last (by simp) rfl
    exact ⟨_, .missing hmissing, Outline.readable_of_laid hlaid .nil, nofun, nofun⟩
  · obtain ⟨o, hd, rfl, hr, -⟩ := Document.exists_readable_of_ofText hdoc
    rw [← Utf8.encode_of_decode hdecode] at hread
    exact ⟨o, .text hread hd hr, hr, hends, fun hcs => by simp [hd] at hcs⟩

/-- The commands of a list of edits, one for each. -/
abbrev Commands (file : Text) (commands edits : List (List Text)) : Prop :=
  List.Forall₂ (fun arguments assignments =>
    assignments ≠ [] ∧ SetsInPlace arguments file assignments) commands edits

theorem exists_carries {edits : List (List Text)} (h : Commands file commands edits)
    (hedits : ∀ a ∈ edits.flatten, IsEdit a) :
    ∃ runs, List.Forall₂ (Carries file) commands runs ∧ Assign edits.flatten runs.flatten ∧
      Plain runs.flatten := by
  induction h with
  | nil => exact ⟨[], .nil, .nil, by simp [Plain]⟩
  | @cons arguments assignments commands edits hfirst _ ih =>
    rw [List.flatten_cons, List.forall_mem_append] at hedits
    obtain ⟨sets, hassign, hplain⟩ := exists_assign hedits.1
    obtain ⟨runs, hruns, hassigns, hplains⟩ := ih hedits.2
    have hne : sets ≠ [] := fun hnil => by
      subst hnil
      exact hfirst.1 (List.forall₂_nil_right_iff.1 hassign)
    refine ⟨sets :: runs, .cons ⟨hne, hplain, assignments, hfirst.2, hassign⟩ hruns, ?_, ?_⟩
    · exact List.rel_append hassign hassigns
    · exact List.forall_mem_append.2 ⟨hplain, hplains⟩

/-- Commands that set attributes of a JScript file one after another leave the files that one
command with all the assignments leaves. The file then holds the text with all attributes set, and
the header at most once more than the edited text. -/
theorem runAll_eq_run_flatten (settings : Settings) {edits : List (List Text)} {single : List Text}
    (hfile : Editable files file) (hne : edits ≠ []) (hcommands : Commands file commands edits)
    (hsingle : SetsInPlace single file edits.flatten) (hedits : ∀ a ∈ edits.flatten, IsEdit a) :
    runAll settings files commands = (run settings files single).2 ∧
      ∀ path, files.LeadsTo file path → ∃ inv edited, parse single = .ok inv ∧
        Edits files inv edits.flatten edited ∧
        (run settings files single).2.read file = .ok (Utf8.encode (edited.render true)) ∧
        (edited.render true = edited.render false ∨ edited.AddsHeader) := by
  obtain ⟨o, ho, hsound⟩ := hfile.exists_stores
  obtain ⟨runs, hruns, hassign, hplain⟩ := exists_carries hcommands hedits
  constructor
  · by_cases hlead : ∃ path, files.LeadsTo file path
    · obtain ⟨path, hpath⟩ := hlead
      have hsome : commands ≠ [] := fun hnil => by
        subst hnil
        exact hne (List.forall₂_nil_left_iff.1 hcommands)
      rw [runAll_of_leadsTo settings hpath ho hsound hruns hsome,
        run_of_leadsTo settings hsingle ho hassign hplain hpath]
    · rw [runAll_of_not_leadsTo settings hlead ho hruns,
        run_of_not_leadsTo settings hsingle ho hassign hplain hlead]
  · intro path hpath
    obtain ⟨inv, edited, hparse, hedited, hshows, hd, -⟩ :=
      run_setsInPlace settings hsingle ho hassign hplain
    refine ⟨inv, edited, hparse, hedited, ?_, hshows.render_true_or hd⟩
    rw [run_of_leadsTo settings hsingle ho hassign hplain hpath, hpath.read_put,
      hshows.render_true hd]

/-- A value that looks like the end of a declaration is read back by the second command, which
sets another attribute anew. -/
theorem runAll_eq_run_flatten_bracket :
    runAll {} [(["a.js".toList], Utf8.encode "// notes\n\t".toList)]
        [["set".toList, "a.js".toList, "A=1".toList, " b=\")]".toList, "-i".toList],
          ["set".toList, "a.js".toList, "A=true".toList, "-i".toList]] =
      (run {} [(["a.js".toList], Utf8.encode "// notes\n\t".toList)]
        ["set".toList, "a.js".toList, "A=1".toList, " b=\")]".toList, "A=true".toList,
          "-i".toList]).2 ∧
    ∃ edited : Document, (run {} [(["a.js".toList], Utf8.encode "// notes\n\t".toList)]
        ["set".toList, "a.js".toList, "A=1".toList, " b=\")]".toList, "A=true".toList,
          "-i".toList]).2.read "a.js".toList = .ok (Utf8.encode (edited.render true)) ∧
      (edited.render true = edited.render false ∨ edited.AddsHeader) := by
  have hone : IsEdit "A=1".toList :=
    @isEdit_append "A".toList "1".toList (by decide) (by decide) (by decide +kernel)
  have hbracket : IsEdit " b=\")]".toList :=
    @isEdit_append " b".toList "\")]".toList (by decide) (by decide) (by decide +kernel)
  have htrue : IsEdit "A=true".toList :=
    @isEdit_append "A".toList "true".toList (by decide) (by decide) (by decide +kernel)
  have hfirst : ∀ a ∈ ["A=1".toList, " b=\")]".toList], IsEdit a :=
    List.forall_mem_cons.2 ⟨hone, List.forall_mem_singleton.2 hbracket⟩
  have hsecond : ∀ a ∈ ["A=true".toList], IsEdit a := List.forall_mem_singleton.2 htrue
  have hedits : ∀ a ∈ ["A=1".toList, " b=\")]".toList] ++ ["A=true".toList], IsEdit a :=
    List.forall_mem_append.2 ⟨hfirst, hsecond⟩
  obtain ⟨doc, hdoc⟩ := Except.exists_of_isOk
    (x := Document.ofText .jscript "// notes\n\t".toList) (by decide +kernel)
  have hfile : Editable [(["a.js".toList], Utf8.encode "// notes\n\t".toList)] "a.js".toList :=
    .inr ⟨_, _, doc, Except.eq_ok_of_toOption (by decide +kernel), Utf8.decode_encode _, hdoc,
      fun _ => ⟨[], ['\t'], by decide +kernel, by simp [Text.isSpaceOrTab]⟩⟩
  have hasks : ∀ assignments, assignments ≠ [] → (∀ a ∈ assignments, IsEdit a) →
      SetsInPlace ("set".toList :: ("a.js".toList :: assignments ++ ["-i".toList])) "a.js".toList
        assignments := fun _ => setsInPlace_of_js (by decide) rfl (by decide)
  have hlead : Files.LeadsTo [(["a.js".toList], Utf8.encode "// notes\n\t".toList)] "a.js".toList
      ["a.js".toList] :=
    ⟨.file _ (Utf8.encode "// notes\n\t".toList), Except.eq_ok_of_toOption (by decide +kernel), rfl⟩
  have hcommands : Commands "a.js".toList
      [["set".toList, "a.js".toList, "A=1".toList, " b=\")]".toList, "-i".toList],
        ["set".toList, "a.js".toList, "A=true".toList, "-i".toList]]
      [["A=1".toList, " b=\")]".toList], ["A=true".toList]] :=
    .cons ⟨by simp, hasks _ (by simp) hfirst⟩ (.cons ⟨by simp, hasks _ (by simp) hsecond⟩ .nil)
  obtain ⟨heq, hread⟩ := runAll_eq_run_flatten {} hfile (by simp) hcommands
    (hasks _ (by simp) hedits) hedits
  obtain ⟨-, edited, -, -, hbytes, hheader⟩ := hread _ hlead
  exact ⟨heq, edited, hbytes, hheader⟩

end AssemblyInfo.Command
