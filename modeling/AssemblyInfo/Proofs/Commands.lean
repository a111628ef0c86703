import AssemblyInfo.Command.Run
import AssemblyInfo.Proofs.Editing
import AssemblyInfo.Proofs.Files
import AssemblyInfo.Proofs.OrderedMap

/-! What commands do to files. A command either fails, and then it has no output and leaves all files
as they are, or it goes through and changes at most the one file that it is to write. What makes it
fail is said without running it: a fault of the options, of the document, of the first wrong
assignment, or of the file that is to be written. -/

namespace AssemblyInfo.Command

variable {doc doc' : Document} {files : Files} {inv : Invocation}

/-! ### Assignments -/

/-- The text gives a value to a key: the key stands before the first equals sign, maybe between
blanks, and the value after it. -/
def Assigns (assignment key : Text) (value : Value) : Prop :=
  ∃ name t, assignment = name ++ '=' :: t ∧ '=' ∉ name ∧ name.trim = key ∧ key ≠ [] ∧
    assignedValue t = .ok value

/-- What is wrong with an assignment, whatever the document. -/
inductive Faulty : Text → Error → Prop
  | notAssignment {t : Text} (h : '=' ∉ t) : Faulty t (.notAssignment t)
  | noKey {name t : Text} (h : '=' ∉ name) (hname : name.trim = []) :
      Faulty (name ++ '=' :: t) (.noKey (name ++ '=' :: t))
  | unsupported {name t : Text} {v : Json.Value} (h : '=' ∉ name) (hname : name.trim ≠ [])
      (hv : Json.Value.parse? t = some v) (hkind : v.kind ∈ [Json.Kind.null, .array, .object]) :
      Faulty (name ++ '=' :: t) (.unsupported v.kind)

theorem assign_of_not_mem {t : Text} (h : '=' ∉ t) : assign doc t = .error (.notAssignment t) := by
  rw [assign, splitAssignment, Text.splitAt?_of_not_mem h]
  rfl

theorem assign_append {name t : Text} (h : '=' ∉ name) :
    assign doc (name ++ '=' :: t) =
      if name.trim = [] then .error (.noKey (name ++ '=' :: t))
      else assignedValue t >>= doc.set name.trim := by
  rw [assign, splitAssignment, Text.splitAt?_append h]
  dsimp only
  split_ifs
  · rfl
  · rfl

/-- A value cannot be assigned if it is the JSON null, an array or an object. -/
theorem assignedValue_bind_set_eq_error_iff {key t : Text} {e : Error} :
    assignedValue t >>= doc.set key = .error e ↔ ∃ v, Json.Value.parse? t = some v ∧
      v.kind ∈ [Json.Kind.null, .array, .object] ∧ e = .unsupported v.kind := by
  have hset (value : Value) : (.ok value >>= doc.set key) = .error e ↔ value.encode = .error e :=
    Document.set_eq_error_iff
  rw [assignedValue]
  cases hv : Json.Value.parse? t with
  | none => simp [hset, Value.encode]
  | some v =>
    dsimp only
    cases v with
    | null => simp [Value.ofJson, hset, Value.encode, Json.Value.kind, eq_comm]
    | bool b => cases b <;> simp [Value.ofJson, hset, Value.encode, Json.Value.kind]
    | number n => simp [Value.ofJson, hset, Value.encode, Json.Value.kind]
    | string s => simp [Value.ofJson, hset, Value.encode, Json.Value.kind]
    | array vs => simp [Value.ofJson, bind, Except.bind, Json.Value.kind, eq_comm]
    | object ms => simp [Value.ofJson, bind, Except.bind, Json.Value.kind, eq_comm]

theorem assign_eq_error_iff {t : Text} {e : Error} : assign doc t = .error e ↔ Faulty t e := by
  constructor
  · intro h
    by_cases ht : '=' ∈ t
    · obtain ⟨name, t, rfl, hname⟩ := List.eq_append_cons_of_mem ht
      rw [assign_append hname] at h
      split_ifs at h with hkey
      · cases h
        exact .noKey hname hkey
      · obtain ⟨v, hv, hkind, rfl⟩ := assignedValue_bind_set_eq_error_iff.1 h
        exact .unsupported hname hkey hv hkind
    · rw [assign_of_not_mem ht] at h
      cases h
      exact .notAssignment ht
  · intro h
    cases h with
    | notAssignment ht => exact assign_of_not_mem ht
    | noKey hname hkey => rw [assign_append hname, if_pos hkey]
    | unsupported hname hkey hv hkind =>
      rw [assign_append hname, if_neg hkey]
      exact assignedValue_bind_set_eq_error_iff.2 ⟨_, hv, hkind, rfl⟩

theorem assign_eq_ok_iff {t : Text} : assign doc t = .ok doc' ↔
    ∃ key value, Assigns t key value ∧ doc.set key value = .ok doc' := by
  constructor
  · intro h
    by_cases ht : '=' ∈ t
    · obtain ⟨name, t, rfl, hname⟩ := List.eq_append_cons_of_mem ht
      rw [assign_append hname] at h
      split_ifs at h with hkey
      obtain ⟨value, hvalue, hset⟩ := Except.bind_eq_ok_iff.1 h
      exact ⟨Text.trim name, value, ⟨name, t, rfl, hname, rfl, hkey, hvalue⟩, hset⟩
    · rw [assign_of_not_mem ht] at h
      contradiction
  · rintro ⟨_, value, ⟨name, t, rfl, hname, rfl, hkey, hvalue⟩, hset⟩
    rw [assign_append hname, if_neg hkey]
    exact Except.bind_eq_ok_iff.2 ⟨value, hvalue, hset⟩

theorem foldlM_assign_eq_error_iff {assignments : List Text} {e : Error} :
    assignments.foldlM assign doc = .error e ↔ FirstFault Faulty assignments e :=
  foldlM_eq_error_iff assign (fun _ _ _ => assign_eq_error_iff) _ _ _

theorem foldlM_assign_eq_ok_iff {assignments : List Text} :
    assignments.foldlM assign doc = .ok doc' ↔ ∃ sets,
      List.Forall₂ (fun t p => Assigns t p.1 p.2) assignments sets ∧
        doc.setAll sets = .ok doc' := by
  induction assignments generalizing doc with
  | nil =>
    constructor
    · exact fun h => ⟨[], .nil, h⟩
    · rintro ⟨sets, hsets, h⟩
      cases hsets
      exact h
  | cons t assignments ih =>
    rw [List.foldlM_cons]
    constructor
    · intro h
      obtain ⟨next, hnext, h⟩ := Except.bind_eq_ok_iff.1 h
      obtain ⟨key, value, ht, hset⟩ := assign_eq_ok_iff.1 hnext
      obtain ⟨sets, hsets, h⟩ := ih.1 h
      refine ⟨(key, value) :: sets, .cons ht hsets, ?_⟩
      exact Except.bind_eq_ok_iff.2 ⟨next, hset, h⟩
    · rintro ⟨_, hsets, h⟩
      cases hsets with
      | @cons _ p _ sets ht hsets =>
        obtain ⟨next, hset, h⟩ := Except.bind_eq_ok_iff.1 h
        exact Except.bind_eq_ok_iff.2
          ⟨next, assign_eq_ok_iff.2 ⟨p.1, p.2, ht, hset⟩, ih.2 ⟨sets, hsets, h⟩⟩

/-! ### The document of a command -/

/-- The dialect that a command takes, if its options are readable. -/
def InDialect (files : Files) (inv : Invocation) (d : Dialect) : Prop :=
  ∃ o, options files.read inv = .ok o ∧ dialect o inv = d

def Action.sets : Action → Bool
  | .set _ _ _ _ => true
  | _ => false

/-- The document that a command works on: that of its file, or a new one to set attributes in if
there is no file. -/
inductive Opens (files : Files) (inv : Invocation) : Document → Prop
  | file {d : Dialect} {bytes : Bytes} {t : Text} {doc : Document} (hd : InDialect files inv d)
      (hread : files.read inv.action.file = .ok bytes) (ht : Utf8.decode bytes = .ok t)
      (h : Document.ofText d t = .ok doc) : Opens files inv doc
  | new {d : Dialect} (hd : InDialect files inv d)
      (hread : files.read inv.action.file = .error .missing) (hsets : inv.action.sets) :
      Opens files inv (Document.empty d)

/-- Why there is no document for a command. -/
inductive Unopenable (files : Files) (inv : Invocation) : Error → Prop
  | options {path : Text} {e : Error} (h : inv.config = some path)
      (he : DocumentOptions.ofFile (files.read path) = .error e) : Unopenable files inv e
  | unreadable {d : Dialect} {fault : FileFault} (hd : InDialect files inv d)
      (hread : files.read inv.action.file = .error fault)
      (hsets : ¬(inv.action.sets ∧ fault = .missing)) : Unopenable files inv (.file fault)
  | notText {d : Dialect} {bytes : Bytes} {fault : Utf8.Fault} (hd : InDialect files inv d)
      (hread : files.read inv.action.file = .ok bytes) (ht : Utf8.decode bytes = .error fault) :
      Unopenable files inv (.notUtf8 fault)
  | declaration {d : Dialect} {bytes : Bytes} {t : Text} {e : Error} (hd : InDialect files inv d)
      (hread : files.read inv.action.file = .ok bytes) (ht : Utf8.decode bytes = .ok t)
      (h : FirstFault (fun p e => p.2.declared = .error e) (Declaration.scan d t) e) :
      Unopenable files inv e

/-- Opens the document of a command. -/
def openDocument (read : Reader) (inv : Invocation) : Except Error Document := do
  let d := dialect (← options read inv) inv
  if inv.action.sets then loadOrNew read d inv.action.file else load read d inv.action.file

section Opening

variable {d : Dialect} {bytes : Bytes} {fault : FileFault} {e : Error}

theorem openDocument_of_options_error (h : options files.read inv = .error e) :
    openDocument files.read inv = .error e := by
  rw [openDocument, h]
  rfl

theorem openDocument_of_read (hd : InDialect files inv d)
    (h : files.read inv.action.file = .ok bytes) :
    openDocument files.read inv =
      (Utf8.decode bytes).mapError Error.notUtf8 >>= Document.ofText d := by
  obtain ⟨o, ho, rfl⟩ := hd
  rw [openDocument, ho]
  simp only [loadOrNew, load, h, ite_self]
  rfl

theorem openDocument_of_fault (hd : InDialect files inv d)
    (h : files.read inv.action.file = .error fault) :
    openDocument files.read inv =
      if inv.action.sets ∧ fault = .missing then .ok (Document.empty d)
      else .error (.file fault) := by
  obtain ⟨o, ho, rfl⟩ := hd
  rw [openDocument, ho]
  change (if inv.action.sets then loadOrNew files.read (dialect o inv) inv.action.file
    else load files.read (dialect o inv) inv.action.file) = _
  cases inv.action.sets with
  | false => simp [load, h]
  | true =>
    by_cases hmissing : fault = .missing
    · subst hmissing
      simp only [loadOrNew, h, and_self, if_true]
      exact Document.ofText_nil (dialect o inv)
    · simp [loadOrNew, load, h, hmissing]

theorem options_eq_error_iff : options files.read inv = .error e ↔
    ∃ path, inv.config = some path ∧ DocumentOptions.ofFile (files.read path) = .error e := by
  unfold options
  cases inv.config with
  | none => simp
  | some path => cases h : DocumentOptions.ofFile (files.read path) <;> simp [h, Except.map]

theorem Opens.openDocument_eq (h : Opens files inv doc) :
    openDocument files.read inv = .ok doc := by
  cases h with
  | file hd hread ht h =>
    rw [openDocument_of_read hd hread, ht]
    exact h
  | new hd hread hsets => rw [openDocument_of_fault hd hread, if_pos ⟨hsets, rfl⟩]

theorem Unopenable.openDocument_eq (h : Unopenable files inv e) :
    openDocument files.read inv = .error e := by
  cases h with
  | options h he => exact openDocument_of_options_error (options_eq_error_iff.2 ⟨_, h, he⟩)
  | unreadable hd hread hsets => rw [openDocument_of_fault hd hread, if_neg hsets]
  | notText hd hread ht =>
    rw [openDocument_of_read hd hread, ht]
    rfl
  | declaration hd hread ht h =>
    rw [openDocument_of_read hd hread, ht]
    exact Document.ofText_eq_error_iff.2 h

theorem opens_or_unopenable (files : Files) (inv : Invocation) :
    (∃ doc, Opens files inv doc) ∨ ∃ e, Unopenable files inv e := by
  cases ho : options files.read inv with
  | error e =>
    obtain ⟨path, h, he⟩ := options_eq_error_iff.1 ho
    exact .inr ⟨e, .options h he⟩
  | ok o =>
    have hd : InDialect files inv (dialect o inv) := ⟨o, ho, rfl⟩
    cases hread : files.read inv.action.file with
    | error fault =>
      by_cases hnew : inv.action.sets ∧ fault = .missing
      · obtain ⟨hsets, rfl⟩ := hnew
        exact .inl ⟨_, .new hd hread hsets⟩
      · exact .inr ⟨_, .unreadable hd hread hnew⟩
    | ok bytes =>
      cases ht : Utf8.decode bytes with
      | error fault => exact .inr ⟨_, .notText hd hread ht⟩
      | ok t =>
        cases h : Document.ofText (dialect o inv) t with
        | error e => exact .inr ⟨e, .declaration hd hread ht (Document.ofText_eq_error_iff.1 h)⟩
        | ok doc => exact .inl ⟨doc, .file hd hread ht h⟩

end Opening

/-! ### Commands -/

/-- Carries out an action on the document of its file. -/
def perform (color : Bool) (action : Action) (doc : Document) : Except Error Output :=
  match action with
  | .get _ key =>
    match doc.get? key with
    | none => .error (.notFound key)
    | some value => .ok (.print (plainValue value ++ ['\n']))
  | .set file assignments inPlace header =>
    (assignments.foldlM assign doc).map fun doc =>
      if inPlace then .write file (doc.render header) else .print (doc.render header)
  | .list _ json =>
    if json then .ok (.print (jsonListing doc.attributes ++ ['\n']))
    else if doc.attributes = [] then .ok (.print [])
    else .ok (.print (listing color doc.attributes ++ ['\n']))

/-- A command opens its document and works on it. -/
theorem execute_eq (read : Reader) (color : Bool) (inv : Invocation) :
    execute read color inv = openDocument read inv >>= perform color inv.action := by
  obtain ⟨action, _, _, _⟩ := inv
  rw [execute, openDocument]
  cases options read _ with
  | error e => rfl
  | ok o =>
    cases action with
    | get file key => rfl
    | set file assignments inPlace header =>
      simp only [bind, Except.bind, Action.sets, perform, Except.map]
      rfl
    | list file json => rfl

theorem Opens.execute_eq (h : Opens files inv doc) (color : Bool) :
    execute files.read color inv = perform color inv.action doc := by
  rw [Command.execute_eq, h.openDocument_eq]
  rfl

/-- The document of a command after its assignments, from left to right. -/
def Edits (files : Files) (inv : Invocation) (assignments : List Text) (doc : Document) : Prop :=
  ∃ start sets, Opens files inv start ∧
    List.Forall₂ (fun t p => Assigns t p.1 p.2) assignments sets ∧ start.setAll sets = .ok doc

/-- Why a command fails. -/
inductive Fails (files : Files) (inv : Invocation) : Error → Prop
  | unopenable {e : Error} (h : Unopenable files inv e) : Fails files inv e
  | notFound {doc : Document} {file key : Text} (h : Opens files inv doc)
      (haction : inv.action = .get file key) (hget : doc.get? key = none) :
      Fails files inv (.notFound key)
  | assignment {doc : Document} {file : Text} {assignments : List Text} {inPlace header : Bool}
      {e : Error} (h : Opens files inv doc)
      (haction : inv.action = .set file assignments inPlace header)
      (hfault : FirstFault Faulty assignments e) : Fails files inv e
  | write {doc : Document} {file : Text} {assignments : List Text} {header : Bool}
      {fault : FileFault} (haction : inv.action = .set file assignments true header)
      (h : Edits files inv assignments doc)
      (hwrite : files.write file (Utf8.encode (doc.render header)) = .error fault) :
      Fails files inv (.file fault)

/-- What a command prints and leaves behind if it does not fail: the rendered document, printed or
in place of the file, if it is to set attributes, and else the files as they are. -/
def Succeeds (files : Files) (inv : Invocation) (out : Text) (files' : Files) : Prop :=
  match inv.action with
  | .set file assignments inPlace header => ∃ doc, Edits files inv assignments doc ∧
      if inPlace then out = [] ∧ files.Replaces file (Utf8.encode (doc.render header)) files'
      else out = doc.render header ∧ files' = files
  | .get _ _ => files' = files
  | .list _ _ => files' = files

section Run

variable {settings : Settings} {arguments : List Text} {e : Error}

theorem run_of_execute_error (h : parse arguments = .ok inv)
    (he : execute files.read settings.color inv = .error e) :
    run settings files arguments =
      (.ended 1 [] (shownLog settings files.read inv ++ errorLine settings.color e), files) := by
  simp only [run, h, he]

theorem run_of_execute_print {t : Text} (h : parse arguments = .ok inv)
    (ht : execute files.read settings.color inv = .ok (.print t)) :
    run settings files arguments = (.ended 0 t (shownLog settings files.read inv), files) := by
  simp only [run, h, ht]

theorem Edits.execute_eq {assignments : List Text} {file : Text} {inPlace header : Bool}
    (h : Edits files inv assignments doc)
    (haction : inv.action = .set file assignments inPlace header) (color : Bool) :
    execute files.read color inv =
      .ok (if inPlace then .write file (doc.render header) else .print (doc.render header)) := by
  obtain ⟨start, sets, hopens, hsets, hdoc⟩ := h
  have hfold : assignments.foldlM assign start = .ok doc :=
    foldlM_assign_eq_ok_iff.2 ⟨sets, hsets, hdoc⟩
  rw [hopens.execute_eq, haction, perform, hfold]
  rfl

theorem Fails.run_eq (h : parse arguments = .ok inv) (hf : Fails files inv e) :
    run settings files arguments =
      (.ended 1 [] (shownLog settings files.read inv ++ errorLine settings.color e), files) := by
  cases hf with
  | unopenable hopen =>
    apply run_of_execute_error h
    rw [execute_eq, hopen.openDocument_eq]
    rfl
  | notFound hopens haction hget =>
    apply run_of_execute_error h
    simp only [hopens.execute_eq, haction, perform, hget]
  | assignment hopens haction hfault =>
    apply run_of_execute_error h
    rw [hopens.execute_eq, haction, perform, foldlM_assign_eq_error_iff.2 hfault]
    rfl
  | write haction hedits hwrite =>
    have hexecute := hedits.execute_eq haction settings.color
    simp only [run, h, hexecute, if_true, hwrite]

theorem exists_run_eq_of_not_fails (h : parse arguments = .ok inv)
    (hf : ∀ e, ¬Fails files inv e) : ∃ out files',
      run settings files arguments = (.ended 0 out (shownLog settings files.read inv), files') ∧
      Succeeds files inv out files' := by
  obtain ⟨doc, hopens⟩ | ⟨e, he⟩ := opens_or_unopenable files inv
  swap
  · exact absurd (.unopenable he) (hf e)
  have hexecute := hopens.execute_eq settings.color
  unfold Succeeds
  cases haction : inv.action with
  | get file key =>
    rw [haction] at hexecute
    cases hget : doc.get? key with
    | none => exact absurd (.notFound hopens haction hget) (hf _)
    | some value =>
      simp only [perform, hget] at hexecute
      exact ⟨_, files, run_of_execute_print h hexecute, rfl⟩
  | list file json =>
    rw [haction] at hexecute
    simp only [perform] at hexecute
    split_ifs at hexecute
    all_goals exact ⟨_, files, run_of_execute_print h hexecute, rfl⟩
  | set file assignments inPlace header =>
    cases hfold : assignments.foldlM assign doc with
    | error e =>
      exact absurd (.assignment hopens haction (foldlM_assign_eq_error_iff.1 hfold)) (hf e)
    | ok edited =>
      obtain ⟨sets, hsets, hedited⟩ := foldlM_assign_eq_ok_iff.1 hfold
      have hedits : Edits files inv assignments edited := ⟨doc, sets, hopens, hsets, hedited⟩
      have hexecute := hedits.execute_eq haction settings.color
      cases inPlace with
      | false => exact ⟨_, files, run_of_execute_print h hexecute, edited, hedits, rfl, rfl⟩
      | true =>
        cases hwrite : files.write file (Utf8.encode (edited.render header)) with
        | error fault => exact absurd (.write haction hedits hwrite) (hf _)
        | ok files' =>
          refine ⟨[], files', ?_, edited, hedits, rfl, Files.replaces_of_write hwrite⟩
          simp only [run, h, hexecute, if_true, hwrite]

/-- A command is all or nothing. If it fails, it has no output but the reason among its messages, and
all files are as they were; if not, it changes at most the file that it is to write. -/
theorem run_all_or_nothing (settings : Settings) (files : Files) (h : parse arguments = .ok inv) :
    (∀ e, Fails files inv e → run settings files arguments =
      (.ended 1 [] (shownLog settings files.read inv ++ errorLine settings.color e), files)) ∧
    ((∀ e, ¬Fails files inv e) → ∃ out files',
      run settings files arguments = (.ended 0 out (shownLog settings files.read inv), files') ∧
      Succeeds files inv out files') :=
  ⟨fun _ => Fails.run_eq h, exists_run_eq_of_not_fails h⟩

end Run

/-- The third assignment has a value without a literal, so that the first two leave no trace.
Without it they take effect. -/
theorem run_all_or_nothing_third_assignment :
    (∃ err, run {} [(["a.cs".toList], Utf8.encode "[assembly: A(1)]".toList)]
        ["set".toList, "-i".toList, "a.cs".toList, "A=2".toList, "B=x".toList, "C=[]".toList] =
      (.ended 1 [] err, [(["a.cs".toList], Utf8.encode "[assembly: A(1)]".toList)])) ∧
    ∃ out err files', run {} [(["a.cs".toList], Utf8.encode "[assembly: A(1)]".toList)]
        ["set".toList, "-i".toList, "a.cs".toList, "A=2".toList, "B=x".toList] =
      (.ended 0 out err, files') ∧
      Succeeds [(["a.cs".toList], Utf8.encode "[assembly: A(1)]".toList)]
        ⟨.set "a.cs".toList ["A=2".toList, "B=x".toList] true true, none, none, false⟩ out
        files' := by
  constructor
  · have hparse : parse ["set".toList, "-i".toList, "a.cs".toList, "A=2".toList, "B=x".toList,
        "C=[]".toList] = .ok ⟨.set "a.cs".toList ["A=2".toList, "B=x".toList, "C=[]".toList]
          true true, none, none, false⟩ := Except.eq_ok_of_toOption (by decide +kernel)
    obtain ⟨doc, hdoc⟩ := Except.exists_of_isOk
      (x := Document.ofText .csharp "[assembly: A(1)]".toList) (by decide +kernel)
    have hread : Files.read [(["a.cs".toList], Utf8.encode "[assembly: A(1)]".toList)]
        "a.cs".toList = .ok (Utf8.encode "[assembly: A(1)]".toList) :=
      Except.eq_ok_of_toOption (by decide +kernel)
    have hopens : Opens [(["a.cs".toList], Utf8.encode "[assembly: A(1)]".toList)]
        ⟨.set "a.cs".toList ["A=2".toList, "B=x".toList, "C=[]".toList] true true, none, none,
          false⟩ doc :=
      .file ⟨none, rfl, rfl⟩ hread (Except.eq_ok_of_toOption (by decide +kernel)) hdoc
    have hgood : ∀ t ∈ ["A=2".toList, "B=x".toList], ∀ e, ¬Faulty t e := by
      intro t ht e he
      have hok : ∀ t ∈ ["A=2".toList, "B=x".toList], (assign (.empty .csharp) t).isOk := by
        decide +kernel
      have hok := hok t ht
      rw [assign_eq_error_iff.2 he] at hok
      contradiction
    obtain ⟨v, hv, hkind⟩ : ∃ v, Json.Value.parse? "[]".toList = some v ∧ v.kind = .array :=
      Option.map_eq_some_iff.1 (by decide +kernel)
    have hbad : Faulty "C=[]".toList (.unsupported .array) := by
      rw [← hkind]
      exact @Faulty.unsupported "C".toList _ v (by decide) (by decide) hv (by simp [hkind])
    exact ⟨_, (run_all_or_nothing {} _ hparse).1 _
      (.assignment hopens rfl ⟨_, _, [], rfl, hgood, hbad⟩)⟩
  · have hparse : parse ["set".toList, "-i".toList, "a.cs".toList, "A=2".toList, "B=x".toList] =
        .ok ⟨.set "a.cs".toList ["A=2".toList, "B=x".toList] true true, none, none, false⟩ :=
      Except.eq_ok_of_toOption (by decide +kernel)
    obtain ⟨hfail, hsucceed⟩ := run_all_or_nothing {}
      [(["a.cs".toList], Utf8.encode "[assembly: A(1)]".toList)] hparse
    have hexit : (run {} [(["a.cs".toList], Utf8.encode "[assembly: A(1)]".toList)]
        ["set".toList, "-i".toList, "a.cs".toList, "A=2".toList, "B=x".toList]).1 =
      .ended 0 [] [] := by decide +kernel
    have hgood (e : Error) : ¬Fails [(["a.cs".toList], Utf8.encode "[assembly: A(1)]".toList)]
        ⟨.set "a.cs".toList ["A=2".toList, "B=x".toList] true true, none, none, false⟩ e := by
      intro he
      rw [hfail e he] at hexit
      cases hexit
    obtain ⟨out, files', hrun, hfiles'⟩ := hsucceed hgood
    exact ⟨out, _, files', hrun, hfiles'⟩

end AssemblyInfo.Command
