import AssemblyInfo.Command.Arguments
import AssemblyInfo.Command.Listing
import AssemblyInfo.Files
import AssemblyInfo.Log
import AssemblyInfo.Options

/-! The command line. A command reads the options file and the document, works on the document in
memory, and gives its output only if all went well. -/

namespace AssemblyInfo.Command

/-- How the content of a file is found. -/
abbrev Reader := Text → Except FileFault Bytes

/-- What a command gives when it succeeds. -/
inductive Output where
  | print (t : Text)
  | write (file t : Text)
  deriving DecidableEq, Repr

/-! ### The document -/

/-- The dialect by the extension of a file. -/
def dialectOfFile? (file : Text) : Option Dialect :=
  match Path.extension? file with
  | none => none
  | some extension =>
    if extension.lowerAscii = "js".toList then some .jscript
    else if extension.lowerAscii = "cs".toList then some .csharp
    else none

/-- The options of the options file, if one is given. -/
def options (read : Reader) (inv : Invocation) : Except Error (Option DocumentOptions) :=
  match inv.config with
  | none => .ok none
  | some path => (DocumentOptions.ofFile (read path)).map some

/-- The dialect of the document: as asked for, else by the options file, else by the name of the
file, else C#. -/
def dialect (options : Option DocumentOptions) (inv : Invocation) : Dialect :=
  match inv.dialect, options with
  | some dialect, _ => dialect
  | none, some options => options.dialect
  | none, none => (dialectOfFile? inv.action.file).getD .csharp

/-- The document of the file. -/
def load (read : Reader) (dialect : Dialect) (file : Text) : Except Error Document :=
  match read file with
  | .error fault => .error (.file fault)
  | .ok bytes => Document.ofSource dialect (.bytes bytes)

/-- The document of the file; a new one if there is no file. -/
def loadOrNew (read : Reader) (dialect : Dialect) (file : Text) : Except Error Document :=
  match read file with
  | .error .missing => Document.ofSource dialect .absent
  | _ => load read dialect file

/-! ### Assignments -/

/-- The value in an assignment: of the JSON text, or the text itself if it is none. -/
def assignedValue (t : Text) : Except Error Value :=
  match Json.Value.parse? t with
  | some v => Value.ofJson v
  | none => .ok (.string t)

/-- The key and the text of the value in an assignment. -/
def splitAssignment (t : Text) : Except Error (Text × Text) :=
  match Text.splitAt? '=' t with
  | none => .error (.notAssignment t)
  | some (key, value) => if key.trim = [] then .error (.noKey t) else .ok (key.trim, value)

/-- Carries out an assignment. -/
def assign (doc : Document) (assignment : Text) : Except Error Document := do
  let (key, t) ← splitAssignment assignment
  let value ← assignedValue t
  doc.set key value

/-! ### Commands -/

/-- Carries out a command up to its output. -/
def execute (read : Reader) (color : Bool) (inv : Invocation) : Except Error Output := do
  let dialect := dialect (← options read inv) inv
  match inv.action with
  | .get file key =>
    let doc ← load read dialect file
    match doc.get? key with
    | none => .error (.notFound key)
    | some value => .ok (.print (plainValue value ++ ['\n']))
  | .set file assignments inPlace header =>
    let doc ← loadOrNew read dialect file
    let doc ← assignments.foldlM assign doc
    let t := doc.render header
    .ok (if inPlace then .write file t else .print t)
  | .list file json =>
    let doc ← load read dialect file
    if json then .ok (.print (jsonListing doc.attributes ++ ['\n']))
    else if doc.attributes = [] then .ok (.print [])
    else .ok (.print (listing color doc.attributes ++ ['\n']))

/-! ### The log of a command -/

/-- Events of the assignments on a document. -/
def logAssignments (doc : Document) : List Text → List Log.Event
  | [] => []
  | assignment :: assignments =>
    let events :=
      match splitAssignment assignment with
      | .error _ => []
      | .ok (key, t) =>
        match assignedValue t with
        | .error _ => []
        | .ok value => Log.ofSet doc key value
    events ++
      match assign doc assignment with
      | .ok doc => logAssignments doc assignments
      | .error _ => []

/-- Events of the loading of the file's document. -/
def logLoad (read : Reader) (dialect : Dialect) (action : Action) : List Log.Event :=
  match read action.file, action with
  | .ok bytes, _ => Log.ofSource dialect (.bytes bytes)
  | .error .missing, .set file _ _ _ => .generating file :: Log.ofSource dialect .absent
  | .error _, _ => []

/-- Events of a command. -/
def log (read : Reader) (inv : Invocation) : List Log.Event :=
  match options read inv with
  | .error _ => []
  | .ok options =>
    let dialect := dialect options inv
    .loading inv.action.file dialect :: logLoad read dialect inv.action ++
      match inv.action, loadOrNew read dialect inv.action.file with
      | .set _ assignments _ _, .ok doc => logAssignments doc assignments
      | _, _ => []

/-! ### The program -/

/-- What the surroundings of the program settle. -/
structure Settings where
  color : Bool := false
  /-- The filter for the log, if one is given. -/
  log : Option Log.Filter := none
  deriving DecidableEq, Repr

/-- The log of a command, as far as it is to be shown: by the filter that is given, else by the
verbosity. -/
def shownLog (settings : Settings) (read : Reader) (inv : Invocation) : Text :=
  Log.write (settings.log.getD (.upTo (if inv.verbose then .debug else .warn))) (log read inv)

def version : Text := "assembly-source 0.3.0\n".toList

/-- The words for an error, as a line. -/
def errorLine (color : Bool) (e : Error) : Text :=
  styled color "31" "Error:".toList ++ ' ' :: e.message ++ ['\n']

/-- How the program ends: refused arguments, or an exit code with what was printed. -/
inductive Report where
  | refused
  | ended (exit : Nat) (out err : Text)
  deriving DecidableEq, Repr

/-- Runs the program on files. Gives its end and the files afterwards. -/
def run (settings : Settings) (files : Files) (arguments : List Text) : Report × Files :=
  match parse arguments with
  | .error .refused => (.refused, files)
  | .error .version => (.ended 0 version [], files)
  | .ok inv =>
    let logged := shownLog settings files.read inv
    let failed e := (Report.ended 1 [] (logged ++ errorLine settings.color e), files)
    match execute files.read settings.color inv with
    | .error e => failed e
    | .ok (.print t) => (.ended 0 t logged, files)
    | .ok (.write file t) =>
      match files.write file (Utf8.encode t) with
      | .ok files => (.ended 0 [] logged, files)
      | .error fault => failed (.file fault)

end AssemblyInfo.Command
