import AssemblyInfo.Dialect

/-! The arguments of the command line. There are options before the name of a command, and options
and operands after it. An option is given at most once on each side of the name, and what is given
after it counts. Arguments are taken from left to right; the first that is wrong, or that asks for
the version, decides. -/

namespace AssemblyInfo.Command

inductive Flag where
  | verbose
  | version
  | inPlace
  | noHeader
  | json
  deriving DecidableEq, Repr

/-- An option with a value. -/
inductive Setting where
  | dialect
  | config
  deriving DecidableEq, Repr

/-- What the arguments ask for. -/
inductive Action where
  | get (file key : Text)
  | set (file : Text) (assignments : List Text) (inPlace header : Bool)
  | list (file : Text) (json : Bool)
  deriving DecidableEq, Repr

namespace Action

def file : Action → Text
  | .get file _ => file
  | .set file _ _ _ => file
  | .list file _ => file

end Action

/-- A command with its options. -/
structure Invocation where
  action : Action
  dialect : Option Dialect
  config : Option Text
  verbose : Bool
  deriving DecidableEq, Repr

/-- Why the reading of arguments ends early. -/
inductive Stop where
  | refused
  | version
  deriving DecidableEq, Repr

/-- What has been read on one side of the command's name. -/
structure Side where
  flags : List Flag := []
  dialect : Option Dialect := none
  config : Option Text := none
  operands : List Text := []
  /-- The option that the next argument is the value of. -/
  pending : Option Setting := none
  /-- Whether all that follows is operands. -/
  ended : Bool := false
  deriving DecidableEq, Repr

namespace Side

/-- Takes a flag that is allowed and not yet given. -/
def addFlag (allowed : List Flag) (side : Side) (flag : Flag) : Except Stop Side :=
  if flag ∉ allowed ∨ flag ∈ side.flags then .error .refused
  else if flag = .version then .error .version
  else .ok { side with flags := flag :: side.flags }

/-- Takes the value of an option that is not yet given. -/
def addSetting (side : Side) (setting : Setting) (value : Text) : Except Stop Side :=
  match setting with
  | .dialect =>
    match side.dialect, Dialect.parse value with
    | none, .ok dialect => .ok { side with dialect := some dialect, pending := none }
    | _, _ => .error .refused
  | .config =>
    match side.config with
    | none =>
      if value = [] then .error .refused
      else .ok { side with config := some value, pending := none }
    | some _ => .error .refused

end Side

def Flag.ofLetter? (c : Char) : Option Flag :=
  [('v', .verbose), ('V', .version), ('i', .inPlace)].lookup c

def Flag.ofWord? (word : Text) : Option Flag :=
  [("verbose".toList, .verbose), ("version".toList, .version), ("in-place".toList, .inPlace),
    ("no-preamble".toList, .noHeader), ("json".toList, .json)].lookup word

def Setting.ofLetter? (c : Char) : Option Setting :=
  [('l', .dialect), ('c', .config)].lookup c

def Setting.ofWord? (word : Text) : Option Setting :=
  [("language".toList, .dialect), ("config".toList, .config)].lookup word

namespace Side

/-- Takes letters after a single dash: flags, and then maybe an option whose value is the rest,
after an equals sign or not, or the next argument. -/
def addLetters (allowed : List Flag) (side : Side) : Text → Except Stop Side
  | [] => .ok side
  | c :: t =>
    match Setting.ofLetter? c with
    | some setting =>
      match t with
      | [] => .ok { side with pending := some setting }
      | '=' :: value => side.addSetting setting value
      | value => side.addSetting setting value
    | none =>
      match Flag.ofLetter? c with
      | some flag => side.addFlag allowed flag >>= fun side => addLetters allowed side t
      | none => .error .refused

/-- Takes a word after two dashes: a flag, or an option whose value follows an equals sign or is
the next argument. -/
def addWord (allowed : List Flag) (side : Side) (t : Text) : Except Stop Side :=
  match Text.splitAt? '=' t with
  | some (word, value) =>
    match Setting.ofWord? word with
    | some setting => side.addSetting setting value
    | none => .error .refused
  | none =>
    match Setting.ofWord? t with
    | some setting => .ok { side with pending := some setting }
    | none =>
      match Flag.ofWord? t with
      | some flag => side.addFlag allowed flag
      | none => .error .refused

/-- Whether an argument is an option by its form. A lone dash is none. -/
def isOption : Text → Bool
  | '-' :: _ :: _ => true
  | _ => false

/-- Takes an argument. -/
def add (allowed : List Flag) (side : Side) (argument : Text) : Except Stop Side :=
  if side.ended then .ok { side with operands := side.operands ++ [argument] }
  else
    match side.pending with
    | some setting =>
      if isOption argument then .error .refused else side.addSetting setting argument
    | none =>
      match argument with
      | ['-', '-'] => .ok { side with ended := true }
      | '-' :: '-' :: word => side.addWord allowed word
      | '-' :: c :: letters => side.addLetters allowed (c :: letters)
      | operand => .ok { side with operands := side.operands ++ [operand] }

/-- Takes all arguments after the command's name. -/
def addAll (allowed : List Flag) (arguments : List Text) : Except Stop Side := do
  let side ← arguments.foldlM (add allowed) {}
  if side.pending.isSome then .error .refused else .ok side

/-- Takes arguments up to the command's name. Gives the name and what follows it. -/
def addFront (allowed : List Flag) (side : Side) : List Text → Except Stop (Side × Text × List Text)
  | [] => .error .refused
  | argument :: arguments =>
    if side.ended then .error .refused
    else if side.pending = none ∧ isOption argument = false then .ok (side, argument, arguments)
    else side.add allowed argument >>= fun side => addFront allowed side arguments

end Side

/-- A command by its name: the flags that it takes, and the action for flags and operands. -/
structure Form where
  flags : List Flag
  action? : List Flag → List Text → Option Action

/-- Prints the value of an attribute. -/
def getForm : Form where
  flags := [.verbose]
  action? _
    | [file, key] => some (.get file key)
    | _ => none

/-- Sets attributes. -/
def setForm : Form where
  flags := [.verbose, .inPlace, .noHeader]
  action? flags
    | file :: a :: assignments =>
      some (.set file (a :: assignments) (.inPlace ∈ flags) (.noHeader ∉ flags))
    | _ => none

/-- Lists all attributes. -/
def listForm : Form where
  flags := [.verbose, .json]
  action? flags
    | [file] => some (.list file (.json ∈ flags))
    | _ => none

/-- The command with a name. -/
def form? (name : Text) : Option Form :=
  [("get".toList, getForm), ("set".toList, setForm), ("list".toList, listForm),
    ("ls".toList, listForm)].lookup name

/-- What the arguments ask for. -/
def parse (arguments : List Text) : Except Stop Invocation := do
  let (front, name, rest) ← Side.addFront [.verbose, .version] {} arguments
  match form? name with
  | none => .error .refused
  | some form =>
    let back ← Side.addAll form.flags rest
    match form.action? back.flags back.operands with
    | none => .error .refused
    | some action =>
      if action.file = [] then .error .refused
      else
        .ok {
          action
          dialect := back.dialect.or front.dialect
          config := back.config.or front.config
          verbose := .verbose ∈ back.flags ∨ .verbose ∈ front.flags }

end AssemblyInfo.Command
