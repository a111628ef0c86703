import AssemblyInfo.Command.Run

/-! The program on the files of the system. It reads the files that the arguments name, carries out
the command, and prints or writes what it gives. -/

namespace AssemblyInfo.Command

/-- Why the system refuses a file, by the code of an error, of either sign; none for other
codes. -/
def faultOfCode? (code : UInt32) : Option FileFault :=
  if code = 20 ∨ code = -20 then some .notDirectory
  else if code = 21 ∨ code = -21 then some .isDirectory
  else if code = 36 ∨ code = -36 then some .nameTooLong
  else none

/-- Why the system refuses a file. -/
def faultOfSystem (e : IO.Error) : FileFault :=
  let fault? : Option FileFault := match e with
    | .noFileOrDirectory _ _ _ => some .missing
    | .inappropriateType _ code _ => faultOfCode? code
    | .invalidArgument _ code _ => faultOfCode? code
    | _ => none
  fault?.getD (.other (toString e).toList)

def readSystem (file : Text) : IO (Except FileFault Bytes) := do
  try
    return .ok (← IO.FS.readBinFile (String.ofList file)).toList
  catch e => return .error (faultOfSystem e)

def writeSystem (file t : Text) : IO (Except FileFault Unit) := do
  try
    return .ok (← IO.FS.writeBinFile (String.ofList file) (String.ofList t).toUTF8)
  catch e => return .error (faultOfSystem e)

/-- The log is filtered as the environment says; styles are for terminals. -/
def systemSettings : IO Settings := do
  let log := (← IO.getEnv "ASSEMBLY_SOURCE_LOG").bind fun name => Log.Filter.ofName? name.toList
  let plain ← IO.getEnv "NO_COLOR"
  return { color := plain.isNone && (← (← IO.getStdout).isTty), log }

def fail (settings : Settings) (e : Error) : IO UInt32 := do
  IO.eprint (String.ofList (errorLine settings.color e))
  return 1

/-- Carries out a command on the files of the system. Gives the exit code. -/
def runSystem (inv : Invocation) : IO UInt32 := do
  let settings ← systemSettings
  let files ← (inv.config.toList ++ [inv.action.file]).mapM fun f => do return (f, ← readSystem f)
  let read file := (files.lookup file).getD (.error .missing)
  IO.eprint (String.ofList (shownLog settings read inv))
  match execute read settings.color inv with
  | .error e => fail settings e
  | .ok (.print t) =>
    IO.print (String.ofList t)
    return 0
  | .ok (.write file t) =>
    match ← writeSystem file t with
    | .ok _ => return 0
    | .error fault => fail settings (.file fault)

end AssemblyInfo.Command

open AssemblyInfo Command in
def main (arguments : List String) : IO UInt32 := do
  match parse (arguments.map String.toList) with
  | .ok inv => runSystem inv
  | .error .version =>
    IO.print (String.ofList version)
    return 0
  | .error .refused =>
    IO.eprintln "error: the arguments are not understood"
    return 2
