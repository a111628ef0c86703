import AssemblyInfo.Json.Kind
import AssemblyInfo.Text.Utf8

/-! What can go wrong, by cause, and the words for it. -/

namespace AssemblyInfo

/-- Why the body of a declaration is not a name with at most one argument. -/
inductive CallFault where
  | noIdentifier
  | leadingDigit
  | notPlain
  | unexpected (c : Char)
  | unbalanced
  | trailing
  | tooMany (count : Nat)
  deriving DecidableEq, Repr

namespace CallFault

def message : CallFault → Text
  | .noIdentifier => "expected an identifier".toList
  | .leadingDigit => "identifier cannot start with a digit".toList
  | .notPlain => "callee must be a plain identifier".toList
  | .unexpected c => "unexpected `".toList ++ [c, '`']
  | .unbalanced => "unbalanced parentheses or quotes".toList
  | .trailing => "unexpected input after the argument list".toList
  | .tooMany count => "expected at most one argument, found ".toList ++ Text.decimal count

end CallFault

/-- Why a file cannot be read or written. -/
inductive FileFault where
  | missing
  | notDirectory
  | isDirectory
  | nameTooLong
  | notText
  /-- Any other reason, in the words of the system. -/
  | other (words : Text)
  deriving DecidableEq, Repr

namespace FileFault

def message : FileFault → Text
  | .missing => "No such file or directory (os error 2)".toList
  | .notDirectory => "Not a directory (os error 20)".toList
  | .isDirectory => "Is a directory (os error 21)".toList
  | .nameTooLong => "File name too long (os error 36)".toList
  | .notText => "stream did not contain valid UTF-8".toList
  | .other words => words

end FileFault

inductive Error where
  /-- A source is given as a value of a kind that has no text. -/
  | invalidSource (kind : Json.Kind)
  | notUtf8 (fault : Utf8.Fault)
  /-- An argument is not a literal; it carries the text that was tried. -/
  | notLiteral (text : Text)
  | malformed (body : Text) (fault : CallFault)
  /-- A value has no literal form. -/
  | unsupported (kind : Json.Kind)
  | notFinite
  | notFound (key : Text)
  | file (fault : FileFault)
  /-- A text is not JSON, or not the JSON that was asked for. The account that a JSON reader gives
  of where and why is left out. -/
  | notJson
  | unknownDialect (name : Text)
  | notAssignment (text : Text)
  | noKey (text : Text)
  deriving DecidableEq, Repr

namespace Error

/-- The words of a failure. Those for a text that is not JSON go no further than what comes before
the account of the JSON reader. -/
def message : Error → Text
  | .invalidSource kind =>
    "The source code, if provided, must be a string or buffer (got ".toList ++ kind.name ++ [')']
  | .notUtf8 fault => "Source buffer is not valid UTF-8: ".toList ++ fault.message
  | .notLiteral text => "Cannot parse: ".toList ++ text
  | .malformed body fault =>
    "Malformed attribute `".toList ++ body ++ "`: ".toList ++ fault.message
  | .unsupported kind => "Unsupported type: ".toList ++ kind.name
  | .notFinite => "Unsupported type: non-finite number".toList
  | .notFound key => "Attribute not found: ".toList ++ key
  | .file fault => "IO error: ".toList ++ fault.message
  | .notJson => "Serialization error".toList
  | .unknownDialect name => "Unknown language: ".toList ++ name
  | .notAssignment text => "Expected KEY=VALUE, got `".toList ++ text ++ ['`']
  | .noKey text => "Missing attribute name in `".toList ++ text ++ ['`']

end Error

end AssemblyInfo
