import AssemblyInfo.Value

/-! Lists of attributes for reading, and the styles of a terminal. -/

namespace AssemblyInfo.Command

/-- A text in a style of the terminal, if styles are wanted. -/
def styled (color : Bool) (code : String) (t : Text) : Text :=
  if color then "\x1b[".toList ++ code.toList ++ 'm' :: t ++ "\x1b[0m".toList else t

/-- The value of an attribute by itself: a string as it is, all else as a literal. -/
def plainValue : Value → Text
  | .string t => t
  | v => v.display

/-- Length of the longest key. -/
def keyWidth (attributes : List (Text × Value)) : Nat :=
  (attributes.map fun (key, _) => key.length).foldl max 0

/-- A line for each attribute, with the values in one column. -/
def listing (color : Bool) (attributes : List (Text × Value)) : Text :=
  let width := keyWidth attributes
  Text.joinWith ['\n'] (attributes.map fun (key, value) =>
    styled color "1" key ++ List.replicate (width - key.length) ' ' ++ " = ".toList ++
      value.display)

/-- The attributes as a JSON object with a line for each. -/
def jsonListing (attributes : List (Text × Value)) : Text :=
  Json.writeObjectLines (attributes.map fun (key, value) => (key, value.display))

end AssemblyInfo.Command
