import AssemblyInfo.Error

/-! A working directory with files. A path is walked name by name, and each step needs a directory
to start from. The directories are those that hold a file, and those on the way up from the working
directory, of which nothing else is known. A name, and a path as a whole, can be too long to be
looked up. -/

namespace AssemblyInfo

/-- Names from the working directory to a file or directory. A path that leads above the working
directory begins with steps up, and one from the root begins with an empty name. -/
abbrev Path := List Text

/-- The files; no path stands twice. -/
abbrev Files := List (Path × Bytes)

namespace Path

/-- The name of the directory above. -/
def up : Text := ['.', '.']

def root : Path := [[]]

/-- Whether a directory is the root, or is on the way up from the working directory, which is on it
itself. -/
def isAncestor (path : Path) : Bool := path = root || path.all (· = up)

/-- The directory above a directory. The root is above itself. -/
def parent (path : Path) : Path :=
  if path = root then root
  else if path.all (· = up) then path ++ [up]
  else path.dropLast

/-- Whether a path stays below the working directory. -/
def isBelow (path : Path) : Bool :=
  match path.head? with
  | some name => name ≠ [] && name ≠ up
  | none => false

end Path

namespace Files

def content? (files : Files) (path : Path) : Option Bytes := files.lookup path

def isDirectory (files : Files) (path : Path) : Bool :=
  path.isAncestor || files.any fun (p, _) => p ≠ path && path.isPrefixOf p

/-- What a path leads to. -/
inductive Place where
  | file (path : Path) (content : Bytes)
  | directory
  /-- Nothing, in a directory that there is; `slash` if a slash ends the path. -/
  | absent (path : Path) (slash : Bool)
  deriving DecidableEq, Repr

/-- The most bytes of a name. -/
def maxNameSize : Nat := 255

/-- The most bytes of a path in writing. -/
def maxPathSize : Nat := 4095

/-- Walks a path from a directory on. The first name that leads no further decides. -/
def walk (files : Files) (directory : Path) : List Text → Except FileFault Place
  | [] => .ok .directory
  | name :: names =>
    if name = [] ∨ name = ['.'] then walk files directory names
    else if name = Path.up then walk files directory.parent names
    else if maxNameSize < name.byteSize then .error .nameTooLong
    else
      let path := directory ++ [name]
      if isDirectory files path then walk files path names
      else
        match content? files path with
        | some content => if names = [] then .ok (.file path content) else .error .notDirectory
        | none =>
          if names.all (· = []) then .ok (.absent path (names ≠ [])) else .error .missing

/-- What a path in writing leads to. -/
def locate (files : Files) (path : Text) : Except FileFault Place :=
  if maxPathSize < path.byteSize then .error .nameTooLong
  else walk files (if path.head? = some '/' then Path.root else []) (path.splitOn '/')

/-- The content of a file. -/
def read (files : Files) (path : Text) : Except FileFault Bytes :=
  match locate files path with
  | .error fault => .error fault
  | .ok (.file _ content) => .ok content
  | .ok .directory => .error .isDirectory
  | .ok (.absent _ _) => .error .missing

/-- Replaces the content of a path, or adds a file with it. -/
def put : Files → Path → Bytes → Files
  | [], path, content => [(path, content)]
  | (p, c) :: files, path, content =>
    if p = path then (p, content) :: files else (p, c) :: put files path content

/-- The files after a file is written. -/
def write (files : Files) (path : Text) (content : Bytes) : Except FileFault Files :=
  match locate files path with
  | .error fault => .error fault
  | .ok (.file path _) => .ok (files.put path content)
  | .ok .directory => .error .isDirectory
  | .ok (.absent path slash) =>
    if slash then .error .isDirectory else .ok (files.put path content)

/-- The files below the working directory. -/
def below (files : Files) : Files := files.filter fun (p, _) => p.isBelow

end Files

/-- The part of the last name of a path after its last point. A point in front of the name does
not count. -/
def Path.extension? (path : Text) : Option Text :=
  match ((path.splitOn '/').filter fun n => n ≠ [] ∧ n ≠ ['.']).getLast? with
  | none => none
  | some name =>
    if name = Path.up then none
    else
      let extension := (name.reverse.takeWhile (· ≠ '.')).reverse
      -- The point itself and at least one character before it.
      if extension.length + 1 < name.length then some extension else none

end AssemblyInfo
