/-!
Paths and the places they lead to. A path is followed part by part, from the root or from the working
directory.
-/

namespace GridRoute

abbrev Place := List String

namespace Place

/-- The working directory is a folder for temporary files. No path spells its own name. -/
def working : Place := ["tmp", ""]

/-- One part of a path further; above the root there is the root. -/
def enter (place : Place) (part : String) : Place :=
  if part == "" || part == "." then place
  else if part == ".." then place.dropLast
  else place ++ [part]

def isBelow (place folder : Place) : Bool := folder.isPrefixOf place && folder.length < place.length

end Place

namespace Path

def maxLength : Nat := 4095

def maxNameLength : Nat := 255

def parts (path : String) : List String := path.splitOn "/"

def isValid (path : String) : Bool :=
  !path.toList.contains '\x00' && path.utf8ByteSize ≤ maxLength &&
    (parts path).all fun part => part.utf8ByteSize ≤ maxNameLength

def start (path : String) : Place := if path.toList.head? = some '/' then [] else .working

/-- The folder parts and the name of the file. A path that ends in a slash or in dots names no file. -/
def split? (path : String) : Option (List String × String) := do
  let name ← (parts path).getLast?
  if ["", ".", ".."].contains name then none
  return ((parts path).dropLast, name)

def place (path : String) : Place := (parts path).foldl Place.enter (start path)

end Path

/-- Files that every system has and that keep nothing. -/
inductive Device where
  | null
  | stdin
  | stdout
  | stderr
deriving DecidableEq, Repr

namespace Device

def ofPlace? : Place → Option Device
  | ["dev", "null"] => some null
  | ["dev", "stdin"] => some stdin
  | ["dev", "stdout"] => some stdout
  | ["dev", "stderr"] => some stderr
  | _ => none

def content? : Device → Option ByteArray
  | null | stdin => some .empty
  | stdout | stderr => none

def printed : Device → String → String
  | stdout, text => text
  | _, _ => ""

end Device

end GridRoute
