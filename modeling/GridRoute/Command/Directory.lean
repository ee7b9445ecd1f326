import GridRoute.Command.Action
import GridRoute.Command.Path

/-!
Command lines in a directory of files that is a value: what is read, what is written and what is printed.
Of what lies outside the directory only the folders above it and the devices are known.
-/

namespace GridRoute

abbrev Directory := List (Place × ByteArray)

namespace Directory

def ofFiles (files : List (String × ByteArray)) : Directory :=
  files.map fun (path, content) => (Path.place path, content)

/-- Folders that exist and take no new files. -/
def closedFolders : List Place := [[], ["dev"]]

/-- The working directory and the folder around it exist, and so do the closed folders; another folder does
if it holds a file. -/
def hasFolder (d : Directory) (place : Place) : Bool :=
  closedFolders.contains place || place == Place.working || place == Place.working.dropLast ||
    d.any fun file => file.1.isBelow place

def enter? (d : Directory) (place : Place) (part : String) : Option Place :=
  if d.hasFolder (place.enter part) then some (place.enter part) else none

def locate? (d : Directory) (path : String) : Option Place := do
  if !Path.isValid path then none
  let (folders, name) ← Path.split? path
  return (← folders.foldlM d.enter? (Path.start path)) ++ [name]

def file? (d : Directory) (path : String) : Option ByteArray := do
  let place ← d.locate? path
  match Device.ofPlace? place with
  | some device => device.content?
  | none => List.lookup place d

/-- The text of a file; a file that is not UTF-8 has none. -/
def text? (d : Directory) (path : String) : Option String := (d.file? path).bind String.fromUTF8?

def store (d : Directory) (place : Place) (content : ByteArray) : Directory :=
  (place, content) :: d.filter fun file => file.1 != place

/-- Writes to a device or to a file in a folder that is there; with what is printed by that. -/
def write? (d : Directory) (path text : String) : Option (String × Directory) := do
  let place ← d.locate? path
  match Device.ofPlace? place with
  | some device => return (device.printed text, d)
  | none =>
    if d.hasFolder place || closedFolders.contains place.dropLast then none
    return ("", d.store place text.toUTF8)

end Directory

structure RunResult where
  exit : Nat
  stdout : String
  errors : List String
  directory : Directory

def Action.perform (d : Directory) : Action → RunResult
  | usage => ⟨2, "", [], d⟩
  | fail errors => ⟨1, "", errors, d⟩
  | print text => ⟨0, text, [], d⟩
  | write path text =>
    match d.write? path text with
    | some (printed, d) => ⟨0, printed, [], d⟩
    | none => ⟨1, "", [writeFailure path], d⟩

def Directory.run (d : Directory) (args : List String) : RunResult :=
  match Command.ofArguments? args with
  | none => Action.usage.perform d
  | some command => (command.action (command.config.bind d.text?)).perform d

end GridRoute
