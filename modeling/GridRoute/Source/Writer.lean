/-!
Writing source text with blocks in braces. A line knows its level, not its indentation; the writer knows
how many blocks are open.
-/

namespace GridRoute.Source

/-- A line of source text, with the part it plays for the blocks around it. -/
inductive Line where
  | blank
  | text (level : Nat) (content : String)
  /-- Opens a block below it. -/
  | opening (level : Nat) (header : String)
  | closing (level : Nat)
  /-- Closes a block and opens its sibling. -/
  | reopening (level : Nat) (header : String)
deriving DecidableEq, Repr

namespace Line

def level : Line → Nat
  | blank => 0
  | text level _ => level
  | opening level _ => level
  | closing level => level
  | reopening level _ => level

def content : Line → String
  | blank => ""
  | text _ content => content
  | opening _ header => if header.isEmpty then "\x7b" else header ++ " \x7b"
  | closing _ => "\x7d"
  | reopening _ header => "\x7d " ++ header ++ " \x7b"

def openers : Line → Nat
  | opening .. | reopening .. => 1
  | _ => 0

def closers : Line → Nat
  | closing .. | reopening .. => 1
  | _ => 0

def render (indent : String) (line : Line) : String :=
  String.join (List.replicate line.level indent) ++ line.content

end Line

inductive WriterError where
  | unbalancedExit
  | unclosedBlocks (count : Nat)
deriving DecidableEq, Repr

def WriterError.message : WriterError → String
  | .unbalancedExit => "attempted to close a block while none is open"
  | .unclosedBlocks count => toString count ++ " block(s) left open"

structure Writer where
  indent : String
  depth : Nat
  comments : Bool
  lines : Array Line
deriving DecidableEq, Repr

namespace Writer

def withIndent (indent : String) : Writer := ⟨indent, 0, true, #[]⟩

/-- Four blanks a level. -/
def new : Writer := withIndent "    "

def put (w : Writer) (line : Line) : Writer := { w with lines := w.lines.push line }

def blank (w : Writer) : Writer := w.put .blank

def line (w : Writer) (text : String) : Writer :=
  if text.isEmpty then w.blank else w.put (.text w.depth text)

def writeLines (w : Writer) (texts : List String) : Writer := texts.foldl line w

def setComments (w : Writer) (enabled : Bool) : Writer := { w with comments := enabled }

def comment (w : Writer) (text : String) : Writer :=
  if w.comments then w.line ("// " ++ text) else w

def commentLine (text : String) : String := if text.isEmpty then " *" else " * " ++ text

def blockComment (w : Writer) (texts : List String) : Writer :=
  if w.comments then w.writeLines ("/**" :: texts.map commentLine ++ [" */"]) else w

def enterBlock (w : Writer) (header : String) : Writer :=
  { w with lines := w.lines.push (.opening w.depth header), depth := w.depth + 1 }

abbrev Result := Except WriterError Unit × Writer

def exitBlock (w : Writer) : Result :=
  match w.depth with
  | 0 => (.error .unbalancedExit, w)
  | depth + 1 => (.ok (), { w with lines := w.lines.push (.closing depth), depth := depth })

def reopenBlock (w : Writer) (header : String) : Result :=
  match w.depth with
  | 0 => (.error .unbalancedExit, w)
  | depth + 1 => (.ok (), { w with lines := w.lines.push (.reopening depth header) })

/-- Closes a block that was opened at depth `entry`, after its body has been written. The body has to
have closed what it opened, and no more; whatever it did, the depth is `entry` again. -/
def closeBlock (w : Writer) (entry : Nat) : Result :=
  if entry + 1 < w.depth then
    (.error (.unclosedBlocks (w.depth - entry - 1)), { w with depth := entry })
  else if w.depth < entry + 1 then (.error .unbalancedExit, { w with depth := entry })
  else w.exitBlock

def text (w : Writer) : String :=
  w.lines.foldl (fun text line => text ++ line.render w.indent ++ "\n") ""

def finish (w : Writer) : Except WriterError String :=
  if 0 < w.depth then .error (.unclosedBlocks w.depth) else .ok w.text

/-- Closes the given number of blocks, as far as they are open. -/
def exitBlocks : Nat → Writer → Writer
  | 0, w => w
  | n + 1, w => exitBlocks n w.exitBlock.2

end Writer

end GridRoute.Source
