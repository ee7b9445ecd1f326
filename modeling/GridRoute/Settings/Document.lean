/-!
Configuration documents: lines with a table header, with a key and a scalar, or with nothing but a
comment. Keys before the first header belong to the document itself. What a document of this form cannot
express is not read at all.
-/

namespace GridRoute.Settings

inductive Scalar where
  | text (s : String)
  | integer (n : Int)
  | boolean (b : Bool)
deriving DecidableEq, Repr

inductive Item where
  | table (name : String)
  | pair (key : String) (value : Scalar)
deriving DecidableEq, Repr

def isBlank (c : Char) : Bool := c == ' ' || c == '\t'

def skipBlanks (cs : List Char) : List Char := cs.dropWhile isBlank

/-- Tabs and everything that is no control character. -/
def isPlain (c : Char) : Bool := c == '\t' || (32 ≤ c.toNat && c.toNat != 127)

/-- Nothing follows but blanks and a comment. -/
def isLineEnd (cs : List Char) : Bool :=
  match skipBlanks cs with
  | [] => true
  | '#' :: comment => comment.all isPlain
  | _ => false

def hexValue? (c : Char) : Option Nat :=
  if c.isDigit then some (c.toNat - 48)
  else if 'a' ≤ c ∧ c ≤ 'f' then some (c.toNat - 87)
  else if 'A' ≤ c ∧ c ≤ 'F' then some (c.toNat - 55)
  else none

/-- The character of a number in hexadecimal digits; surrogates are none. -/
def charOfHex? (digits : List Char) : Option Char := do
  let values ← digits.mapM hexValue?
  let n := values.foldl (fun n value => 16 * n + value) 0
  if n < 0xD800 ∨ (0xDFFF < n ∧ n < 0x110000) then some (Char.ofNat n) else none

def escaped? : Char → Option Char
  | 'b' => some '\x08'
  | 't' => some '\t'
  | 'n' => some '\n'
  | 'f' => some '\x0c'
  | 'r' => some '\r'
  | '"' => some '"'
  | '\\' => some '\\'
  | _ => none

def readQuoted? : List Char → Option (List Char × List Char)
  | [] => none
  | '"' :: rest => some ([], rest)
  | '\\' :: 'u' :: a :: b :: c :: d :: rest => do
    let char ← charOfHex? [a, b, c, d]
    let (text, rest) ← readQuoted? rest
    return (char :: text, rest)
  | '\\' :: 'U' :: a :: b :: c :: d :: e :: f :: g :: h :: rest => do
    let char ← charOfHex? [a, b, c, d, e, f, g, h]
    let (text, rest) ← readQuoted? rest
    return (char :: text, rest)
  | '\\' :: c :: rest => do
    let char ← escaped? c
    let (text, rest) ← readQuoted? rest
    return (char :: text, rest)
  | c :: rest => do
    if !isPlain c then none
    let (text, rest) ← readQuoted? rest
    return (c :: text, rest)

/-- Reads up to the closing apostrophe; nothing is escaped. -/
def readLiteral? : List Char → Option (List Char × List Char)
  | [] => none
  | c :: rest =>
    if c = '\'' then some ([], rest)
    else if isPlain c then (readLiteral? rest).map fun (text, rest) => (c :: text, rest)
    else none

def isKeyChar (c : Char) : Bool := c.isAlphanum || c == '_' || c == '-'

def readKey? (cs : List Char) : Option (String × List Char) :=
  match cs with
  | '"' :: rest => (readQuoted? rest).map fun (key, rest) => (String.ofList key, rest)
  | '\'' :: rest => (readLiteral? rest).map fun (key, rest) => (String.ofList key, rest)
  | _ =>
    match cs.takeWhile isKeyChar with
    | [] => none
    | key => some (String.ofList key, cs.dropWhile isKeyChar)

/-- The digits of a number, among which single underscores may stand. -/
def digits? (isDigit : Char → Bool) : List Char → Option (List Char)
  | [] => none
  | [c] => if isDigit c then some [c] else none
  | c :: '_' :: rest =>
    if isDigit c then (digits? isDigit rest).map (c :: ·) else none
  | c :: rest => if isDigit c then (digits? isDigit rest).map (c :: ·) else none

def natOfDigits (base : Nat) (digits : List Char) : Nat :=
  digits.foldl (fun n c => base * n + (hexValue? c).getD 0) 0

/-- A number without a sign and, unless it is zero, without a leading zero. -/
def decimal? (cs : List Char) : Option Nat := do
  let digits ← digits? Char.isDigit cs
  if digits.head? = some '0' ∧ digits.length ≠ 1 then none
  return natOfDigits 10 digits

def hasDigitsBelow (base : Nat) (c : Char) : Bool := (hexValue? c).any (· < base)

def based? (base : Nat) (cs : List Char) : Option Nat :=
  (digits? (hasDigitsBelow base) cs).map (natOfDigits base)

def integer? : List Char → Option Int
  | '+' :: rest => (decimal? rest).map fun n => n
  | '-' :: rest => (decimal? rest).map fun n => -n
  | '0' :: 'x' :: rest => (based? 16 rest).map fun n => n
  | '0' :: 'o' :: rest => (based? 8 rest).map fun n => n
  | '0' :: 'b' :: rest => (based? 2 rest).map fun n => n
  | cs => (decimal? cs).map fun n => n

def isWordChar (c : Char) : Bool := isKeyChar c || c == '+'

def word? (cs : List Char) : Option Scalar :=
  if cs = "true".toList then some (.boolean true)
  else if cs = "false".toList then some (.boolean false)
  else (integer? cs).map .integer

def readScalar? (cs : List Char) : Option (Scalar × List Char) :=
  match cs with
  | '"' :: rest => (readQuoted? rest).map fun (text, rest) => (.text (String.ofList text), rest)
  | '\'' :: rest => (readLiteral? rest).map fun (text, rest) => (.text (String.ofList text), rest)
  | _ => (word? (cs.takeWhile isWordChar)).map fun value => (value, cs.dropWhile isWordChar)

def itemOfLine? (line : List Char) : Option (Option Item) := do
  if isLineEnd line then return none
  match skipBlanks line with
  | '[' :: rest =>
    let (name, rest) ← readKey? (skipBlanks rest)
    match skipBlanks rest with
    | ']' :: rest => if isLineEnd rest then return some (.table name) else none
    | _ => none
  | rest =>
    let (key, rest) ← readKey? rest
    match skipBlanks rest with
    | '=' :: rest =>
      let (value, rest) ← readScalar? (skipBlanks rest)
      if isLineEnd rest then return some (.pair key value) else none
    | _ => none

/-- The lines of a text; a carriage return before a line feed belongs to the line's end. -/
def linesOf : List Char → List (List Char)
  | [] => [[]]
  | '\n' :: rest => [] :: linesOf rest
  | '\r' :: '\n' :: rest => [] :: linesOf rest
  | c :: rest =>
    match linesOf rest with
    | [] => [[c]]
    | line :: more => (c :: line) :: more

/-- A byte order mark at the start is no part of the text. -/
def skipMark : List Char → List Char
  | '\uFEFF' :: rest => rest
  | cs => cs

def itemsOfText? (text : String) : Option (List Item) := do
  return (← (linesOf (skipMark text.toList)).mapM itemOfLine?).filterMap id

end GridRoute.Settings
