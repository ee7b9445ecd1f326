/-!
Names that a class or a package of the host's language may have. They are written in ASCII letters,
digits, underscores and dollar signs.
-/

namespace GridRoute.ClassName

def keywords : List String :=
  ["abstract", "assert", "boolean", "break", "byte", "case", "catch", "char", "class", "const",
    "continue", "default", "do", "double", "else", "enum", "extends", "false", "final", "finally",
    "float", "for", "goto", "if", "implements", "import", "instanceof", "int", "interface", "long",
    "native", "new", "null", "package", "private", "protected", "public", "return", "short",
    "static", "strictfp", "super", "switch", "synchronized", "this", "throw", "throws",
    "transient", "true", "try", "void", "volatile", "while"]

def isStart (c : Char) : Bool := c.isAlpha || c == '_' || c == '$'

def isPart (c : Char) : Bool := c.isAlphanum || c == '_' || c == '$'

def isIdentifierText : List Char → Bool
  | [] => false
  | first :: rest =>
    isStart first && rest.all isPart && !(keywords.map String.toList).contains (first :: rest)

/-- The pieces between dots; there is always at least one. -/
def segments : List Char → List (List Char)
  | [] => [[]]
  | c :: rest =>
    if c = '.' then [] :: segments rest
    else
      match segments rest with
      | [] => [[c]]
      | segment :: more => (c :: segment) :: more

theorem segments_ne_nil (cs : List Char) : segments cs ≠ [] := by
  cases cs with
  | nil => simp [segments]
  | cons c rest =>
    rw [segments]
    split
    · simp
    · split <;> simp

def isIdentifier (name : String) : Bool := isIdentifierText name.toList

def isPackage (name : String) : Bool := (segments name.toList).all isIdentifierText

end GridRoute.ClassName
