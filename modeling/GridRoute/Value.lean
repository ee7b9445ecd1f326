/-!
Structured values, as which the library's types are exchanged with other programs. Numbers, texts and
booleans never turn into each other.
-/

namespace GridRoute

inductive Value where
  | null
  | bool (b : Bool)
  | integer (n : Int)
  /-- A number with a fraction or an exponent; nothing here is one. -/
  | fraction
  | text (s : String)
  | list (items : List Value)
  | record (fields : List (String × Value))
deriving Inhabited

namespace Value

def integerIn? (low high : Int) : Value → Option Int
  | integer n => if low ≤ n ∧ n ≤ high then some n else none
  | _ => none

def count? (limit : Nat) (v : Value) : Option Nat := (v.integerIn? 0 limit).map Int.toNat

def bool? : Value → Option Bool
  | bool b => some b
  | _ => none

def optionalText? : Value → Option (Option String)
  | null => some none
  | text s => some (some s)
  | _ => none

/-- Reads a field that may be left out, but not given twice. -/
def field? (fields : List (String × Value)) (name : String) (absent : Option α)
    (read : Value → Option α) : Option α :=
  match fields.filter fun field => field.1 == name with
  | [] => absent
  | [(_, value)] => read value
  | _ => none

def ofOptionalText : Option String → Value
  | some s => text s
  | none => null

end Value

end GridRoute
