import GridRoute.ClassSource
import GridRoute.Settings.Document

/-!
Settings: what a configuration document asks for, and what takes precedence over it.
-/

namespace GridRoute

open GridRoute.Settings

inductive ConfigError where
  | unreadable
  | emptyOutput
deriving DecidableEq, Repr

def ConfigError.message : ConfigError → String
  | .unreadable => "failed to parse configuration toml contents"
  | .emptyOutput => "configuration names an empty output path"

structure Config where
  radius : Option Nat
  output : Option String
  target : ClassTarget
deriving DecidableEq, Repr

namespace Config

def default : Config := ⟨none, none, ClassTarget.default⟩

/-- Which fields a document has set, and the table that the next key belongs to. -/
structure Reader where
  config : Config
  assigned : List (Option String × String)
  table : Option String

def Reader.start : Reader := ⟨Config.default, [], none⟩

def assign? (config : Config) : Option String → String → Scalar → Option Config
  | none, "radius", .integer n =>
    if 0 ≤ n ∧ n < 4294967296 then some { config with radius := some n.toNat } else none
  | none, "output", .text s => some { config with output := some s }
  | some "java", "package", .text s =>
    some { config with target := { config.target with package := some s } }
  | some "java", "class_name", .text s =>
    some { config with target := { config.target with className := some s } }
  | some "java", "comments", .boolean b =>
    some { config with target := { config.target with comments := b } }
  | _, _, _ => none

/-- Takes the next item. There is one table; it is opened once, and no key is given twice. -/
def Reader.next? (r : Reader) : Item → Option Reader
  | .table name => if r.table = none ∧ name = "java" then some { r with table := some name } else none
  | .pair key value =>
    if r.assigned.contains (r.table, key) then none
    else (r.config.assign? r.table key value).map fun config =>
      { r with config := config, assigned := (r.table, key) :: r.assigned }

def ofText (text : String) : Except ConfigError Config :=
  match (itemsOfText? text).bind fun items => items.foldlM Reader.next? Reader.start with
  | none => .error .unreadable
  | some reader =>
    if reader.config.output = some "" then .error .emptyOutput else .ok reader.config

end Config

structure Overrides where
  radius : Option Nat
  output : Option String
  package : Option String
  className : Option String
  noComments : Bool
deriving DecidableEq, Repr

def Overrides.none : Overrides := ⟨.none, .none, .none, .none, false⟩

structure Settings where
  radius : Nat
  output : Option String
  target : ClassTarget
deriving DecidableEq, Repr

def Settings.defaultRadius : Nat := 20

def Settings.resolve (config : Config) (overrides : Overrides) : Settings where
  radius := (overrides.radius <|> config.radius).getD defaultRadius
  output := overrides.output <|> config.output
  target :=
    { package := overrides.package <|> config.target.package
      className := overrides.className <|> config.target.className
      comments := config.target.comments && !overrides.noComments }

end GridRoute
