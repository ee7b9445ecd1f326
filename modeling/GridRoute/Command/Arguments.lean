import GridRoute.Settings.Basic

/-!
Command lines: a subcommand, then options by their full names. An option takes its value from after an
equals sign or from the next argument, which must not look like an option. Nothing may be given twice.
-/

namespace GridRoute.Command

inductive Subcommand where
  | generate
  | inspect
deriving DecidableEq, Repr

def Subcommand.ofName? : String → Option Subcommand
  | "generate" => some .generate
  | "inspect" => some .inspect
  | _ => none

inductive OptionName where
  | radius
  | config
  | out
  | package
  | className
  | noComments
  | json
deriving DecidableEq, Repr

/-- A number of 32 bits in decimal digits, with or without a sign; only zero can have a minus sign. -/
def radiusOfText? (text : String) : Option Nat :=
  match text.toList with
  | '+' :: digits => (natOfDigits? digits).filter (· < 4294967296)
  | '-' :: digits => (natOfDigits? digits).filter (· = 0)
  | digits => (natOfDigits? digits).filter (· < 4294967296)
where
  natOfDigits? (digits : List Char) : Option Nat :=
    if digits.isEmpty || !digits.all Char.isDigit then none
    else some (digits.foldl (fun n c => 10 * n + (c.toNat - 48)) 0)

namespace OptionName

def ofText? : String → Option OptionName
  | "--radius" => some radius
  | "--config" => some config
  | "--out" => some out
  | "--package" => some package
  | "--class-name" => some className
  | "--no-comments" => some noComments
  | "--json" => some json
  | _ => none

def belongsTo : OptionName → Subcommand → Bool
  | radius, _ | config, _ => true
  | json, sub => sub = .inspect
  | _, sub => sub = .generate

def takesValue : OptionName → Bool
  | noComments | json => false
  | _ => true

def accepts : OptionName → String → Bool
  | radius, value => (radiusOfText? value).isSome
  | config, value | out, value => !value.isEmpty
  | _, _ => true

end OptionName

def cutAtEquals (arg : String) : String × Option String :=
  let name := arg.toList.takeWhile (· != '=')
  match arg.toList.dropWhile (· != '=') with
  | _ :: value => (String.ofList name, some (String.ofList value))
  | [] => (String.ofList name, none)

/-- Starts with a hyphen; a hyphen alone is an ordinary value. -/
def looksLikeOption (arg : String) : Bool := arg.toList.head? == some '-' && arg != "-"

abbrev Given := List (OptionName × String)

/-- Adds an option with its value, if the option can take it and has none yet. -/
def add? (given : Given) (name : OptionName) (value : String) : Option Given :=
  if (given.lookup name).isNone && name.accepts value then some ((name, value) :: given) else none

/-- The options of a subcommand. Two hyphens alone end them, and nothing may follow. -/
def options? (sub : Subcommand) : List String → Given → Option Given
  | [], given => some given
  | arg :: rest, given =>
    if arg = "--" then if rest.isEmpty then some given else none
    else
      let (text, attached) := cutAtEquals arg
      match OptionName.ofText? text with
      | none => none
      | some name =>
        if !name.belongsTo sub then none
        else
          match name.takesValue, attached, rest with
          | true, some value, rest => (add? given name value).bind (options? sub rest)
          | true, none, value :: rest =>
            if looksLikeOption value then none
            else (add? given name value).bind (options? sub rest)
          | true, none, [] => none
          | false, some _, _ => none
          | false, none, rest => (add? given name "").bind (options? sub rest)

end GridRoute.Command

namespace GridRoute

inductive Command where
  | generate (config : Option String) (overrides : Overrides)
  | inspect (config : Option String) (overrides : Overrides) (json : Bool)
deriving DecidableEq, Repr

namespace Command

def ofArguments? : List String → Option Command
  | [] => none
  | name :: args => do
    let sub ← Subcommand.ofName? name
    let given ← options? sub args []
    let overrides : Overrides :=
      { radius := (given.lookup .radius).bind radiusOfText?
        output := given.lookup .out
        package := given.lookup .package
        className := given.lookup .className
        noComments := (given.lookup .noComments).isSome }
    let config := given.lookup .config
    match sub with
    | .generate => return .generate config overrides
    | .inspect => return .inspect config overrides (given.lookup .json).isSome

def config : Command → Option String
  | generate config _ => config
  | inspect config .. => config

def overrides : Command → Overrides
  | generate _ overrides => overrides
  | inspect _ overrides _ => overrides

end Command

end GridRoute
