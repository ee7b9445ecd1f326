import GridRoute.ClassSource
import GridRoute.Position
import GridRoute.Value

/-!
The forms in which the library's types are written as values. A type is written in one form; it may be
read from a record or from the list of its fields.
-/

namespace GridRoute

def Value.coordinate? (v : Value) : Option Int := v.integerIn? Bounded.lowest Bounded.highest

private def pairOfValue? (make : Int → Int → α) : Value → Option α
  | .record fields => do
    let x ← Value.field? fields "x" none Value.coordinate?
    let y ← Value.field? fields "y" none Value.coordinate?
    return make x y
  | .list [x, y] => do return make (← x.coordinate?) (← y.coordinate?)
  | _ => none

def Offset.ofValue? : Value → Option Offset := pairOfValue? Offset.mk

def Offset.toValue (o : Offset) : Value := .record [("x", .integer o.x), ("y", .integer o.y)]

def Position.ofValue? : Value → Option Position := pairOfValue? Position.mk

def Position.toValue (p : Position) : Value := .record [("x", .integer p.x), ("y", .integer p.y)]

namespace Direction

/-- A name, alone or as the only field of a record that holds nothing. -/
def ofValue? : Value → Option Direction
  | .text s => ofName? s
  | .record [(s, .null)] => ofName? s
  | _ => none

def toValue (d : Direction) : Value := .text d.name

@[simp] theorem ofValue?_toValue (d : Direction) : ofValue? d.toValue = some d := ofName?_name d

end Direction

def Radius.ofValue? (v : Value) : Option (Except CompileError Radius) :=
  (v.count? 4294967295).map Radius.ofNat

namespace ScheduleSize

def ofValue? : Value → Option ScheduleSize
  | .record fields => do
    let count (name : String) := Value.field? fields name none (Value.count? Bounded.countLimit)
    return ⟨← count "cells", ← count "seeds", ← count "initial_checks", ← count "round_checks"⟩
  | .list [cells, seeds, initialChecks, roundChecks] => do
    let count := Value.count? Bounded.countLimit
    return ⟨← count cells, ← count seeds, ← count initialChecks, ← count roundChecks⟩
  | _ => none

def toValue (size : ScheduleSize) : Value :=
  .record [("cells", .integer size.cells), ("seeds", .integer size.seeds),
    ("initial_checks", .integer size.initialChecks), ("round_checks", .integer size.roundChecks)]

end ScheduleSize

namespace ClassTarget

def fieldNames : List String := ["package", "class_name", "comments"]

/-- Fields that are left out keep their defaults; others than the known ones are refused. -/
def ofValue? : Value → Option ClassTarget
  | .record fields => do
    if !fields.all fun field => fieldNames.contains field.1 then none
    let package ← Value.field? fields "package" (some none) Value.optionalText?
    let className ← Value.field? fields "class_name" (some none) Value.optionalText?
    let comments ← Value.field? fields "comments" (some true) Value.bool?
    return ⟨package, className, comments⟩
  | .list [] => some ClassTarget.default
  | .list [package] => do return ⟨← package.optionalText?, none, true⟩
  | .list [package, className] => do
    return ⟨← package.optionalText?, ← className.optionalText?, true⟩
  | .list [package, className, comments] => do
    return ⟨← package.optionalText?, ← className.optionalText?, ← comments.bool?⟩
  | _ => none

def toValue (target : ClassTarget) : Value :=
  .record [("package", .ofOptionalText target.package),
    ("class_name", .ofOptionalText target.className), ("comments", .bool target.comments)]

@[simp] theorem ofValue?_toValue (target : ClassTarget) : ofValue? target.toValue = some target := by
  obtain ⟨package, className, comments⟩ := target
  cases package <;> cases className <;> rfl

end ClassTarget

end GridRoute
