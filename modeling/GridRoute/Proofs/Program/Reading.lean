import GridRoute.Proofs.Program.Reader
import GridRoute.Proofs.Remarks

/-!
Reading a body back. The lines of code are heard one after the other by a stack of what is open, which takes in a
statement, opens a block or closes one. A body that is printed and read is the body again, apart from what it says to
people only.
-/

namespace GridRoute.Program

open GridRoute.Source

inductive Opening where
  | method
  | when (condition : Condition)
  | otherwise (condition : Condition) (yes : List Statement)
  | rounds
  | label (value : Int)

/-- What is open, with what it holds so far. -/
inductive Frame where
  | block (opening : Opening) (body : List Statement)
  | switch (axis : Axis) (cases : List Case)
  /-- The room for the records, of which so many arrays are there. -/
  | rooms (made : Nat)

inductive Phrase where
  | statement (s : Statement)
  | row (value : Int) (heading : Heading)
  | room (array : Nat)
  | opens (frame : Frame)
  | otherwise
  | closes

namespace Reader

/-- The arrays come in this order. -/
def room : Reader Nat :=
  (do literal "MapLocation[] loc = new MapLocation[CELLS];"; return 0) <|>
  (do literal "int[] pathLength = new int[CELLS];"; return 1) <|>
  (do literal "int[] cost = new int[CELLS];"; return 2) <|>
  (do literal "Direction[] bestDir = new Direction[CELLS];"; return 3)

def branch : Reader Phrase := do
  literal "case "
  let value ← numeral
  literal ":"
  (do literal " \x7b"; return .opens (.block (.label value) [])) <|> do
    literal " return "
    let h ← heading
    literal ";"
    return .row value h

def opening : Reader Frame :=
  (do literal "if ("; let c ← condition; literal ")"; return .block (.when c) []) <|>
  (do literal "for (int round = 0; round < extraRounds; round++)"; return .block .rounds []) <|>
  (do literal "switch ("; let a ← axis; literal ")"; return .switch a [])

def opens : Reader Phrase := do
  let frame ← opening
  literal " \x7b"
  return .opens frame

def ending : Reader Phrase :=
  (do literal "\x7d else \x7b"; return .otherwise) <|> (do literal "\x7d"; return .closes)

def phrase : Reader Phrase :=
  (do return .statement (← statement)) <|> (do return .room (← room)) <|> opens <|> branch <|> ending

end Reader

/-- What the line says, if that is all there is on it. -/
def phraseOf (line : List Char) : Option Phrase :=
  match Reader.phrase.run line with
  | some (phrase, []) => some phrase
  | _ => none

def say (statement : Statement) : List Frame → Option (List Frame)
  | .block opening body :: stack => some (.block opening (body ++ [statement]) :: stack)
  | _ => none

def close : List Frame → Option (List Frame)
  | .block (.when c) body :: stack => say (.when c body) stack
  | .block (.otherwise c yes) no :: stack => say (.choose c yes no) stack
  | .block .rounds body :: stack => say (.repeatRounds body) stack
  | .block (.label value) body :: .switch axis cases :: stack =>
    some (.switch axis (cases ++ [.block value body]) :: stack)
  | .switch axis cases :: stack => say (.switch axis cases) stack
  | _ => none

def hear : Phrase → List Frame → Option (List Frame)
  | .statement s, stack => say s stack
  | .row value heading, .switch axis cases :: stack =>
    some (.switch axis (cases ++ [.answer value heading]) :: stack)
  | .opens frame, stack => some (frame :: stack)
  | .otherwise, .block (.when c) yes :: stack => some (.block (.otherwise c yes) [] :: stack)
  | .closes, stack => close stack
  | .room 0, stack => some (.rooms 1 :: stack)
  | .room 1, .rooms 1 :: stack => some (.rooms 2 :: stack)
  | .room 2, .rooms 2 :: stack => some (.rooms 3 :: stack)
  | .room 3, .rooms 3 :: stack => say .allocate stack
  | _, _ => none

/-- Reads lines until the method is closed, and leaves the rest. -/
def readBody : List Frame → List (List Char) → Option (List Statement × List (List Char))
  | _, [] => none
  | stack, line :: rest =>
    match stack, phraseOf line with
    | [.block .method body], some .closes => some (body, rest)
    | stack, some phrase => (hear phrase stack).bind fun stack => readBody stack rest
    | _, none => none

mutual

/-- The statement without what it says to people. -/
def Statement.bare : Statement → List Statement
  | .note _ | .gap => []
  | .when c body => [.when c (bareBody body)]
  | .choose c yes no => [.choose c (bareBody yes) (bareBody no)]
  | .repeatRounds body => [.repeatRounds (bareBody body)]
  | .switch axis cases => [.switch axis (bareCases cases)]
  | .declare v place => [.declare v place]
  | .assign v place => [.assign v place]
  | .allocate => [.allocate]
  | .setPlace cell place => [.setPlace cell place]
  | .clearPlace cell => [.clearPlace cell]
  | .setLength cell number => [.setLength cell number]
  | .setCost cell number => [.setCost cell number]
  | .setBest cell heading => [.setBest cell heading]
  | .leave => [.leave]
  | .answer heading => [.answer heading]
  | .answerFromTable => [.answerFromTable]
  | .fail => [.fail]

def Case.bare : Case → Case
  | .block value body => .block value (bareBody body)
  | .answer value heading => .answer value heading

def bareBody : List Statement → List Statement
  | [] => []
  | statement :: rest => statement.bare ++ bareBody rest

def bareCases : List Case → List Case
  | [] => []
  | first :: rest => first.bare :: bareCases rest

end

mutual

def Statement.Legible : Statement → Prop
  | .declare _ place | .assign _ place | .setPlace _ place => place.Legible
  | .setLength _ number | .setCost _ number => number.Legible
  | .when c body => c.Legible ∧ LegibleBody body
  | .choose c yes no => c.Legible ∧ LegibleBody yes ∧ LegibleBody no
  | .repeatRounds body => LegibleBody body
  | .switch _ cases => LegibleCases cases
  | .note _ | .gap | .allocate | .clearPlace _ | .setBest _ _ | .leave | .answer _ | .answerFromTable | .fail => True

def Case.Legible : Case → Prop
  | .block _ body => LegibleBody body
  | .answer _ _ => True

def LegibleBody : List Statement → Prop
  | [] => True
  | statement :: rest => statement.Legible ∧ LegibleBody rest

def LegibleCases : List Case → Prop
  | [] => True
  | first :: rest => first.Legible ∧ LegibleCases rest

end

section Phrases

open Reader

variable {rest : List Char}

theorem phraseOf_of_run {line : List Char} {ph : Phrase} (h : phrase.run (line ++ []) = some (ph, [])) :
    phraseOf line = some ph := by
  rw [List.append_nil] at h
  rw [phraseOf, h]

theorem phraseOf_statement {text : String} {s : Statement} (h : statement.run (text.toList ++ []) = some (s, [])) :
    phraseOf text.toList = some (.statement s) :=
  phraseOf_of_run (by rw [phrase, StateT.run_orElse, StateT.run_bind, h]; rfl)

theorem begins_room : Begins room ["MapLocation[]", "int[]", "int[]", "Direction[]"] :=
  ((begins_literal_append "MapLocation[]" " loc = new MapLocation[CELLS];").bind _).orElse
    (((begins_literal_append "int[]" " pathLength = new int[CELLS];").bind _).orElse
      (((begins_literal_append "int[]" " cost = new int[CELLS];").bind _).orElse
        ((begins_literal_append "Direction[]" " bestDir = new Direction[CELLS];").bind _)))

/-- What begins neither a statement nor a room is told by its keyword or its brace. -/
theorem run_phrase_of_clash {front : String} (hstatement : ∀ text ∈ statementFronts, Clash text front)
    (hroom : ∀ text ∈ ["MapLocation[]", "int[]", "int[]", "Direction[]"], Clash text front) :
    phrase.run (front.toList ++ rest) = (opens <|> branch <|> ending).run (front.toList ++ rest) := by
  simp [-String.reduceToList, phrase, begins_statement.run_eq_none hstatement, begins_room.run_eq_none hroom]

theorem phraseOf_if {c : Condition} (h : c.Legible) :
    phraseOf ("if (" ++ c.text ++ ")" ++ " \x7b").toList = some (.opens (.block (.when c) [])) := by
  refine phraseOf_of_run ?_
  simp (disch := decide) [-String.reduceToList, -List.append_nil, run_phrase_of_clash, opens, opening,
    run_condition h]

theorem phraseOf_for : phraseOf ("for (int round = 0; round < extraRounds; round++)" ++ " \x7b").toList =
    some (.opens (.block .rounds [])) := by
  refine phraseOf_of_run ?_
  simp (disch := decide) [-String.reduceToList, -String.reduceAppend, -List.append_nil, run_phrase_of_clash, opens,
    opening, run_literal_of_clash]

theorem phraseOf_switch (a : Axis) :
    phraseOf ("switch (" ++ a.text ++ ")" ++ " \x7b").toList = some (.opens (.switch a [])) := by
  refine phraseOf_of_run ?_
  simp (disch := decide) [-String.reduceToList, -List.append_nil, run_phrase_of_clash, opens, opening,
    run_literal_of_clash]

theorem phraseOf_case (value : Int) :
    phraseOf ("case " ++ toString value ++ ":" ++ " \x7b").toList = some (.opens (.block (.label value) [])) := by
  refine phraseOf_of_run ?_
  simp (disch := decide) [-String.reduceToList, -List.append_nil, run_phrase_of_clash, opens, opening, branch,
    run_literal_of_clash, run_numeral]

theorem phraseOf_row (value : Int) (h : Heading) :
    phraseOf ("case " ++ toString value ++ ": return " ++ h.text ++ ";").toList = some (.row value h) := by
  have hsplit : ": return " = ":" ++ " return " := by decide
  refine phraseOf_of_run ?_
  rw [hsplit]
  simp (disch := decide) [-String.reduceToList, -String.reduceAppend, -List.append_nil, run_phrase_of_clash, opens,
    opening, branch, run_literal_of_clash, run_numeral, run_heading]

theorem phraseOf_otherwise : phraseOf "\x7d else \x7b".toList = some .otherwise := by
  refine phraseOf_of_run ?_
  simp (disch := decide) [-String.reduceToList, -List.append_nil, run_phrase_of_clash, opens, opening, branch, ending,
    run_literal_of_clash]

theorem phraseOf_closes : phraseOf "\x7d".toList = some .closes := by
  -- The brace alone is a front of the line in the middle of a choice, so the two do not clash.
  have helse : (literal "\x7d else \x7b").run ("\x7d".toList ++ []) = none := run_signs_of_not_prefix (by decide)
  refine phraseOf_of_run ?_
  simp (disch := decide) [-String.reduceToList, -List.append_nil, run_phrase_of_clash, opens, opening, branch, ending,
    run_literal_of_clash, helse]

end Phrases

/-- The lines of code of a script, without the blank ones. -/
def spoken (script : Script) : List (List Char) :=
  ((contents script).map String.toList).filter fun line => !line.isEmpty

section Spoken

@[simp] theorem spoken_nil : spoken [] = [] := rfl

@[simp] theorem spoken_append (script rest : Script) : spoken (script ++ rest) = spoken script ++ spoken rest := by
  simp [spoken]

theorem spoken_line {text : String} (h : text ≠ "") : spoken [.line text] = [text.toList] := by
  simp [spoken, h]

theorem spoken_block {header : String} (h : header ≠ "") (body : Script) :
    spoken [.block header body] = (header ++ " \x7b").toList :: (spoken body ++ ["\x7d".toList]) := by
  have hopening : (Line.opening 0 header).content = header ++ " \x7b" := if_neg (by simpa using h)
  simp [-String.reduceToList, spoken, hopening]

theorem spoken_rounds (body : Script) :
    spoken [.loop "round" "extraRounds" body] =
      ("for (int round = 0; round < extraRounds; round++)" ++ " \x7b").toList ::
        (spoken body ++ ["\x7d".toList]) := by
  have hopening : (Line.opening 0 (loopHeader "round" "extraRounds")).content =
      "for (int round = 0; round < extraRounds; round++)" ++ " \x7b" := rfl
  simp [-String.reduceToList, spoken, hopening]

end Spoken

/-- Reading the lines turns the one stack into the other. -/
def Hears (lines : List (List Char)) (stack stack' : List Frame) : Prop :=
  ∀ rest, readBody stack (lines ++ rest) = readBody stack' rest

namespace Hears

variable {line : List Char} {lines more : List (List Char)} {stack stack' stack'' : List Frame} {frame : Frame}
  {o : Opening} {body : List Statement}

theorem nil : Hears [] stack stack := fun _ => rfl

theorem append (h : Hears lines stack stack') (hmore : Hears more stack' stack'') :
    Hears (lines ++ more) stack stack'' :=
  fun rest => by rw [List.append_assoc, h, hmore]

theorem of_phraseOf {ph : Phrase} (hphrase : phraseOf line = some ph) (hopen : ph ≠ .closes)
    (hhear : hear ph stack = some stack') : Hears [line] stack stack' := fun rest => by
  rw [List.singleton_append, readBody.eq_def]
  simp only [hphrase]
  -- Only a closing brace can end the method.
  split
  · rename_i heq
    cases heq
    exact absurd rfl hopen
  · rename_i heq
    cases heq
    rw [hhear, Option.bind_some]
  · rename_i heq
    cases heq

theorem closes (hclose : close (frame :: stack) = some stack') (hmore : stack ≠ []) :
    Hears ["\x7d".toList] (frame :: stack) stack' := fun rest => by
  rw [List.singleton_append, readBody.eq_def]
  simp only [phraseOf_closes]
  split
  · rename_i heq _
    exact absurd (List.cons.inj heq).2 hmore
  · rename_i heq _
    cases heq
    rw [hear, hclose, Option.bind_some]
  · rename_i heq
    cases heq

theorem statement {s : Statement} (h : phraseOf line = some (.statement s)) :
    Hears [line] (.block o body :: stack) (.block o (body ++ [s]) :: stack) :=
  of_phraseOf h nofun rfl

theorem opens (h : phraseOf line = some (.opens frame)) : Hears [line] stack (frame :: stack) :=
  of_phraseOf h nofun rfl

theorem block (hopen : phraseOf line = some (.opens frame)) {full : Frame}
    (hbody : Hears lines (frame :: stack) (full :: stack)) (hclose : close (full :: stack) = some stack')
    (hmore : stack ≠ []) : Hears (line :: (lines ++ ["\x7d".toList])) stack stack' :=
  (opens hopen).append (hbody.append (closes hclose hmore))

end Hears

section Rooms

open Reader

theorem phraseOf_room {text : String} {array : Nat} (front : String)
    (hfront : ∀ head ∈ statementFronts, Clash head front) (more : String) (htext : text = front ++ more)
    (h : room.run (text.toList ++ []) = some (array, [])) : phraseOf text.toList = some (.room array) := by
  have hstatement : statement.run (text.toList ++ []) = none := by
    rw [htext]
    exact begins_statement.run_append_eq_none front hfront more
  refine phraseOf_of_run ?_
  rw [phrase, StateT.run_orElse, StateT.run_bind, hstatement, StateT.run_orElse, StateT.run_bind, h]
  rfl

theorem phraseOf_room_loc : phraseOf "MapLocation[] loc = new MapLocation[CELLS];".toList = some (.room 0) :=
  phraseOf_room "MapLocation[]" (by decide) " loc = new MapLocation[CELLS];" rfl
    (by simp [-String.reduceToList, -List.append_nil, room])

theorem phraseOf_room_pathLength : phraseOf "int[] pathLength = new int[CELLS];".toList = some (.room 1) := by
  have hclash : Clash "MapLocation[] loc = new MapLocation[CELLS];" "int[] pathLength = new int[CELLS];" :=
    .literal (by decide)
  exact phraseOf_room "int[]" (by decide) " pathLength = new int[CELLS];" rfl
    (by simp [-String.reduceToList, -List.append_nil, room, run_literal_of_clash hclash])

theorem phraseOf_room_cost : phraseOf "int[] cost = new int[CELLS];".toList = some (.room 2) := by
  have hloc : Clash "MapLocation[] loc = new MapLocation[CELLS];" "int[] cost = new int[CELLS];" :=
    .literal (by decide)
  have hlength : Clash "int[] pathLength = new int[CELLS];" "int[] cost = new int[CELLS];" := .literal (by decide)
  exact phraseOf_room "int[]" (by decide) " cost = new int[CELLS];" rfl
    (by simp [-String.reduceToList, -List.append_nil, room, run_literal_of_clash hloc, run_literal_of_clash hlength])

theorem phraseOf_room_bestDir : phraseOf "Direction[] bestDir = new Direction[CELLS];".toList = some (.room 3) := by
  have hloc : Clash "MapLocation[] loc = new MapLocation[CELLS];" "Direction[] bestDir = new Direction[CELLS];" :=
    .literal (by decide)
  have hlength : Clash "int[] pathLength = new int[CELLS];" "Direction[] bestDir = new Direction[CELLS];" :=
    .literal (by decide)
  have hcost : Clash "int[] cost = new int[CELLS];" "Direction[] bestDir = new Direction[CELLS];" :=
    .literal (by decide)
  exact phraseOf_room "Direction[]" (by decide) " bestDir = new Direction[CELLS];" rfl
    (by simp [-String.reduceToList, -List.append_nil, room, run_literal_of_clash hloc, run_literal_of_clash hlength,
      run_literal_of_clash hcost])

theorem hears_allocate {o : Opening} {body : List Statement} {stack : List Frame} :
    Hears (spoken Statement.allocate.steps) (.block o body :: stack) (.block o (body ++ [.allocate]) :: stack) := by
  have hlines : spoken Statement.allocate.steps =
      ["MapLocation[] loc = new MapLocation[CELLS];".toList] ++ (["int[] pathLength = new int[CELLS];".toList] ++
        (["int[] cost = new int[CELLS];".toList] ++ ["Direction[] bestDir = new Direction[CELLS];".toList])) := by
    simp [-String.reduceToList, spoken, Statement.steps]
  rw [hlines]
  exact (Hears.of_phraseOf phraseOf_room_loc nofun rfl).append
    ((Hears.of_phraseOf phraseOf_room_pathLength nofun rfl).append
      ((Hears.of_phraseOf phraseOf_room_cost nofun rfl).append (.of_phraseOf phraseOf_room_bestDir nofun rfl)))

end Rooms

theorem Statement.hears_of_run {s : Statement} {text : String} (hsteps : s.steps = [.line text])
    (hbare : s.bare = [s]) (hne : text ≠ "") (h : Reader.statement.run (text.toList ++ []) = some (s, []))
    (o : Opening) (body : List Statement) (stack : List Frame) :
    Hears (spoken s.steps) (.block o body :: stack) (.block o (body ++ s.bare) :: stack) := by
  rw [hsteps, spoken_line hne, hbare]
  exact .statement (phraseOf_statement h)

mutual

theorem Statement.hears_steps : ∀ (s : Statement) (o : Opening) (body : List Statement) (stack : List Frame),
    s.Legible → Hears (spoken s.steps) (.block o body :: stack) (.block o (body ++ s.bare) :: stack)
  | .note _, o, body, stack, _ => by
    rw [Statement.bare, List.append_nil]
    exact .nil
  | .gap, o, body, stack, _ => by
    rw [Statement.bare, List.append_nil]
    exact .nil
  | .declare v place, o, body, stack, h =>
    Statement.hears_of_run rfl rfl (by simp) (Reader.run_statement_declare v h) o body stack
  | .assign v place, o, body, stack, h =>
    Statement.hears_of_run rfl rfl (by simp) (Reader.run_statement_assign v h) o body stack
  | .allocate, o, body, stack, h => by
    rw [Statement.bare]
    exact hears_allocate
  | .setPlace cell place, o, body, stack, h =>
    Statement.hears_of_run rfl rfl (by simp) (Reader.run_statement_setPlace h) o body stack
  | .clearPlace cell, o, body, stack, h =>
    Statement.hears_of_run rfl rfl (by simp) Reader.run_statement_clearPlace o body stack
  | .setLength cell number, o, body, stack, h =>
    Statement.hears_of_run rfl rfl (by simp) (Reader.run_statement_setLength h) o body stack
  | .setCost cell number, o, body, stack, h =>
    Statement.hears_of_run rfl rfl (by simp) (Reader.run_statement_setCost h) o body stack
  | .setBest cell heading, o, body, stack, h =>
    Statement.hears_of_run rfl rfl (by simp) (Reader.run_statement_setBest heading) o body stack
  | .when c inner, o, body, stack, h => by
    have hbody := hears_stepsOfBody inner (.when c) [] (.block o body :: stack) h.2
    rw [Statement.steps, spoken_block (by simp), Statement.bare]
    exact .block (phraseOf_if h.1) hbody rfl (by simp)
  | .choose c yes no, o, body, stack, h => by
    have hyes := hears_stepsOfBody yes (.when c) [] (.block o body :: stack) h.2.1
    have helse : Hears ["\x7d else \x7b".toList] (.block (.when c) (bareBody yes) :: .block o body :: stack)
        (.block (.otherwise c (bareBody yes)) [] :: .block o body :: stack) :=
      .of_phraseOf phraseOf_otherwise nofun rfl
    have hno := hears_stepsOfBody no (.otherwise c (bareBody yes)) [] (.block o body :: stack) h.2.2
    have hlines : spoken (.reopenBlock "else" :: stepsOfBody no) =
        "\x7d else \x7b".toList :: spoken (stepsOfBody no) := rfl
    rw [Statement.steps, spoken_block (by simp), spoken_append, hlines, Statement.bare]
    exact .block (phraseOf_if h.1) (hyes.append (helse.append hno)) rfl (by simp)
  | .repeatRounds inner, o, body, stack, h => by
    have hbody := hears_stepsOfBody inner .rounds [] (.block o body :: stack) h
    rw [Statement.steps, spoken_rounds, Statement.bare]
    exact .block phraseOf_for hbody rfl (by simp)
  | .switch axis cases, o, body, stack, h => by
    have hcases := hears_stepsOfCases cases axis [] (.block o body :: stack) h
    rw [Statement.steps, spoken_block (by simp), Statement.bare]
    exact .block (phraseOf_switch axis) hcases rfl (by simp)
  | .leave, o, body, stack, _ =>
    Statement.hears_of_run rfl rfl (by simp) Reader.run_statement_leave o body stack
  | .answer heading, o, body, stack, _ =>
    Statement.hears_of_run rfl rfl (by simp) (Reader.run_statement_answer heading) o body stack
  | .answerFromTable, o, body, stack, _ =>
    Statement.hears_of_run rfl rfl (by simp) Reader.run_statement_answerFromTable o body stack
  | .fail, o, body, stack, _ =>
    Statement.hears_of_run rfl rfl (by simp) Reader.run_statement_fail o body stack

theorem Case.hears_steps : ∀ (c : Case) (axis : Axis) (cases : List Case) (stack : List Frame),
    c.Legible → Hears (spoken c.steps) (.switch axis cases :: stack) (.switch axis (cases ++ [c.bare]) :: stack)
  | .block value inner, axis, cases, stack, h => by
    have hbody := hears_stepsOfBody inner (.label value) [] (.switch axis cases :: stack) h
    rw [Case.steps, spoken_block (by simp), Case.bare]
    exact .block (phraseOf_case value) hbody rfl (by simp)
  | .answer value heading, axis, cases, stack, h => by
    rw [Case.steps, spoken_line (by simp), Case.bare]
    exact .of_phraseOf (phraseOf_row value heading) nofun rfl

theorem hears_stepsOfBody : ∀ (inner : List Statement) (o : Opening) (body : List Statement) (stack : List Frame),
    LegibleBody inner →
      Hears (spoken (stepsOfBody inner)) (.block o body :: stack) (.block o (body ++ bareBody inner) :: stack)
  | [], _, _, _, _ => by
    rw [bareBody, List.append_nil]
    exact .nil
  | s :: rest, o, body, stack, h => by
    rw [stepsOfBody, spoken_append, bareBody, ← List.append_assoc]
    exact (s.hears_steps o body stack h.1).append (hears_stepsOfBody rest o (body ++ s.bare) stack h.2)

theorem hears_stepsOfCases : ∀ (inner : List Case) (axis : Axis) (cases : List Case) (stack : List Frame),
    LegibleCases inner → Hears (spoken (stepsOfCases inner)) (.switch axis cases :: stack)
      (.switch axis (cases ++ bareCases inner) :: stack)
  | [], _, _, _, _ => by
    rw [bareCases, List.append_nil]
    exact .nil
  | c :: rest, axis, cases, stack, h => by
    rw [stepsOfCases, spoken_append, bareCases, List.append_cons]
    exact (c.hears_steps axis cases stack h.1).append (hears_stepsOfCases rest axis (cases ++ [c.bare]) stack h.2)

end

end GridRoute.Program
