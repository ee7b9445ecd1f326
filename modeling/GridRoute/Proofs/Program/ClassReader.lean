import GridRoute.Proofs.Program.Execution
import GridRoute.Proofs.Program.Reading
import GridRoute.Proofs.Program.Wording

/-!
Reading a class back. What is read off the printed text, line by line, is the program that was printed, and it runs as
that program does.
-/

namespace GridRoute

open GridRoute.Source GridRoute.Program

namespace Program

abbrev LineReader (α : Type) := StateT (List (List Char)) Option α

structure ClassCode where
  package : Option String
  name : String
  cells : Nat
  unreached : Int
  unsensed : Int
  step : Int
  search : List Statement
  table : List Statement

namespace Reader

def line {α : Type} (r : Reader α) : LineReader α := do
  let first :: rest ← get | failure
  let (a, []) ← r.run first | failure
  set rest
  return a

def package : Reader String := do
  literal "package "
  let name ← span fun c => c != ';'
  literal ";"
  return name

def className : Reader String := do
  literal "public final class "
  let name ← span ClassName.isPart
  literal " \x7b"
  return name

def constant (name : String) : Reader Int := do
  literal "private static final int "
  literal name
  literal " = "
  let n ← numeral
  literal ";"
  return n

def imports : LineReader Unit := do
  line (literal "import battlecode.common.Direction;")
  line (literal "import battlecode.common.GameActionException;")
  line (literal "import battlecode.common.MapLocation;")
  line (literal "import battlecode.common.RobotController;")

def constructor (name : String) : LineReader Unit := do
  line (do literal "private "; literal name; literal "() \x7b")
  line (literal "\x7d")

def method (header : String) : LineReader (List Statement) := do
  line (do literal header; literal " \x7b")
  readBody [.block .method []]

def cellCount : Reader Nat := do (← constant "CELLS").toNat?

def constants : LineReader (Nat × Int × Int × Int) := do
  let cells ← line cellCount
  let unreached ← line (constant "UNREACHED")
  let unsensed ← line (constant "UNSENSED_COST")
  let step ← line (constant "STEP_COST")
  return (cells, unreached, unsensed, step)

def classCode : LineReader ClassCode := do
  let package ← optional (line package)
  imports
  let name ← line className
  let (cells, unreached, unsensed, step) ← constants
  constructor name
  let search ← method searchHeader
  let table ← method tableHeader
  line (literal "\x7d")
  return { package, name, cells, unreached, unsensed, step, search, table }

end Reader

/-- What the text of a class says, comments and blank lines apart. -/
def readClass (text : String) : Option ClassCode :=
  match Reader.classCode.run ((codeOf text.toList).filter fun line => !line.isEmpty) with
  | some (code, []) => some code
  | _ => none

namespace ClassCode

def callTable (code : ClassCode) (robot : Robot) : Lookup := fun dx dy best =>
  answerOf (runBody ⟨robot, code.cells, none, fun | .dx => some dx | .dy => some dy⟩
    (fun _ _ _ => .error .malformed) code.table { Memory.empty with best := best })

def callSearch (code : ClassCode) (robot : Robot) (target : Position) (extraRounds : Int32) :
    Except Crash (Option Direction) :=
  answerOf (runBody ⟨robot, code.cells, some extraRounds, fun _ => none⟩ (code.callTable robot)
    code.search (Memory.empty.assign .target target))

end ClassCode

section Bare

variable {s : Scope} {lookup : Lookup}

theorem runBody_append (front rest : List Statement) (m : Memory) : runBody s lookup (front ++ rest) m = (do
    match ← runBody s lookup front m with
    | (.next, m) => runBody s lookup rest m
    | (flow, m) => return (flow, m)) := by
  induction front generalizing m with
  | nil => rfl
  | cons statement front ih =>
    rw [List.cons_append, runBody, runBody]
    cases hrun : statement.run s lookup m with
    | error crash => rfl
    | ok result =>
      obtain ⟨_ | _ | heading, m'⟩ := result
      · exact ih m'
      · rfl
      · rfl

theorem runBody_singleton (statement : Statement) (m : Memory) :
    runBody s lookup [statement] m = statement.run s lookup m := by
  rw [runBody]
  cases hrun : statement.run s lookup m with
  | error crash => rfl
  | ok result =>
    obtain ⟨_ | _ | heading, m'⟩ := result <;> rfl

theorem Case.label_bare (c : Case) : c.bare.label = c.label := by
  cases c <;> rw [Case.bare]
  rfl

mutual

theorem Statement.runBody_bare : ∀ (statement : Statement) (m : Memory),
    runBody s lookup statement.bare m = statement.run s lookup m
  | .note _, m => by rw [Statement.bare, runBody, Statement.run]
  | .gap, m => by rw [Statement.bare, runBody, Statement.run]
  | .when c body, m => by
    rw [Statement.bare, runBody_singleton, Statement.run, Statement.run, funext (runBody_bareBody body)]
  | .choose c yes no, m => by
    rw [Statement.bare, runBody_singleton, Statement.run, Statement.run, runBody_bareBody yes, runBody_bareBody no]
  | .repeatRounds body, m => by
    rw [Statement.bare, runBody_singleton, Statement.run, Statement.run, funext (runBody_bareBody body)]
  | .switch axis cases, m => by
    simp only [Statement.bare, runBody_singleton, Statement.run, runCases_bareCases _ cases]
  | .declare _ _, m | .assign _ _, m | .allocate, m | .setPlace _ _, m | .clearPlace _, m | .setLength _ _, m
  | .setCost _ _, m | .setBest _ _, m | .leave, m | .answer _, m | .answerFromTable, m | .fail, m => by
    rw [Statement.bare, runBody_singleton]

theorem Case.run_bare : ∀ (c : Case) (m : Memory), c.bare.run s lookup m = c.run s lookup m
  | .block value body, m => by rw [Case.bare, Case.run, Case.run, runBody_bareBody body]
  | .answer value heading, m => by rw [Case.bare]

theorem runBody_bareBody : ∀ (body : List Statement) (m : Memory),
    runBody s lookup (bareBody body) m = runBody s lookup body m
  | [], m => by rw [bareBody]
  | statement :: rest, m => by
    rw [bareBody, runBody_append, statement.runBody_bare, funext (runBody_bareBody rest)]
    rfl

theorem runCases_bareCases : ∀ (value : Int32) (cases : List Case) (m : Memory),
    runCases s lookup value (bareCases cases) m = runCases s lookup value cases m
  | value, [], m => by rw [bareCases]
  | value, c :: rest, m => by
    simp only [bareCases, runCases, c.label_bare, c.run_bare, runThrough_bareCases rest,
      runCases_bareCases value rest]

theorem runThrough_bareCases : ∀ (cases : List Case) (m : Memory),
    runThrough s lookup (bareCases cases) m = runThrough s lookup cases m
  | [], m => by rw [bareCases]
  | c :: rest, m => by simp only [bareCases, runThrough, c.run_bare, runThrough_bareCases rest]

end

end Bare

section Legible

theorem legibleBody_iff (body : List Statement) : LegibleBody body ↔ ∀ statement ∈ body, statement.Legible := by
  induction body with
  | nil => simp [LegibleBody]
  | cons statement body ih => rw [LegibleBody, ih, List.forall_mem_cons]

theorem legibleCases_iff (cases : List Case) : LegibleCases cases ↔ ∀ c ∈ cases, c.Legible := by
  induction cases with
  | nil => simp [LegibleCases]
  | cons c cases ih => rw [LegibleCases, ih, List.forall_mem_cons]

theorem legibleBody_append {body rest : List Statement} :
    LegibleBody (body ++ rest) ↔ LegibleBody body ∧ LegibleBody rest := by
  simp only [legibleBody_iff, List.forall_mem_append]

theorem legibleBody_map {α : Type} {xs : List α} {f : α → Statement} (h : ∀ x, (f x).Legible) :
    LegibleBody (xs.map f) := by
  rw [legibleBody_iff, List.forall_mem_map]
  exact fun x _ => h x

theorem legibleBody_flatMap {α : Type} {xs : List α} {f : α → List Statement} (h : ∀ x, LegibleBody (f x)) :
    LegibleBody (xs.flatMap f) := by
  rw [legibleBody_iff, List.forall_mem_flatMap]
  exact fun x _ => (legibleBody_iff _).mp (h x)

theorem legibleBody_noteCell (w : Window) (cell : Nat) (remark : String) : LegibleBody (noteCell w cell remark) := by
  unfold noteCell
  split
  · exact ⟨trivial, trivial⟩
  · trivial

theorem legibleBody_clampBody (radius : Radius) (clampSteps : Nat) : LegibleBody (clampBody radius clampSteps) := by
  have hpulls : LegibleBody (List.replicate clampSteps (.when (.within (.var .origin) (.var .next) radius.value)
      [.assign .safe (.var .next), .assign .next (.stepTowards (.var .next) (.var .target))])) := by
    rw [legibleBody_iff]
    intro statement hmem
    rw [List.eq_of_mem_replicate hmem]
    exact ⟨⟨trivial, trivial⟩, trivial, ⟨trivial, trivial⟩, trivial⟩
  simp [clampBody, legibleBody_append, LegibleBody, Statement.Legible, Condition.Legible, Place.Legible, Place.Spot,
    hpulls]

theorem legible_placementStatement (p : Placement) : (placementStatement p).Legible := by
  cases hanchor : p.anchor <;>
    simp [placementStatement, anchorPlace, hanchor, Statement.Legible, Place.Legible, Place.Spot]

theorem legibleBody_senseStatements (o : Offset) (cell : Nat) : LegibleBody (senseStatements o cell) := by
  simp [senseStatements, LegibleBody, Statement.Legible, Condition.Legible, Number.Legible, Number.Term, Place.Spot]

theorem legible_offerStatement (cell source : Nat) : (offerStatement cell source).Legible := by
  simp [offerStatement, LegibleBody, Statement.Legible, Condition.Legible, Number.Legible, Number.Term]

theorem legibleBody_relaxStatements (w : Window) (r : Relaxation) : LegibleBody (relaxStatements w r) := by
  exact legibleBody_append.mpr ⟨legibleBody_noteCell w r.cell "",
    ⟨trivial, legibleBody_map (legible_offerStatement r.cell)⟩, trivial⟩

theorem legibleBody_initialStatements (w : Window) (step : InitialStep) : LegibleBody (initialStatements w step) := by
  cases step with
  | seed cell d =>
    exact legibleBody_append.mpr
      ⟨legibleBody_noteCell w cell " seed", ⟨trivial, ⟨trivial, trivial⟩, trivial, trivial⟩, trivial⟩
  | relax r => exact legibleBody_relaxStatements w r

end Legible

end Program

namespace Pathfinder

variable (p : Pathfinder)

theorem legibleBody_searchBody : LegibleBody p.searchBody := by
  have hplaced : LegibleBody (p.schedule.placements.map placementStatement) :=
    legibleBody_map legible_placementStatement
  have hsensed : LegibleBody (p.window.cells.flatMap fun entry => senseStatements entry.1 entry.2) :=
    legibleBody_flatMap fun entry => legibleBody_senseStatements entry.1 entry.2
  have hstarted : LegibleBody (p.schedule.initialSteps.flatMap (initialStatements p.window)) :=
    legibleBody_flatMap (legibleBody_initialStatements p.window)
  have hround : LegibleBody (p.schedule.extraRound.flatMap (relaxStatements p.window)) :=
    legibleBody_flatMap (legibleBody_relaxStatements p.window)
  simp only [searchBody, legibleBody_append, legibleBody_clampBody, hplaced, hsensed, hstarted]
  simp [LegibleBody, Statement.Legible, Condition.Legible, Place.Legible, Place.Spot, hround]

theorem legibleBody_tableBody : LegibleBody p.tableBody := by
  refine ⟨?_, trivial, trivial⟩
  rw [Statement.Legible, legibleCases_iff, List.forall_mem_map]
  intro column _
  refine ⟨?_, trivial, trivial⟩
  rw [Statement.Legible, legibleCases_iff, List.forall_mem_map]
  exact fun row _ => trivial

end Pathfinder

namespace Program.Reader

variable {α : Type} {rest : List (List Char)}

theorem run_bind_of_run {β σ : Type} {x : StateT σ Option α} {f : α → StateT σ Option β} {s s' : σ} {a : α}
    (h : x.run s = some (a, s')) : (x >>= f).run s = (f a).run s' := by
  rw [StateT.run_bind, h]
  rfl

theorem run_line {r : Reader α} {first : List Char} {a : α} (h : r.run (first ++ []) = some (a, [])) :
    (line r).run (first :: rest) = some (a, rest) := by
  rw [List.append_nil] at h
  simp [line, h]

theorem run_line_literal (text : String) : (line (literal text)).run (text.toList :: rest) = some ((), rest) :=
  run_line (run_literal_append text)

theorem run_constant {name front : String} (hfront : front = "private static final int " ++ name ++ " = ") (n : Int) :
    (constant name).run ((front ++ toString n ++ ";").toList ++ []) = some (n, []) := by
  rw [hfront]
  simp [-String.reduceToList, -List.append_nil, constant, run_numeral (show Stops isNumeric ";" by decide)]

theorem run_cellCount (n : Nat) :
    cellCount.run (("private static final int CELLS = " ++ toString n ++ ";").toList ++ []) = some (n, []) := by
  have hconstant : (constant "CELLS").run
      (("private static final int CELLS = " ++ toString (n : Int) ++ ";").toList ++ []) = some ((n : Int), []) :=
    run_constant (by decide) n
  -- Counts are printed as natural numbers and read as integers.
  have htext : toString (n : Int) = toString n := rfl
  rw [htext] at hconstant
  rw [cellCount, StateT.run_bind, hconstant]
  rfl

theorem run_className (name : String) (h : ∀ c ∈ name.toList, ClassName.isPart c) :
    (line className).run (("public final class " ++ name ++ " \x7b").toList :: rest) = some (name, rest) := by
  refine run_line ?_
  simp [-String.reduceToList, -List.append_nil, className, run_span h (show Stops ClassName.isPart " \x7b" by decide)]

theorem run_package (name : String) (h : ';' ∉ name.toList) :
    (line package).run (("package " ++ name ++ ";").toList :: rest) = some (name, rest) := by
  have hname : ∀ c ∈ name.toList, (c != ';') = true := fun c hc => bne_iff_ne.mpr (ne_of_mem_of_not_mem hc h)
  refine run_line ?_
  simp [-String.reduceToList, -List.append_nil, package,
    run_span hname (show Stops (fun c => c != ';') ";" by decide)]

theorem run_imports : imports.run ("import battlecode.common.Direction;".toList ::
    "import battlecode.common.GameActionException;".toList :: "import battlecode.common.MapLocation;".toList ::
      "import battlecode.common.RobotController;".toList :: rest) = some ((), rest) := by
  rw [imports, run_bind_of_run (run_line_literal _), run_bind_of_run (run_line_literal _),
    run_bind_of_run (run_line_literal _), run_line_literal]

theorem run_constructor (name : String) :
    (constructor name).run (("private " ++ name ++ "()" ++ " \x7b").toList :: "\x7d".toList :: rest) =
      some ((), rest) := by
  have hheader (rest : List (List Char)) :
      (line (do literal "private "; literal name; literal "() \x7b")).run
        (("private " ++ name ++ "()" ++ " \x7b").toList :: rest) = some ((), rest) :=
    run_line (by
      rw [String.append_assoc, show "()" ++ " \x7b" = "() \x7b" by decide]
      simp [-String.reduceToList, -List.append_nil])
  rw [constructor, run_bind_of_run (hheader _), run_line_literal]

theorem run_optional_package {name : Option String} (hname : ∀ text ∈ name, ';' ∉ text.toList) {text : String}
    (htext : Clash "package " text) :
    (optional (line package)).run (spoken (Pathfinder.packageSteps name) ++ text.toList :: rest) =
      some (name, text.toList :: rest) := by
  cases name with
  | none =>
    have hline : (line package).run (text.toList :: rest) = none := by
      have hpackage : package.run text.toList = none := by
        rw [← text.toList.append_nil]
        exact ((begins_literal "package ").bind _).run_eq_none (List.forall_mem_singleton.mpr htext)
      simp [line, hpackage]
    rw [Pathfinder.packageSteps, spoken_nil, List.nil_append, optional, StateT.run_orElse, StateT.run_map, hline]
    rfl
  | some name =>
    have hspoken : spoken (Pathfinder.packageSteps (some name)) = [("package " ++ name ++ ";").toList] :=
      spoken_line (by simp)
    rw [hspoken, List.singleton_append, optional, StateT.run_orElse, StateT.run_map, run_package name (hname name rfl)]
    rfl

theorem readBody_closed {line : List Char} (h : phraseOf line = some .closes) (body : List Statement) :
    readBody [.block .method body] (line :: rest) = some (body, rest) := by
  rw [readBody.eq_def]
  simp only [h]

theorem run_method (header : String) {body : List Statement} (h : LegibleBody body) :
    (method header).run ((header ++ " \x7b").toList :: (spoken (stepsOfBody body) ++ "\x7d".toList :: rest)) =
      some (bareBody body, rest) := by
  have hheader (rest : List (List Char)) :
      (line (do literal header; literal " \x7b")).run ((header ++ " \x7b").toList :: rest) = some ((), rest) :=
    run_line (by simp [-String.reduceToList, -List.append_nil])
  have hbody := hears_stepsOfBody body .method [] [] h ("\x7d".toList :: rest)
  rw [method, run_bind_of_run (hheader _)]
  change readBody _ _ = _
  rw [hbody, List.nil_append, readBody_closed phraseOf_closes]

end Program.Reader

namespace Pathfinder

variable (p : Pathfinder)

def classCode (target : ClassTarget) : ClassCode where
  package := target.package
  name := target.classNameFor p.radius
  cells := p.window.size
  unreached := Cost.unreached
  unsensed := Cost.unsensed
  step := Cost.step
  search := bareBody p.searchBody
  table := bareBody p.tableBody

theorem spoken_remarked {remark text : String} (h : text ≠ "") (rest : Script) :
    spoken (.comment remark :: .line text :: rest) = text.toList :: spoken rest := by
  have hcons : .comment remark :: .line text :: rest = [.comment remark] ++ ([.line text] ++ rest) := rfl
  rw [hcons, spoken_append, spoken_append, spoken_line h]
  rfl

theorem spoken_constantSteps : spoken p.constantSteps =
    [("private static final int CELLS = " ++ toString p.window.size ++ ";").toList,
      ("private static final int UNREACHED = " ++ toString Cost.unreached ++ ";").toList,
      ("private static final int UNSENSED_COST = " ++ toString Cost.unsensed ++ ";").toList,
      ("private static final int STEP_COST = " ++ toString Cost.step ++ ";").toList] := by
  rw [constantSteps, spoken_remarked (by simp), spoken_remarked (by simp), spoken_remarked (by simp),
    spoken_remarked (by simp), spoken_nil]

theorem spoken_nestedMembers (className : String) : spoken (p.nestedMembers className) =
    spoken p.constantSteps ++ ("private " ++ className ++ "()" ++ " \x7b").toList :: "\x7d".toList ::
      (searchHeader ++ " \x7b").toList :: (spoken (stepsOfBody p.searchBody) ++ "\x7d".toList ::
        (tableHeader ++ " \x7b").toList :: (spoken (stepsOfBody p.tableBody) ++ ["\x7d".toList])) := by
  have hblank : spoken [.blank] = [] := rfl
  have hconstructor : spoken [.block ("private " ++ className ++ "()") []] =
      ("private " ++ className ++ "()" ++ " \x7b").toList :: (spoken [] ++ ["\x7d".toList]) :=
    spoken_block (by simp) _
  have hsearch : spoken p.searchSteps =
      (searchHeader ++ " \x7b").toList :: (spoken (stepsOfBody p.searchBody) ++ ["\x7d".toList]) :=
    spoken_block (by simp) _
  have htable : spoken p.tableSteps =
      (tableHeader ++ " \x7b").toList :: (spoken (stepsOfBody p.tableBody) ++ ["\x7d".toList]) :=
    spoken_block (by simp) _
  simp only [nestedMembers, spoken_append, hblank, hconstructor, hsearch, htable, spoken_nil]
  simp only [List.append_assoc, List.cons_append, List.nil_append]

theorem spoken_nestedScript (package : Option String) (className : String) :
    spoken (p.nestedScript package className) = spoken (packageSteps package) ++
      "import battlecode.common.Direction;".toList :: "import battlecode.common.GameActionException;".toList ::
        "import battlecode.common.MapLocation;".toList :: "import battlecode.common.RobotController;".toList ::
          ("public final class " ++ className ++ " \x7b").toList ::
            (spoken (p.nestedMembers className) ++ ["\x7d".toList]) := by
  have himports : spoken importSteps = ["import battlecode.common.Direction;".toList,
      "import battlecode.common.GameActionException;".toList, "import battlecode.common.MapLocation;".toList,
      "import battlecode.common.RobotController;".toList] := by
    simp [-String.reduceToList, spoken, importSteps]
  have hremark : spoken [.blank, .blockComment p.classRemark] = [] := rfl
  have hclass : spoken [.block ("public final class " ++ className) (p.nestedMembers className)] =
      ("public final class " ++ className ++ " \x7b").toList ::
        (spoken (p.nestedMembers className) ++ ["\x7d".toList]) := spoken_block (by simp) _
  simp only [nestedScript, spoken_append, himports, hremark, hclass]
  simp only [List.append_assoc, List.cons_append, List.nil_append]

theorem run_constants (rest : List (List Char)) : Reader.constants.run (spoken p.constantSteps ++ rest) =
    some ((p.window.size, Cost.unreached, Cost.unsensed, Cost.step), rest) := by
  have hcells := Reader.run_cellCount p.window.size
  have hunreached : (Reader.constant "UNREACHED").run
      (("private static final int UNREACHED = " ++ toString Cost.unreached ++ ";").toList ++ []) =
        some (Cost.unreached, []) := Reader.run_constant (by decide) Cost.unreached
  have hunsensed : (Reader.constant "UNSENSED_COST").run
      (("private static final int UNSENSED_COST = " ++ toString Cost.unsensed ++ ";").toList ++ []) =
        some (Cost.unsensed, []) := Reader.run_constant (by decide) Cost.unsensed
  have hstep : (Reader.constant "STEP_COST").run
      (("private static final int STEP_COST = " ++ toString Cost.step ++ ";").toList ++ []) =
        some (Cost.step, []) := Reader.run_constant (by decide) Cost.step
  rw [spoken_constantSteps, Reader.constants]
  simp only [List.cons_append, List.nil_append]
  rw [Reader.run_bind_of_run (Reader.run_line hcells), Reader.run_bind_of_run (Reader.run_line hunreached),
    Reader.run_bind_of_run (Reader.run_line hunsensed), Reader.run_bind_of_run (Reader.run_line hstep)]
  rfl

theorem run_classCode {target : ClassTarget} (valid : target.Valid) :
    Reader.classCode.run (spoken (p.nestedScript target.package (target.classNameFor p.radius))) =
      some (p.classCode target, []) := by
  have hsemicolon : ∀ name ∈ target.package, ';' ∉ name.toList := fun name hname hmem =>
    absurd (ClassName.isPart_of_isPackage (valid.package name hname) (by decide) hmem) (by decide)
  have himport : Reader.Clash "package " "import battlecode.common.Direction;" := .literal (by decide)
  have hname : ∀ c ∈ (target.classNameFor p.radius).toList, ClassName.isPart c :=
    ClassName.isPart_of_isIdentifierText (valid.isIdentifier p.radius)
  rw [spoken_nestedScript, spoken_nestedMembers, Reader.classCode,
    Reader.run_bind_of_run (Reader.run_optional_package hsemicolon himport),
    Reader.run_bind_of_run Reader.run_imports, Reader.run_bind_of_run (Reader.run_className _ hname),
    List.append_assoc, Reader.run_bind_of_run (p.run_constants _)]
  simp only [List.append_assoc, List.cons_append]
  rw [Reader.run_bind_of_run (Reader.run_constructor _), 
    Reader.run_bind_of_run (Reader.run_method searchHeader p.legibleBody_searchBody),
    Reader.run_bind_of_run (Reader.run_method tableHeader p.legibleBody_tableBody), List.nil_append,
    Reader.run_bind_of_run (Reader.run_line_literal _)]
  rfl

theorem readClass_classText {target : ClassTarget} (valid : target.Valid) :
    readClass (p.classText target) = some (p.classCode target) := by
  rw [readClass, p.codeOf_classText valid, ← spoken, p.run_classCode valid]

/-- What is read back runs as the program does. -/
theorem callSearch_classCode (target : ClassTarget) : (p.classCode target).callSearch = p.callSearch := by
  have htable : (p.classCode target).callTable = p.callTable := by
    funext robot dx dy best
    exact congrArg answerOf (runBody_bareBody p.tableBody _)
  funext robot goal extraRounds
  rw [ClassCode.callSearch, callSearch, htable]
  exact congrArg answerOf (runBody_bareBody p.searchBody _)

end Pathfinder

end GridRoute
