import GridRoute.ClassSource
import GridRoute.Proofs.Layout
import GridRoute.Proofs.Sequencing

/-!
Printing a program. Statements are printed as scripts that nest well, so the class that holds them is printed
without a failure whenever its names are names, and its text is the layout of one script.
-/

namespace GridRoute

open GridRoute.Source GridRoute.Program

namespace Program

mutual

theorem Statement.nests_steps : ∀ (statement : Statement) (level : Nat),
    NestsScript level statement.steps
  | .when _ body, level | .repeatRounds body, level =>
    ⟨nests_stepsOfBody body (level + 1), trivial⟩
  | .choose _ yes no, level =>
    ⟨nestsScript_append.mpr ⟨nests_stepsOfBody yes (level + 1), Nat.succ_pos level,
      nests_stepsOfBody no (level + 1)⟩, trivial⟩
  | .switch _ cases, level => ⟨nests_stepsOfCases cases (level + 1), trivial⟩
  | .note _, _ | .gap, _ | .declare _ _, _ | .assign _ _, _ | .allocate, _ | .setPlace _ _, _
  | .clearPlace _, _ | .setLength _ _, _ | .setCost _ _, _ | .setBest _ _, _ | .leave, _ | .answer _, _
  | .answerFromTable, _ | .fail, _ => ⟨trivial, trivial⟩

theorem Case.nests_steps : ∀ (first : Case) (level : Nat), NestsScript level first.steps
  | .block _ body, level => ⟨nests_stepsOfBody body (level + 1), trivial⟩
  | .answer _ _, _ => ⟨trivial, trivial⟩

theorem nests_stepsOfBody : ∀ (body : List Statement) (level : Nat),
    NestsScript level (stepsOfBody body)
  | [], _ => trivial
  | statement :: rest, level =>
    nestsScript_append.mpr ⟨statement.nests_steps level, nests_stepsOfBody rest level⟩

theorem nests_stepsOfCases : ∀ (cases : List Case) (level : Nat),
    NestsScript level (stepsOfCases cases)
  | [], _ => trivial
  | first :: rest, level =>
    nestsScript_append.mpr ⟨first.nests_steps level, nests_stepsOfCases rest level⟩

end

def searchHeader : String :=
  "public static Direction pathfindTowards(RobotController rc, MapLocation target, " ++
    "int extraRounds) throws GameActionException"

def tableHeader : String :=
  "private static Direction bestDirection(int dx, int dy, Direction[] bestDir)"

end Program

structure ClassTarget.Valid (target : ClassTarget) : Prop where
  className : ∀ name ∈ target.className, ClassName.isIdentifier name
  package : ∀ name ∈ target.package, ClassName.isPackage name

namespace ClassName

/-- No word of the language begins with a capital letter. -/
theorem isIdentifierText_of_forall_isPart {rest : List Char} (h : ∀ c ∈ rest, isPart c) :
    isIdentifierText ('B' :: rest) := by
  have hkeywords : ∀ word ∈ keywords, word.toList.head? ≠ some 'B' := by decide
  have hnot : 'B' :: rest ∉ keywords.map String.toList := by
    rw [List.mem_map]
    rintro ⟨word, hword, heq⟩
    exact hkeywords word hword (by rw [heq, List.head?_cons])
  simp only [isIdentifierText, Bool.and_eq_true, List.all_eq_true, Bool.not_eq_true',
    List.contains_eq_mem, decide_eq_false_iff_not]
  exact ⟨⟨by decide, h⟩, hnot⟩

end ClassName

theorem ClassTarget.Valid.isIdentifier {target : ClassTarget} (h : target.Valid) (radius : Radius) :
    ClassName.isIdentifier (target.classNameFor radius) := by
  cases hname : target.className with
  | some name =>
    rw [classNameFor, hname, Option.getD_some]
    exact h.className name (by rw [hname]; rfl)
  | none =>
    have hname : (target.classNameFor radius).toList =
        'B' :: ("ellmanFord".toList ++ Nat.toDigits 10 radius.value) := by
      rw [classNameFor, hname, Option.getD_none, String.toList_append,
        show (toString radius.value).toList = _ from Nat.toList_repr]
      rfl
    have hletters : "ellmanFord".toList.all ClassName.isPart := by decide
    rw [ClassName.isIdentifier, hname]
    refine ClassName.isIdentifierText_of_forall_isPart fun c hc => ?_
    rcases List.mem_append.mp hc with hc | hc
    · exact List.all_eq_true.mp hletters c hc
    · have := Nat.isDigit_of_mem_toDigits (by decide) (Nat.le_refl 10) hc
      simp [ClassName.isPart, Char.isAlphanum, this]

/-- What is wrong with the names; that of the class is looked at first. -/
def ClassTarget.checkNames (target : ClassTarget) (radius : Radius) : Except RenderError Unit := do
  let className := target.classNameFor radius
  if !ClassName.isIdentifier className then throw (.invalidClassName className)
  if let some package := target.package then
    if !ClassName.isPackage package then throw (.invalidPackage package)

theorem ClassTarget.checkNames_eq_ok_iff (target : ClassTarget) {radius : Radius} :
    target.checkNames radius = .ok () ↔ target.Valid := by
  constructor
  · intro h
    rw [checkNames] at h
    dsimp only at h
    split at h
    · cases h
    · rename_i hname
      refine ⟨fun name hmem => ?_, fun package hmem => ?_⟩
      · rw [Option.mem_def] at hmem
        simpa [classNameFor, hmem] using hname
      · rw [Option.mem_def] at hmem
        simp only [hmem] at h
        split at h
        · cases h
        · rename_i hpackage
          simpa using hpackage
  · intro valid
    have hname := valid.isIdentifier radius
    rw [checkNames]
    cases hpackage : target.package with
    | none =>
      simp only [hname, Bool.not_true, Bool.false_eq_true, if_false]
      rfl
    | some package =>
      simp only [hname, valid.package package hpackage, Bool.not_true, Bool.false_eq_true, if_false]
      rfl

namespace Pathfinder

theorem writes_constructor (comments : Bool) (level : Nat) (header : String) :
    Writes comments level [.enterBlock header, .exitBlock]
      (layoutScript comments level [.block header []]) := by
  rintro w - rfl
  have hlines : (w.lines.push (.opening w.depth header)).push (.closing w.depth) =
      w.lines ++ #[.opening w.depth header, .closing w.depth] := by
    apply Array.ext'
    simp
  simp [runScript, Step.run, Writer.enterBlock, Writer.exitBlock, Writer.putAll, layoutScript,
    Step.layout, hlines]

def classRemark (p : Pathfinder) : List String :=
  ["Pathfinding for a vision radius of " ++ p.radius.text ++
      " using bounded Bellman-Ford relaxation.",
    "",
    "Generated by pathtable. Do not edit by hand."]

def memberSteps (p : Pathfinder) (className : String) : Script :=
  p.constantSteps ++ [.blank, .enterBlock ("private " ++ className ++ "()"), .exitBlock, .blank] ++
    p.searchSteps ++ [.blank] ++ p.tableSteps

def nestedMembers (p : Pathfinder) (className : String) : Script :=
  p.constantSteps ++ [.blank] ++ [.block ("private " ++ className ++ "()") []] ++ [.blank] ++
    p.searchSteps ++ [.blank] ++ p.tableSteps

/-- The class, with the constructor as a block without a body. -/
def nestedScript (p : Pathfinder) (package : Option String) (className : String) : Script :=
  packageSteps package ++ importSteps ++ [.blank, .blockComment p.classRemark] ++
    [.block ("public final class " ++ className) (p.nestedMembers className)]

theorem classScript_eq (p : Pathfinder) (package : Option String) (className : String) :
    p.classScript package className = packageSteps package ++ importSteps ++
      [.blank, .blockComment p.classRemark] ++
      [.block ("public final class " ++ className) (p.memberSteps className)] := by
  rw [classScript, List.append_assoc _ [_, _]]
  rfl

theorem nests_constantSteps (p : Pathfinder) : NestsScript 1 p.constantSteps := by
  simp [constantSteps, NestsScript, Step.Nests]

theorem nests_searchSteps (p : Pathfinder) : NestsScript 1 p.searchSteps :=
  ⟨trivial, nests_stepsOfBody p.searchBody 2, trivial⟩

theorem nests_tableSteps (p : Pathfinder) : NestsScript 1 p.tableSteps :=
  ⟨trivial, nests_stepsOfBody p.tableBody 2, trivial⟩

theorem writes_memberSteps (p : Pathfinder) (className : String) (comments : Bool) :
    Writes comments 1 (p.memberSteps className)
      (layoutScript comments 1 (p.nestedMembers className)) := by
  have hgap : Writes comments 1 [.blank] (layoutScript comments 1 [.blank]) :=
    writes_layout [.blank] ⟨trivial, trivial⟩
  have hconstants := (writes_layout p.constantSteps p.nests_constantSteps).append hgap
  have hconstructor :=
    (hconstants.append (writes_constructor comments 1 ("private " ++ className ++ "()"))).append hgap
  have hsearch := (hconstructor.append (writes_layout p.searchSteps p.nests_searchSteps)).append hgap
  have h := hsearch.append (writes_layout p.tableSteps p.nests_tableSteps)
  rw [← layoutScript_append, ← layoutScript_append, ← layoutScript_append, ← layoutScript_append,
    ← layoutScript_append, ← layoutScript_append] at h
  rw [nestedMembers, memberSteps]
  simpa only [List.append_assoc, List.cons_append, List.nil_append] using h

theorem writes_classScript (p : Pathfinder) (package : Option String) (className : String)
    (comments : Bool) : Writes comments 0 (p.classScript package className)
      (layoutScript comments 0 (p.nestedScript package className)) := by
  have hfront : NestsScript 0 (packageSteps package ++ importSteps ++
      [.blank, .blockComment p.classRemark]) := by
    cases package <;> simp [packageSteps, importSteps, NestsScript, Step.Nests]
  rw [classScript_eq, nestedScript, layoutScript_append]
  refine (writes_layout _ hfront).append ?_
  simpa [layoutScript, Step.layout] using
    (p.writes_memberSteps className comments).block ("public final class " ++ className)

def classText (p : Pathfinder) (target : ClassTarget) : String :=
  printed "    " (layoutScript target.comments 0
    (p.nestedScript target.package (target.classNameFor p.radius)))

theorem render_eq_map (p : Pathfinder) (target : ClassTarget) :
    p.render target = (target.checkNames p.radius).map fun _ => p.classText target := by
  have hwritten := p.writes_classScript target.package (target.classNameFor p.radius)
    target.comments (Writer.new.setComments target.comments) rfl rfl
  have hfinish : ((Writer.new.setComments target.comments).putAll _).finish =
      .ok (p.classText target) := Writer.finish_putAll _ rfl rfl
  -- What is refused is refused before anything is written.
  rw [render, ClassTarget.checkNames]
  dsimp only
  split
  · rfl
  · cases hpackage : target.package with
    | none =>
      rw [hpackage] at hwritten hfinish
      simp only [hwritten, hfinish]
      rfl
    | some package =>
      rw [hpackage] at hwritten hfinish
      simp only [hwritten, hfinish]
      split <;> rfl

theorem render_eq_ok (p : Pathfinder) {target : ClassTarget} (valid : target.Valid) :
    p.render target = .ok (p.classText target) := by
  rw [render_eq_map, target.checkNames_eq_ok_iff.mpr valid]
  rfl

theorem valid_of_render_eq_ok {p : Pathfinder} {target : ClassTarget} {text : String}
    (h : p.render target = .ok text) : target.Valid := by
  rw [render_eq_map] at h
  have hnames : target.checkNames p.radius = .ok () := by
    cases hcheck : target.checkNames p.radius with
    | ok => rfl
    | error error =>
      rw [hcheck] at h
      cases h
  exact target.checkNames_eq_ok_iff.mp hnames

end Pathfinder

end GridRoute
