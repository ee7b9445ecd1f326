import GridRoute.Proofs.Program.Printing
import GridRoute.Proofs.Remarks

/-!
The wording of a program. Whatever it is about, every text that a statement or the class around it is printed as is
one line, and none of the code looks like a comment.
-/

namespace GridRoute

open GridRoute.Source GridRoute.Program

theorem Offset.smooth_text (o : Offset) : Smooth o.text :=
  .append (.append (.append (.append (.literal (by decide)) (.toString_int o.x))
    (.literal (by decide))) (.toString_int o.y)) (.literal (by decide))

namespace Program

section Texts

theorem smooth_slot {array : String} (harray : Smooth array) (cell : Nat) : Smooth (slot array cell) :=
  ((harray.append (.literal (by decide))).append (.toString cell)).append (.literal (by decide))

theorem smooth_directionConstant (d : Direction) : Smooth (directionConstant d) := by
  cases d <;> exact .literal (by decide)

theorem Variable.smooth_text (v : Variable) : Smooth v.text := by
  cases v <;> exact .literal (by decide)

theorem Place.smooth_text (place : Place) : Smooth place.text := by
  induction place with
  | agent => exact .literal (by decide)
  | var v => exact v.smooth_text
  | cell index => exact smooth_slot (.literal (by decide)) index
  | step start d ih =>
    exact ((ih.append (.literal (by decide))).append (smooth_directionConstant d)).append
      (.literal (by decide))
  | stepTowards start goal hstart hgoal =>
    exact .append (.append (.append (.append (.append hstart (.literal (by decide))) hstart)
      (.literal (by decide))) hgoal) (.literal (by decide))

theorem Number.smooth_text (number : Number) : Smooth number.text := by
  induction number with
  | unreached | unsensedCost | stepCost => exact .literal (by decide)
  | length cell | cost cell => exact smooth_slot (.literal (by decide)) cell
  | rubble place =>
    exact (Smooth.append (.literal (by decide)) place.smooth_text).append (.literal (by decide))
  | sum left right hleft hright => exact (hleft.append (.literal (by decide))).append hright

theorem Heading.smooth_text (heading : Heading) : Smooth heading.text := by
  cases heading with
  | fixed d => exact smooth_directionConstant d
  | best cell => exact smooth_slot (.literal (by decide)) cell

theorem Condition.smooth_text (condition : Condition) : Smooth condition.text := by
  cases condition with
  | same left right =>
    exact .append (.append (.append left.smooth_text (.literal (by decide))) right.smooth_text)
      (.literal (by decide))
  | beyond left right radius | within left right radius =>
    exact .append (.append (.append (.append left.smooth_text (.literal (by decide)))
      right.smooth_text) (.literal (by decide))) (.toString radius)
  | enterable place =>
    exact .append (.append (.append (.append (.literal (by decide)) place.smooth_text)
      (.literal (by decide))) place.smooth_text) (.literal (by decide))
  | present cell => exact (smooth_slot (.literal (by decide)) cell).append (.literal (by decide))
  | less left right =>
    exact (left.smooth_text.append (.literal (by decide))).append right.smooth_text

theorem Axis.smooth_text (axis : Axis) : Smooth axis.text := by
  cases axis <;> exact .literal (by decide)

end Texts

theorem code_slot {array : String} (harray : Code array) (cell : Nat) : Code (slot array cell) :=
  ((harray.append (.literal (by decide))).append (.toString cell)).append (.literal (by decide))

theorem Variable.code_text (v : Variable) : Code v.text := by
  cases v <;> exact .literal (by decide)

theorem code_assignment {left right : String} (hleft : Code left) (hright : OneLine right) :
    Code (left ++ " = " ++ right ++ ";") :=
  ((hleft.append (.literal (by decide))).append hright).append (.literal (by decide))

theorem code_condition (condition : Condition) : Code ("if (" ++ condition.text ++ ")") :=
  (Code.append (.literal (by decide)) condition.smooth_text.oneLine).append (.literal (by decide))

theorem code_answer (heading : Heading) : Code ("return " ++ heading.text ++ ";") :=
  (Code.append (.literal (by decide)) heading.smooth_text.oneLine).append (.literal (by decide))

theorem code_label (value : Int) : Code ("case " ++ toString value ++ ":") :=
  (Code.append (.literal (by decide)) (.toString_int value)).append (.literal (by decide))

mutual

/-- What the statement says to the reader is one line each time. -/
def Statement.Noted : Statement → Prop
  | .note text => OneLine text
  | .when _ body | .repeatRounds body => NotedBody body
  | .choose _ yes no => NotedBody yes ∧ NotedBody no
  | .switch _ cases => NotedCases cases
  | .gap | .declare _ _ | .assign _ _ | .allocate | .setPlace _ _ | .clearPlace _ | .setLength _ _
  | .setCost _ _ | .setBest _ _ | .leave | .answer _ | .answerFromTable | .fail => True

def Case.Noted : Case → Prop
  | .block _ body => NotedBody body
  | .answer _ _ => True

def NotedBody : List Statement → Prop
  | [] => True
  | statement :: rest => statement.Noted ∧ NotedBody rest

def NotedCases : List Case → Prop
  | [] => True
  | first :: rest => first.Noted ∧ NotedCases rest

end

mutual

def Statement.notes : Statement → List String
  | .note text => [text]
  | .when _ body | .repeatRounds body => notesOfBody body
  | .choose _ yes no => notesOfBody yes ++ notesOfBody no
  | .switch _ cases => notesOfCases cases
  | .gap | .declare _ _ | .assign _ _ | .allocate | .setPlace _ _ | .clearPlace _ | .setLength _ _
  | .setCost _ _ | .setBest _ _ | .leave | .answer _ | .answerFromTable | .fail => []

def Case.notes : Case → List String
  | .block _ body => notesOfBody body
  | .answer _ _ => []

def notesOfBody : List Statement → List String
  | [] => []
  | statement :: rest => statement.notes ++ notesOfBody rest

def notesOfCases : List Case → List String
  | [] => []
  | first :: rest => first.notes ++ notesOfCases rest

end

mutual

theorem Statement.noted_iff : ∀ (statement : Statement),
    statement.Noted ↔ ∀ note ∈ statement.notes, OneLine note
  | .note _ => by rw [Statement.Noted, Statement.notes, List.forall_mem_singleton]
  | .when _ body | .repeatRounds body => notedBody_iff body
  | .choose _ yes no => by
    rw [Statement.Noted, Statement.notes, List.forall_mem_append, notedBody_iff yes, notedBody_iff no]
  | .switch _ cases => notedCases_iff cases
  | .gap | .declare _ _ | .assign _ _ | .allocate | .setPlace _ _ | .clearPlace _ | .setLength _ _
  | .setCost _ _ | .setBest _ _ | .leave | .answer _ | .answerFromTable | .fail => by
    simp [Statement.Noted, Statement.notes]

theorem Case.noted_iff : ∀ (first : Case), first.Noted ↔ ∀ note ∈ first.notes, OneLine note
  | .block _ body => notedBody_iff body
  | .answer _ _ => by simp [Case.Noted, Case.notes]

theorem notedBody_iff : ∀ (body : List Statement), NotedBody body ↔ ∀ note ∈ notesOfBody body, OneLine note
  | [] => by simp [NotedBody, notesOfBody]
  | statement :: rest => by
    rw [NotedBody, notesOfBody, List.forall_mem_append, statement.noted_iff, notedBody_iff rest]

theorem notedCases_iff : ∀ (cases : List Case), NotedCases cases ↔ ∀ note ∈ notesOfCases cases, OneLine note
  | [] => by simp [NotedCases, notesOfCases]
  | first :: rest => by
    rw [NotedCases, notesOfCases, List.forall_mem_append, first.noted_iff, notedCases_iff rest]

end

mutual

theorem Statement.tidy_steps : ∀ (statement : Statement), statement.Noted → TidyScript statement.steps
  | .note _, h => ⟨h, trivial⟩
  | .gap, _ => ⟨trivial, trivial⟩
  | .declare v place, _ =>
    ⟨code_assignment (.append (.literal (by decide)) v.code_text.oneLine) place.smooth_text.oneLine, trivial⟩
  | .assign v place, _ => ⟨code_assignment v.code_text place.smooth_text.oneLine, trivial⟩
  | .allocate, _ => by
    refine ⟨?_, trivial⟩
    simp only [Step.Tidy, List.forall_mem_cons, List.not_mem_nil, false_implies, implies_true, and_true]
    exact ⟨.literal (by decide), .literal (by decide), .literal (by decide), .literal (by decide)⟩
  | .setPlace cell place, _ =>
    ⟨code_assignment (code_slot (.literal (by decide)) cell) place.smooth_text.oneLine, trivial⟩
  | .clearPlace cell, _ =>
    ⟨(code_slot (.literal (by decide)) cell).append (.literal (by decide)), trivial⟩
  | .setLength cell number, _ | .setCost cell number, _ =>
    ⟨code_assignment (code_slot (.literal (by decide)) cell) number.smooth_text.oneLine, trivial⟩
  | .setBest cell heading, _ =>
    ⟨code_assignment (code_slot (.literal (by decide)) cell) heading.smooth_text.oneLine, trivial⟩
  | .when condition body, h => ⟨⟨code_condition condition, tidy_stepsOfBody body h⟩, trivial⟩
  | .choose condition yes no, h =>
    have hno : TidyScript (.reopenBlock "else" :: stepsOfBody no) :=
      ⟨.literal (by decide), tidy_stepsOfBody no h.2⟩
    ⟨⟨code_condition condition, tidyScript_append.mpr ⟨tidy_stepsOfBody yes h.1, hno⟩⟩, trivial⟩
  | .repeatRounds body, h =>
    ⟨⟨code_loopHeader (.literal (by decide)) (.literal (by decide)), tidy_stepsOfBody body h⟩, trivial⟩
  | .switch axis cases, h =>
    ⟨⟨(Code.append (.literal (by decide)) axis.smooth_text.oneLine).append (.literal (by decide)),
      tidy_stepsOfCases cases h⟩, trivial⟩
  | .answer heading, _ => ⟨code_answer heading, trivial⟩
  | .leave, _ | .answerFromTable, _ => ⟨.literal (by decide), trivial⟩
  | .fail, _ => ⟨.append (.literal (by decide)) (.literal (by decide)), trivial⟩

theorem Case.tidy_steps : ∀ (first : Case), first.Noted → TidyScript first.steps
  | .block value body, h => ⟨⟨code_label value, tidy_stepsOfBody body h⟩, trivial⟩
  | .answer value heading, _ =>
    ⟨.append (.append (.append (.append (.literal (by decide)) (.toString_int value))
      (.literal (by decide))) heading.smooth_text.oneLine) (.literal (by decide)), trivial⟩

theorem tidy_stepsOfBody : ∀ (body : List Statement), NotedBody body → TidyScript (stepsOfBody body)
  | [], _ => trivial
  | statement :: rest, h =>
    tidyScript_append.mpr ⟨statement.tidy_steps h.1, tidy_stepsOfBody rest h.2⟩

theorem tidy_stepsOfCases : ∀ (cases : List Case), NotedCases cases →
    TidyScript (stepsOfCases cases)
  | [], _ => trivial
  | first :: rest, h =>
    tidyScript_append.mpr ⟨first.tidy_steps h.1, tidy_stepsOfCases rest h.2⟩

end

theorem notesOfBody_eq_flatMap (body : List Statement) : notesOfBody body = body.flatMap Statement.notes := by
  induction body with
  | nil => rfl
  | cons statement body ih => rw [notesOfBody, ih, List.flatMap_cons]

theorem notesOfCases_eq_flatMap (cases : List Case) : notesOfCases cases = cases.flatMap Case.notes := by
  induction cases with
  | nil => rfl
  | cons first cases ih => rw [notesOfCases, ih, List.flatMap_cons]

def SmoothNotes (body : List Statement) : Prop := ∀ note ∈ notesOfBody body, Smooth note

namespace SmoothNotes

variable {body rest : List Statement}

theorem of_notes_eq_nil (h : notesOfBody body = []) : SmoothNotes body := by
  simp [SmoothNotes, h]

theorem append (h : SmoothNotes body) (hrest : SmoothNotes rest) : SmoothNotes (body ++ rest) := by
  rw [SmoothNotes, notesOfBody_eq_flatMap, List.flatMap_append, ← notesOfBody_eq_flatMap,
    ← notesOfBody_eq_flatMap]
  exact List.forall_mem_append.mpr ⟨h, hrest⟩

theorem note {text : String} (htext : Smooth text) (h : SmoothNotes rest) : SmoothNotes (.note text :: rest) :=
  List.forall_mem_cons.mpr ⟨htext, h⟩

theorem flatMap {α : Type} {xs : List α} {f : α → List Statement} (h : ∀ x, SmoothNotes (f x)) :
    SmoothNotes (xs.flatMap f) := by
  induction xs with
  | nil => exact .of_notes_eq_nil rfl
  | cons x xs ih =>
    rw [List.flatMap_cons]
    exact (h x).append ih

theorem map {α : Type} {xs : List α} {f : α → Statement} (h : ∀ x, (f x).notes = []) :
    SmoothNotes (xs.map f) := by
  refine .of_notes_eq_nil ?_
  rw [notesOfBody_eq_flatMap, List.flatMap_map, List.flatMap_eq_nil_iff]
  exact fun x _ => h x

theorem noteCell (w : Window) (cell : Nat) {remark : String} (h : Smooth remark) :
    SmoothNotes (noteCell w cell remark) := by
  unfold Program.noteCell
  split
  · exact .note (.append (Offset.smooth_text _) h) (.of_notes_eq_nil rfl)
  · exact .of_notes_eq_nil rfl

theorem clampBody (radius : Radius) (clampSteps : Nat) : SmoothNotes (clampBody radius clampSteps) := by
  refine .note (.literal (by decide)) (.of_notes_eq_nil ?_)
  simp [notesOfBody_eq_flatMap, Statement.notes]

theorem senseStatements (o : Offset) (cell : Nat) : SmoothNotes (senseStatements o cell) :=
  .note o.smooth_text (.of_notes_eq_nil rfl)

theorem relaxStatements (w : Window) (r : Relaxation) : SmoothNotes (relaxStatements w r) := by
  refine .append (.noteCell w r.cell (.literal (by decide))) (.of_notes_eq_nil ?_)
  simp [notesOfBody_eq_flatMap, Statement.notes, offerStatement]

theorem initialStatements (w : Window) (step : InitialStep) : SmoothNotes (initialStatements w step) := by
  cases step with
  | seed cell towardOrigin => exact .append (.noteCell w cell (.literal (by decide))) (.of_notes_eq_nil rfl)
  | relax r => exact .relaxStatements w r

theorem repeatRounds (h : SmoothNotes body) (hrest : SmoothNotes rest) : SmoothNotes (.repeatRounds body :: rest) :=
  List.forall_mem_append.mpr ⟨h, hrest⟩

end SmoothNotes

end Program

namespace ClassName

theorem isPart_of_isIdentifierText {cs : List Char} (h : isIdentifierText cs) : ∀ c ∈ cs, isPart c := by
  cases cs with
  | nil => simp
  | cons first rest =>
    simp only [isIdentifierText, Bool.and_eq_true, List.all_eq_true] at h
    refine List.forall_mem_cons.mpr ⟨?_, h.1.2⟩
    have hstart := h.1.1
    simp only [isStart, isPart, Char.isAlphanum, Bool.or_eq_true] at hstart ⊢
    tauto

theorem exists_mem_segments {c : Char} (hc : c ≠ '.') {cs : List Char} (h : c ∈ cs) :
    ∃ segment ∈ segments cs, c ∈ segment := by
  induction cs with
  | nil => cases h
  | cons first rest ih =>
    rw [segments]
    split
    · rename_i hdot
      obtain ⟨segment, hsegment, hmem⟩ := ih ((List.mem_cons.mp h).resolve_left (hdot ▸ hc))
      exact ⟨segment, List.mem_cons_of_mem _ hsegment, hmem⟩
    · split
      · rename_i hnil
        exact absurd hnil (segments_ne_nil rest)
      · rename_i segment more hsegments
        rcases List.mem_cons.mp h with rfl | hrest
        · exact ⟨c :: segment, by simp, by simp⟩
        · obtain ⟨found, hfound, hmem⟩ := ih hrest
          rcases List.mem_cons.mp (hsegments ▸ hfound) with rfl | hmore
          · exact ⟨first :: found, by simp, List.mem_cons_of_mem first hmem⟩
          · exact ⟨found, List.mem_cons_of_mem _ hmore, hmem⟩

theorem isPart_of_isPackage {name : String} (h : isPackage name) {c : Char} (hc : c ≠ '.') (hmem : c ∈ name.toList) :
    isPart c := by
  obtain ⟨segment, hsegment, hin⟩ := exists_mem_segments hc hmem
  exact isPart_of_isIdentifierText (List.all_eq_true.mp h segment hsegment) c hin

theorem smooth_of_isIdentifier {name : String} (h : isIdentifier name) : Smooth name := by
  have hparts := isPart_of_isIdentifierText h
  exact ⟨fun hmem => absurd (hparts _ hmem) (by decide), fun hmem => absurd (hparts _ hmem) (by decide),
    fun hmem => absurd (hparts _ hmem) (by decide)⟩

theorem smooth_of_isPackage {name : String} (h : isPackage name) : Smooth name :=
  ⟨fun hmem => absurd (isPart_of_isPackage h (by decide) hmem) (by decide),
    fun hmem => absurd (isPart_of_isPackage h (by decide) hmem) (by decide),
    fun hmem => absurd (isPart_of_isPackage h (by decide) hmem) (by decide)⟩

end ClassName

namespace Pathfinder

variable (p : Pathfinder)

theorem smoothNotes_searchBody : SmoothNotes p.searchBody := by
  have hplaced : SmoothNotes (p.schedule.placements.map placementStatement) := .map fun _ => rfl
  have hsensed : SmoothNotes (p.window.cells.flatMap fun entry => senseStatements entry.1 entry.2) :=
    .flatMap fun entry => .senseStatements entry.1 entry.2
  have hstarted : SmoothNotes (p.schedule.initialSteps.flatMap (initialStatements p.window)) :=
    .flatMap (.initialStatements p.window)
  have hround : SmoothNotes (p.schedule.extraRound.flatMap (relaxStatements p.window)) :=
    .flatMap (.relaxStatements p.window)
  refine .append (.append (.append (.append (.append (.append (.append (.append ?_
    (.clampBody p.radius p.clampSteps)) ?_) hplaced) ?_) hsensed) ?_) hstarted) ?_
  · exact .of_notes_eq_nil rfl
  · exact List.forall_mem_singleton.mpr (.literal (by decide))
  · exact List.forall_mem_singleton.mpr (.literal (by decide))
  · exact List.forall_mem_singleton.mpr (.literal (by decide))
  · exact .note (.literal (by decide)) (.repeatRounds hround (.note (.literal (by decide)) (.of_notes_eq_nil rfl)))

theorem smoothNotes_tableBody : SmoothNotes p.tableBody := by
  have hcolumns : notesOfCases (p.table.columns.map columnCase) = [] := by
    rw [notesOfCases_eq_flatMap, List.flatMap_map, List.flatMap_eq_nil_iff]
    intro column _
    simp [columnCase, Case.notes, notesOfBody, Statement.notes, notesOfCases_eq_flatMap, List.flatMap_map]
  refine .of_notes_eq_nil ?_
  simp [tableBody, notesOfBody, Statement.notes, hcolumns]

theorem noted_searchBody : NotedBody p.searchBody :=
  (notedBody_iff _).mpr fun note hnote => (p.smoothNotes_searchBody note hnote).oneLine

theorem noted_tableBody : NotedBody p.tableBody :=
  (notedBody_iff _).mpr fun note hnote => (p.smoothNotes_tableBody note hnote).oneLine

theorem tidy_packageSteps {package : Option String} (h : ∀ name ∈ package, OneLine name) :
    TidyScript (packageSteps package) := by
  cases package with
  | none => trivial
  | some name =>
    exact ⟨.append (.append (.literal (by decide)) (h name rfl)) (.literal (by decide)), trivial, trivial⟩

theorem tidy_importSteps : TidyScript importSteps := by
  refine ⟨?_, trivial⟩
  simp only [Step.Tidy, List.forall_mem_cons, List.not_mem_nil, false_implies, implies_true, and_true]
  exact ⟨.literal (by decide), .literal (by decide), .literal (by decide), .literal (by decide)⟩

theorem tidy_constantSteps : TidyScript p.constantSteps := by
  have hconstant {declaration number : String} (h : Code declaration) (hnumber : OneLine number) :
      Code (declaration ++ number ++ ";") :=
    (h.append hnumber).append (.literal (by decide))
  exact ⟨.literal (by decide), hconstant (.literal (by decide)) (.toString p.window.size),
    .literal (by decide), hconstant (.literal (by decide)) (.toString_int _),
    .literal (by decide), hconstant (.literal (by decide)) (.toString_int _),
    .literal (by decide), hconstant (.literal (by decide)) (.toString_int _), trivial⟩

theorem tidy_searchSteps : TidyScript p.searchSteps := by
  refine ⟨?_, ⟨?_, tidy_stepsOfBody p.searchBody p.noted_searchBody⟩, trivial⟩
  · simp only [Step.Tidy, List.forall_mem_cons, List.not_mem_nil, false_implies, implies_true, and_true]
    exact ⟨.literal (by decide), .literal (by decide), .literal (by decide), .literal (by decide),
      .literal (by decide), .literal (by decide), .literal (by decide)⟩
  · exact .append (.literal (by decide)) (.literal (by decide))

theorem tidy_tableSteps : TidyScript p.tableSteps := by
  refine ⟨?_, ⟨.literal (by decide), tidy_stepsOfBody p.tableBody p.noted_tableBody⟩, trivial⟩
  simp only [Step.Tidy, List.forall_mem_cons, List.not_mem_nil, false_implies, implies_true, and_true]
  exact ⟨.literal (by decide), .literal (by decide), .literal (by decide)⟩

theorem tidy_nestedMembers {className : String} (h : OneLine className) :
    TidyScript (p.nestedMembers className) := by
  have hgap : TidyScript [.blank] := ⟨trivial, trivial⟩
  have hconstructor : TidyScript [.block ("private " ++ className ++ "()") []] :=
    ⟨⟨.append (.append (.literal (by decide)) h) (.literal (by decide)), trivial⟩, trivial⟩
  simp only [nestedMembers, tidyScript_append]
  exact ⟨⟨⟨⟨⟨⟨p.tidy_constantSteps, hgap⟩, hconstructor⟩, hgap⟩, p.tidy_searchSteps⟩, hgap⟩,
    p.tidy_tableSteps⟩

theorem tidy_classRemark : (Step.blockComment p.classRemark).Tidy := by
  simp only [classRemark, Step.Tidy, List.forall_mem_cons, List.not_mem_nil, false_implies, implies_true,
    and_true]
  refine ⟨.append (.append (.literal (by decide)) ?_) (.literal (by decide)), .literal (by decide),
    .literal (by decide)⟩
  exact .append (.toString p.radius.value) (.literal (by decide))

theorem tidy_nestedScript {target : ClassTarget} (valid : target.Valid) :
    TidyScript (p.nestedScript target.package (target.classNameFor p.radius)) := by
  have hname := (ClassName.smooth_of_isIdentifier (valid.isIdentifier p.radius)).oneLine
  have hpackage := tidy_packageSteps fun name hmem =>
    (ClassName.smooth_of_isPackage (valid.package name hmem)).oneLine
  simp only [nestedScript, tidyScript_append]
  exact ⟨⟨⟨hpackage, tidy_importSteps⟩, trivial, p.tidy_classRemark, trivial⟩,
    ⟨.append (.literal (by decide)) hname, p.tidy_nestedMembers hname⟩, trivial⟩

/-- The code of the class can be read off its text, with comments or without. -/
theorem codeOf_classText {target : ClassTarget} (valid : target.Valid) :
    codeOf (p.classText target).toList =
      (contents (p.nestedScript target.package (target.classNameFor p.radius))).map String.toList :=
  codeOf_printed_layoutScript indents_blanks target.comments (p.tidy_nestedScript valid)

end Pathfinder

end GridRoute
