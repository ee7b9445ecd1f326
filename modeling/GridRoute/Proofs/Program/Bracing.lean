import GridRoute.Proofs.Balance
import GridRoute.Proofs.Program.Wording

/-!
The braces of a printed class. No text that a program is printed from opens a brace without closing it, so the braces
of the class are balanced, those in its comments included.
-/

namespace GridRoute

open GridRoute.Source GridRoute.Program

namespace Source

theorem scriptTexts_append (script rest : Script) :
    scriptTexts (script ++ rest) = scriptTexts script ++ scriptTexts rest := by
  induction script with
  | nil => rfl
  | cons step script ih => rw [List.cons_append, scriptTexts, ih, scriptTexts, List.append_assoc]

def EvenScript (script : Script) : Prop := ∀ text ∈ scriptTexts script, Even text

namespace EvenScript

variable {script rest : Script} {header text : String} {texts : List String}

theorem nil : EvenScript [] := by
  simp [EvenScript, scriptTexts]

theorem append (h : EvenScript script) (hrest : EvenScript rest) : EvenScript (script ++ rest) := by
  rw [EvenScript, scriptTexts_append]
  exact List.forall_mem_append.mpr ⟨h, hrest⟩

theorem line (h : Even text) : EvenScript [.line text] := by
  simpa [EvenScript, scriptTexts, Step.texts] using h

theorem lines (h : ∀ text ∈ texts, Even text) : EvenScript [.lines texts] := by
  simpa [EvenScript, scriptTexts, Step.texts] using h

theorem blank : EvenScript [.blank] := by
  simp [EvenScript, scriptTexts, Step.texts]

theorem comment (h : Even text) : EvenScript [.comment text] := by
  simpa [EvenScript, scriptTexts, Step.texts] using h

theorem blockComment (h : ∀ text ∈ texts, Even text) : EvenScript [.blockComment texts] := by
  simpa [EvenScript, scriptTexts, Step.texts] using h

theorem reopenBlock (h : Even header) : EvenScript [.reopenBlock header] := by
  simpa [EvenScript, scriptTexts, Step.texts] using h

theorem block (hheader : Even header) (h : EvenScript script) : EvenScript [.block header script] := by
  rw [EvenScript, scriptTexts, Step.texts, scriptTexts, List.append_nil]
  exact List.forall_mem_cons.mpr ⟨hheader, h⟩

theorem loop {counter bound : String} (hcounter : Even counter) (hbound : Even bound) (h : EvenScript script) :
    EvenScript [.loop counter bound script] := by
  rw [EvenScript, scriptTexts, Step.texts, scriptTexts, List.append_nil]
  exact List.forall_mem_cons.mpr ⟨hcounter, List.forall_mem_cons.mpr ⟨hbound, h⟩⟩

end EvenScript

end Source

namespace Program

theorem smooth_assignment {left right : String} (hleft : Smooth left) (hright : Smooth right) :
    Smooth (left ++ " = " ++ right ++ ";") :=
  ((hleft.append (.literal (by decide))).append hright).append (.literal (by decide))

theorem smooth_entry {array text : String} (harray : Smooth array) (cell : Nat) (h : Smooth text) :
    Smooth (slot array cell ++ " = " ++ text ++ ";") :=
  smooth_assignment (smooth_slot harray cell) h

theorem smooth_condition (condition : Condition) : Smooth ("if (" ++ condition.text ++ ")") :=
  (Smooth.append (.literal (by decide)) condition.smooth_text).append (.literal (by decide))

theorem smooth_answer (heading : Heading) : Smooth ("return " ++ heading.text ++ ";") :=
  (Smooth.append (.literal (by decide)) heading.smooth_text).append (.literal (by decide))

theorem smooth_label (value : Int) : Smooth ("case " ++ toString value ++ ":") :=
  (Smooth.append (.literal (by decide)) (.toString_int value)).append (.literal (by decide))

theorem SmoothNotes.even {body : List Statement} (h : SmoothNotes body) : ∀ note ∈ notesOfBody body, Even note :=
  fun note hnote => (h note hnote).even

mutual

/-- Only what it says to the reader could bring a brace into a statement. -/
theorem Statement.even_steps : ∀ (statement : Statement), (∀ note ∈ statement.notes, Even note) →
    EvenScript statement.steps
  | .note text, h => .comment (h text (List.mem_singleton_self text))
  | .gap, _ => .blank
  | .declare v place, _ =>
    .line (smooth_assignment (.append (.literal (by decide)) v.smooth_text) place.smooth_text).even
  | .assign v place, _ => .line (smooth_assignment v.smooth_text place.smooth_text).even
  | .allocate, _ => by
    refine .lines ?_
    simp only [List.forall_mem_cons, List.not_mem_nil, false_implies, implies_true, and_true]
    exact ⟨.literal rfl, .literal rfl, .literal rfl, .literal rfl⟩
  | .setPlace cell place, _ => .line (smooth_entry (.literal (by decide)) cell place.smooth_text).even
  | .clearPlace cell, _ =>
    .line ((smooth_slot (.literal (by decide)) cell).append (.literal (by decide))).even
  | .setLength cell number, _ | .setCost cell number, _ =>
    .line (smooth_entry (.literal (by decide)) cell number.smooth_text).even
  | .setBest cell heading, _ => .line (smooth_entry (.literal (by decide)) cell heading.smooth_text).even
  | .when condition body, h => .block (smooth_condition condition).even (even_stepsOfBody body h)
  | .choose condition yes no, h =>
    have hnotes := List.forall_mem_append.mp h
    have hno := EvenScript.append (.reopenBlock (.literal rfl)) (even_stepsOfBody no hnotes.2)
    .block (smooth_condition condition).even ((even_stepsOfBody yes hnotes.1).append hno)
  | .repeatRounds body, h => .loop (.literal rfl) (.literal rfl) (even_stepsOfBody body h)
  | .switch axis cases, h =>
    .block ((Even.append (.literal rfl) axis.smooth_text.even).append (.literal rfl)) (even_stepsOfCases cases h)
  | .answer heading, _ => .line (smooth_answer heading).even
  | .leave, _ | .answerFromTable, _ => .line (.literal rfl)
  | .fail, _ => .line (.append (.literal rfl) (.literal rfl))

theorem Case.even_steps : ∀ (first : Case), (∀ note ∈ first.notes, Even note) → EvenScript first.steps
  | .block value body, h => .block (smooth_label value).even (even_stepsOfBody body h)
  | .answer value heading, _ =>
    have hlabel : Smooth ("case " ++ toString value) := .append (.literal (by decide)) (.toString_int value)
    .line (((hlabel.append (.literal (by decide))).append heading.smooth_text).append (.literal (by decide))).even

theorem even_stepsOfBody : ∀ (body : List Statement), (∀ note ∈ notesOfBody body, Even note) →
    EvenScript (stepsOfBody body)
  | [], _ => .nil
  | statement :: rest, h =>
    have hnotes := List.forall_mem_append.mp h
    (statement.even_steps hnotes.1).append (even_stepsOfBody rest hnotes.2)

theorem even_stepsOfCases : ∀ (cases : List Case), (∀ note ∈ notesOfCases cases, Even note) →
    EvenScript (stepsOfCases cases)
  | [], _ => .nil
  | first :: rest, h =>
    have hnotes := List.forall_mem_append.mp h
    (first.even_steps hnotes.1).append (even_stepsOfCases rest hnotes.2)

end

end Program

namespace Pathfinder

variable (p : Pathfinder)

theorem even_packageSteps {package : Option String} (h : ∀ name ∈ package, Even name) :
    EvenScript (packageSteps package) := by
  cases package with
  | none => exact .nil
  | some name =>
    have hline : EvenScript [.line ("package " ++ name ++ ";")] :=
      .line (.append (.append (.literal rfl) (h name rfl)) (.literal rfl))
    exact hline.append .blank

theorem even_importSteps : EvenScript importSteps := by
  refine .lines ?_
  simp only [List.forall_mem_cons, List.not_mem_nil, false_implies, implies_true, and_true]
  exact ⟨.literal rfl, .literal rfl, .literal rfl, .literal rfl⟩

theorem even_constantSteps : EvenScript p.constantSteps := by
  have hconstant {remark declaration number : String} (hremark : Even remark) (h : Even declaration)
      (hnumber : Smooth number) : EvenScript [.comment remark, .line (declaration ++ number ++ ";")] :=
    .append (.comment hremark) (.line ((h.append hnumber.even).append (.literal rfl)))
  change EvenScript ([_, _] ++ ([_, _] ++ ([_, _] ++ [_, _])))
  exact .append (hconstant (.literal rfl) (.literal rfl) (.toString p.window.size))
    (.append (hconstant (.literal rfl) (.literal rfl) (.toString_int Cost.unreached))
      (.append (hconstant (.literal rfl) (.literal rfl) (.toString_int Cost.unsensed))
        (hconstant (.literal rfl) (.literal rfl) (.toString_int Cost.step))))

theorem even_searchSteps : EvenScript p.searchSteps := by
  refine .append (.blockComment ?_) (.block ?_ (even_stepsOfBody _ p.smoothNotes_searchBody.even))
  · simp only [List.forall_mem_cons, List.not_mem_nil, false_implies, implies_true, and_true]
    exact ⟨.literal rfl, .literal rfl, .literal rfl, .literal rfl, .literal rfl, .literal rfl, .literal rfl⟩
  · exact .append (.literal rfl) (.literal rfl)

theorem even_tableSteps : EvenScript p.tableSteps := by
  refine .append (.blockComment ?_) (.block (.literal rfl) (even_stepsOfBody _ p.smoothNotes_tableBody.even))
  simp only [List.forall_mem_cons, List.not_mem_nil, false_implies, implies_true, and_true]
  exact ⟨.literal rfl, .literal rfl, .literal rfl⟩

theorem even_nestedMembers {className : String} (h : Even className) :
    EvenScript (p.nestedMembers className) := by
  have hconstructor : EvenScript [.block ("private " ++ className ++ "()") []] :=
    .block (.append (.append (.literal rfl) h) (.literal rfl)) .nil
  exact .append (.append (.append (.append (.append (.append p.even_constantSteps .blank) hconstructor) .blank)
    p.even_searchSteps) .blank) p.even_tableSteps

theorem even_nestedScript {target : ClassTarget} (valid : target.Valid) :
    EvenScript (p.nestedScript target.package (target.classNameFor p.radius)) := by
  have hname := (ClassName.smooth_of_isIdentifier (valid.isIdentifier p.radius)).even
  have hpackage := even_packageSteps fun name hmem => (ClassName.smooth_of_isPackage (valid.package name hmem)).even
  have hremark : EvenScript [.blockComment p.classRemark] := by
    refine .blockComment ?_
    simp only [classRemark, List.forall_mem_cons, List.not_mem_nil, false_implies, implies_true, and_true]
    have hradius : Even p.radius.text := (Smooth.toString p.radius.value).even.append (.literal rfl)
    exact ⟨.append (.append (.literal rfl) hradius) (.literal rfl), .literal rfl, .literal rfl⟩
  have hclass : EvenScript [.block ("public final class " ++ target.classNameFor p.radius)
      (p.nestedMembers (target.classNameFor p.radius))] :=
    .block (.append (.literal rfl) hname) (p.even_nestedMembers hname)
  exact .append (.append (hpackage.append even_importSteps) (.append .blank hremark)) hclass

theorem nests_nestedScript (package : Option String) (className : String) :
    NestsScript 0 (p.nestedScript package className) := by
  have hpackage : NestsScript 0 (packageSteps package) := by
    cases package <;> simp [packageSteps, NestsScript, Step.Nests]
  have hmembers : NestsScript 1 (p.nestedMembers className) := by
    simp only [nestedMembers, nestsScript_append]
    exact ⟨⟨⟨⟨⟨⟨p.nests_constantSteps, trivial, trivial⟩, trivial, trivial⟩, trivial, trivial⟩,
      p.nests_searchSteps⟩, trivial, trivial⟩, p.nests_tableSteps⟩
  simp only [nestedScript, nestsScript_append]
  exact ⟨⟨⟨hpackage, trivial, trivial⟩, trivial, trivial, trivial⟩, hmembers, trivial⟩

theorem balanced_classText {target : ClassTarget} (valid : target.Valid) : Balanced (p.classText target) :=
  (leads_layoutScript (.literal rfl) target.comments _ 0 (p.nests_nestedScript _ _)
    (p.even_nestedScript valid)).balanced

end Pathfinder

end GridRoute
