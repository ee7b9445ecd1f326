import GridRoute.Proofs.Landmarks
import GridRoute.Proofs.Program.Bracing
import GridRoute.Proofs.Program.Recovery

/-!
The census of a printed class. The lines that compare routes, name cases, leave a switch, take over a place or begin
the loop are counted phase by phase, and their numbers are those that the program knows of itself.
-/

namespace GridRoute

open GridRoute.Source GridRoute.Program

namespace Source

def landmarks (texts : List String) : List Landmark := texts.filterMap fun text => Landmark.of? text.toList

section Landmarks

variable {text : String} {landmark : Landmark}

@[simp] theorem landmarks_nil : landmarks [] = [] := rfl

@[simp] theorem landmarks_append (front rest : List String) :
    landmarks (front ++ rest) = landmarks front ++ landmarks rest :=
  List.filterMap_append

theorem landmarks_flatMap {α : Type} (xs : List α) (f : α → List String) :
    landmarks (xs.flatMap f) = xs.flatMap fun x => landmarks (f x) := by
  induction xs with
  | nil => rfl
  | cons x xs ih => rw [List.flatMap_cons, landmarks_append, ih, List.flatMap_cons]

@[simp] theorem landmarks_blank_cons (rest : List String) : landmarks ("" :: rest) = landmarks rest :=
  List.filterMap_cons_none (by decide)

theorem Plain.landmarks_cons (h : Plain text) (rest : List String) :
    landmarks (text :: rest) = landmarks rest :=
  List.filterMap_cons_none h.of?_eq_none

theorem Landmark.Marks.landmarks_cons (h : landmark.Marks text.toList) (rest : List String) :
    landmarks (text :: rest) = landmark :: landmarks rest :=
  List.filterMap_cons_some (Landmark.of?_eq_some_iff.mpr h)

theorem landmarks_eq_nil {texts : List String} (h : ∀ text ∈ texts, Plain text) : landmarks texts = [] :=
  List.filterMap_eq_nil_iff.mpr fun text hmem => (h text hmem).of?_eq_none

theorem Landmark.exists_head_words (landmark : Landmark) :
    ∃ c ∈ landmark.words.toList.head?, ¬ isSpace c := by
  cases landmark <;> exact ⟨_, rfl, by decide⟩

theorem Landmark.marks_of_prefix (hopen : landmark.isWhole = false)
    (hwords : landmark.words.toList <+: text.toList) (hlast : ∃ c ∈ text.toList.getLast?, ¬ isSpace c) :
    landmark.Marks text.toList := by
  obtain ⟨rest, hrest⟩ := hwords
  obtain ⟨c, hhead, hblank⟩ := landmark.exists_head_words
  have hsolid : Solid text := by
    refine ⟨⟨c, ?_, hblank⟩, hlast⟩
    rw [← hrest, List.head?_append, Option.mem_def.mp hhead]
    rfl
  rw [Marks, hopen, if_neg Bool.false_ne_true, Begins, hsolid.stripped_eq]
  exact ⟨rest, hrest⟩

theorem prefix_content_opening {cs : List Char} {header : String} (hcs : cs ≠ [])
    (h : cs <+: header.toList) (level : Nat) : cs <+: (Line.opening level header).content.toList := by
  rw [Line.content]
  split
  · rename_i hempty
    rw [String.isEmpty_iff.mp hempty] at h
    exact absurd (List.prefix_nil.mp h) hcs
  · rw [String.toList_append]
    exact h.trans (List.prefix_append _ _)

theorem Landmark.marks_opening {header : String} (hopen : landmark.isWhole = false)
    (h : landmark.words.toList <+: header.toList) (level : Nat) :
    landmark.Marks (Line.opening level header).content.toList := by
  have hwords : landmark.words.toList ≠ [] := by
    obtain ⟨c, hhead, -⟩ := landmark.exists_head_words
    intro hnil
    simp [hnil] at hhead
  exact marks_of_prefix hopen (prefix_content_opening hwords h level)
    ⟨'\x7b', getLast?_content_opening level header, by decide⟩

theorem Plain.opening {header : String} (h : Plain header) (level : Nat) :
    Plain (Line.opening level header).content := by
  obtain ⟨front, rest, hapart, heq⟩ := h
  have hfront : front ≠ [] := by
    rintro rfl
    obtain ⟨c, hhead, -⟩ := hapart.1
    simp at hhead
  obtain ⟨behind, hbehind⟩ := prefix_content_opening hfront ⟨rest, heq.symm⟩ level
  exact ⟨front, behind, hapart, hbehind.symm⟩

end Landmarks

end Source

namespace Program

theorem prefix_append_text {cs : List Char} {text : String} (h : cs <+: text.toList) (more : String) :
    cs <+: (text ++ more).toList := by
  rw [String.toList_append]
  exact h.trans (List.prefix_append _ _)

theorem prefix_append_self (text more : String) : text.toList <+: (text ++ more).toList :=
  prefix_append_text List.prefix_rfl more

theorem prefix_slot (array : String) (cell : Nat) : array.toList ++ ['['] <+: (slot array cell).toList := by
  have hbracket : array.toList ++ ['['] <+: (array ++ "[").toList := by
    simp
  exact prefix_append_text (prefix_append_text hbracket _) _

theorem prefix_guard {condition : Condition} {cs : List Char} (h : cs <+: condition.text.toList) :
    "if (".toList ++ cs <+: ("if (" ++ condition.text ++ ")").toList := by
  refine prefix_append_text ?_ ")"
  rw [String.toList_append]
  exact (List.prefix_append_right_inj _).mpr h

theorem plain_guardLine {condition : Condition} {cs : List Char} (hcs : Apart ("if (".toList ++ cs))
    (h : cs <+: condition.text.toList) : Plain (guardLine condition) := by
  obtain ⟨rest, hrest⟩ := prefix_guard h
  exact Plain.opening ⟨_, rest, hcs, hrest.symm⟩ 0

theorem plain_present (cell : Nat) : Plain (guardLine (.present cell)) :=
  plain_guardLine (by decide) (prefix_append_text (prefix_slot "loc" cell) " != null")

theorem plain_closing : Plain "\x7d" := .literal (by decide)

theorem marks_offer (cell source : Nat) :
    Landmark.offer.Marks (guardLine (.less (.sum (.length source) (.cost cell)) (.length cell))).toList := by
  have hwords : Landmark.offer.words.toList = "if (".toList ++ ("pathLength".toList ++ ['[']) := by
    decide
  have hsum : "pathLength".toList ++ ['['] <+: (Number.sum (.length source) (.cost cell)).text.toList :=
    prefix_append_text (prefix_append_text (prefix_slot "pathLength" source) " + ") (Number.cost cell).text
  have hless := prefix_append_text (prefix_append_text hsum " < ") (Number.length cell).text
  refine Landmark.marks_opening rfl ?_ 0
  rw [hwords]
  exact prefix_guard hless

theorem plain_slot {array : String} (h : Plain array) (cell : Nat) : Plain (slot array cell) :=
  ((h.append _).append _).append _

theorem plain_entry {array : String} (h : Plain array) (cell : Nat) (behind : String) :
    Plain (slot array cell ++ " = " ++ behind ++ ";") :=
  (((plain_slot h cell).append _).append _).append _

theorem landmarks_code_cons {statement : Statement} {text : String} (hsteps : statement.steps = [.line text])
    (h : Plain text) (rest : List Statement) : landmarks (code (statement :: rest)) = landmarks (code rest) := by
  rw [code_cons, hsteps, contents_line, List.singleton_append, h.landmarks_cons]

@[simp] theorem landmarks_gap (rest : List Statement) : landmarks (code (.gap :: rest)) = landmarks (code rest) := by
  rw [code_cons, Statement.steps, contents_blank, List.singleton_append, landmarks_blank_cons]

theorem landmarks_when {condition : Condition} (h : Plain (guardLine condition)) (body : List Statement) :
    landmarks (code [.when condition body]) = landmarks (code body) := by
  rw [code_when, List.cons_append, h.landmarks_cons, landmarks_append, plain_closing.landmarks_cons, landmarks_nil,
    List.append_nil]

theorem landmarks_setRoute (cell : Nat) (number : Number) (heading : Heading) :
    landmarks (code [.setLength cell number, .setBest cell heading]) = [] := by
  rw [landmarks_code_cons rfl (plain_entry (.literal (by decide)) cell number.text),
    landmarks_code_cons rfl (plain_entry (.literal (by decide)) cell heading.text)]
  rfl

theorem landmarks_offerCode (cell source : Nat) : landmarks (offerCode cell source) = [.offer] := by
  rw [offerCode, offerStatement, code_when, List.cons_append, (marks_offer cell source).landmarks_cons,
    landmarks_append, landmarks_setRoute, List.nil_append, plain_closing.landmarks_cons, landmarks_nil]

theorem landmarks_relaxCode (r : Relaxation) :
    landmarks (relaxCode r) = List.replicate r.sources.length .offer := by
  have hoffers : landmarks (r.sources.flatMap (offerCode r.cell)) = List.replicate r.sources.length .offer := by
    rw [landmarks_flatMap]
    simp only [landmarks_offerCode, List.map_const', ← List.map_eq_flatMap]
  rw [relaxCode, List.cons_append, (plain_present r.cell).landmarks_cons, landmarks_append, hoffers,
    plain_closing.landmarks_cons, landmarks_nil, List.append_nil]

theorem landmarks_startCode (step : InitialStep) :
    landmarks (startCode step) = List.replicate step.sources.length .offer := by
  cases step with
  | seed cell d =>
    rw [startCode, List.cons_append, (plain_present cell).landmarks_cons, landmarks_append, seedCode,
      landmarks_setRoute, List.nil_append, plain_closing.landmarks_cons, landmarks_nil]
    rfl
  | relax r => exact landmarks_relaxCode r

theorem flatMap_replicate_offer {α β : Type} (xs : List α) (sources : α → List β) :
    (xs.flatMap fun x => List.replicate (sources x).length Landmark.offer) =
      List.replicate (xs.flatMap sources).length .offer := by
  induction xs with
  | nil => rfl
  | cons x xs ih => rw [List.flatMap_cons, ih, List.flatMap_cons, List.length_append, List.replicate_add]

theorem code_choose (condition : Condition) (yes no : List Statement) :
    code [.choose condition yes no] =
      guardLine condition :: (code yes ++ "\x7d else \x7b" :: (code no ++ ["\x7d"])) := by
  have helse : contents (.reopenBlock "else" :: stepsOfBody no) = "\x7d else \x7b" :: code no := by
    rw [contents_cons]
    rfl
  rw [code_cons, code_nil, List.append_nil, Statement.steps, contents_block, contents_append, helse]
  simp only [code, guardLine, List.append_assoc, List.cons_append]

theorem landmarks_senseCode (cell : Nat) : landmarks (senseCode cell) = [] := by
  have hcost (number : Number) : Plain (slot "cost" cell ++ " = " ++ number.text ++ ";") :=
    plain_entry (.literal (by decide)) cell number.text
  have hplace : Plain (slot "loc" cell ++ " = null;") := (plain_slot (.literal (by decide)) cell).append _
  have henterable : Plain (guardLine (.enterable (.cell cell))) :=
    plain_guardLine (by decide) (prefix_append_text (prefix_append_text (prefix_append_text
      (prefix_append_self "rc.onTheMap(" _) _) _) _)
  have helse : Plain "\x7d else \x7b" := .literal (by decide)
  have hyes : landmarks (code [.setCost cell (.sum (.rubble (.cell cell)) .stepCost)]) = [] :=
    landmarks_code_cons rfl (hcost _) []
  have hno : landmarks (code [.setCost cell .unsensedCost, .clearPlace cell]) = [] := by
    rw [landmarks_code_cons rfl (hcost _), landmarks_code_cons rfl hplace]
    rfl
  have hcode : senseCode cell = code [.setLength cell .unreached, .setBest cell (.fixed .center)] ++
      (code [.choose (.enterable (.cell cell)) [.setCost cell (.sum (.rubble (.cell cell)) .stepCost)]
        [.setCost cell .unsensedCost, .clearPlace cell]] ++ code [.gap]) := by
    rw [← code_append, ← code_append]
    rfl
  rw [hcode, landmarks_append, landmarks_setRoute, landmarks_append, code_choose, henterable.landmarks_cons,
    landmarks_append, hyes, helse.landmarks_cons, landmarks_append, hno, plain_closing.landmarks_cons]
  rfl

theorem landmarks_pullCode (radius : Nat) : landmarks (pullCode radius) = [.pull] := by
  have hguard : Plain (guardLine (.within (.var .origin) (.var .next) radius)) :=
    plain_guardLine (by decide) (prefix_append_text (prefix_append_text (prefix_append_text
      (prefix_append_self "origin" _) _) _) _)
  have hpull : Landmark.pull.Marks "safe = next;".toList := by
    decide
  have hnext : Plain ("next" ++ " = " ++ (Place.stepTowards (.var .next) (.var .target)).text ++ ";") :=
    .append (.append (.append (.literal (by decide)) _) _) _
  have hcode : code [.assign .safe (.var .next), .assign .next (.stepTowards (.var .next) (.var .target))] =
      "safe = next;" :: code [.assign .next (.stepTowards (.var .next) (.var .target))] := rfl
  rw [pullCode, landmarks_when hguard, hcode, hpull.landmarks_cons, landmarks_code_cons rfl hnext]
  rfl

def columnLandmarks (rows : Nat) : List Landmark := .label :: (List.replicate rows Landmark.label ++ [Landmark.leave])

def tableLandmarks (columns : List (Int × List (Int × Nat))) : List Landmark :=
  columns.flatMap fun column => columnLandmarks column.2.length

theorem landmarks_columnCode (column : Int × List (Int × Nat)) :
    landmarks (columnCode column) = columnLandmarks column.2.length := by
  have hlabel : Landmark.label.Marks (Line.opening 0 ("case " ++ toString column.1 ++ ":")).content.toList := by
    have hwords : Landmark.label.words.toList <+: ("case " ++ toString column.1 ++ ":").toList :=
      prefix_append_text (prefix_append_self "case " _) _
    exact Landmark.marks_opening rfl hwords 0
  have hrow (row : Int × Nat) : Landmark.label.Marks (rowText row).toList := by
    have hwords : Landmark.label.words.toList <+: (rowText row).toList :=
      prefix_append_text (prefix_append_text (prefix_append_text
        (prefix_append_self "case " _) _) _) _
    have hlast : (rowText row).toList.getLast? = some ';' := by
      rw [rowText, String.toList_append, List.getLast?_append]
      rfl
    exact Landmark.marks_of_prefix rfl hwords ⟨';', hlast, by decide⟩
  have hrows : landmarks (column.2.flatMap fun row => [rowText row]) = List.replicate column.2.length .label := by
    rw [landmarks_flatMap]
    simp only [(hrow _).landmarks_cons, landmarks_nil, List.map_const', ← List.map_eq_flatMap]
  have hswitch : Plain (Line.opening 0 ("switch (" ++ Axis.dy.text ++ ")")).content :=
    .opening (.append (.append (.literal (by decide)) _) _) 0
  have hleave : Landmark.leave.Marks "break;".toList := by
    decide
  rw [← List.append_nil (columnCode column), columnCode_append, hlabel.landmarks_cons, hswitch.landmarks_cons,
    landmarks_append, hrows, plain_closing.landmarks_cons, hleave.landmarks_cons, plain_closing.landmarks_cons,
    landmarks_nil]
  rfl

theorem landmarks_declare (v : Variable) (place : Place) (rest : List Statement) :
    landmarks (code (.declare v place :: rest)) = landmarks (code rest) :=
  landmarks_code_cons rfl (.append (.append (.append (.append (.literal (by decide)) _) _) _) _) rest

theorem landmarks_clampBody (radius : Radius) (clampSteps : Nat) :
    landmarks (code (clampBody radius clampSteps)) = List.replicate clampSteps .pull := by
  have hguard : Plain (guardLine (.beyond (.var .origin) (.var .target) radius.value)) :=
    plain_guardLine (by decide) (prefix_append_text (prefix_append_text (prefix_append_text
      (prefix_append_self "origin" _) _) _) _)
  have hdeclared : landmarks (code [.declare .next (.stepTowards (.var .origin) (.var .target)),
      .declare .safe (.var .next)]) = [] := by
    rw [landmarks_declare, landmarks_declare]
    rfl
  have hpulls : landmarks ((List.replicate clampSteps ()).flatMap fun _ => pullCode radius.value) =
      List.replicate clampSteps .pull := by
    rw [landmarks_flatMap]
    simp only [landmarks_pullCode, List.map_replicate, ← List.map_eq_flatMap]
  have htarget : Plain (Variable.target.text ++ " = " ++ (Place.var .safe).text ++ ";") := by
    have hvariable : Plain "target" := .literal (by decide)
    exact ((hvariable.append _).append _).append _
  rw [← List.append_nil (code _), code_clampBody, hguard.landmarks_cons, landmarks_append, hdeclared,
    List.nil_append, landmarks_append, hpulls, htarget.landmarks_cons, plain_closing.landmarks_cons,
    landmarks_nil, List.append_nil]

end Program

namespace Pathfinder

variable (p : Pathfinder)

theorem landmarks_searchBody : landmarks (code p.searchBody) =
    List.replicate p.clampSteps Landmark.pull ++ List.replicate p.schedule.measure.initialChecks Landmark.offer ++
      Landmark.loop :: List.replicate p.schedule.measure.roundChecks Landmark.offer := by
  have hplaced : landmarks (p.schedule.placements.flatMap fun placement => [placementText placement]) = [] := by
    refine landmarks_eq_nil fun text hmem => ?_
    obtain ⟨placement, -, htext⟩ := List.mem_flatMap.mp hmem
    rw [List.mem_singleton.mp htext]
    exact plain_entry (.literal (by decide)) placement.cell _
  have hsensed : landmarks ((List.range p.window.size).flatMap senseCode) = [] := by
    rw [landmarks_flatMap, List.flatMap_eq_nil_iff]
    exact fun cell _ => landmarks_senseCode cell
  have hstarted : landmarks (p.schedule.initialSteps.flatMap startCode) =
      List.replicate p.schedule.measure.initialChecks .offer := by
    rw [landmarks_flatMap, Schedule.measure, ← flatMap_replicate_offer]
    exact List.flatMap_congr fun step _ => landmarks_startCode step
  have hround : landmarks (p.schedule.extraRound.flatMap relaxCode) =
      List.replicate p.schedule.measure.roundChecks .offer := by
    rw [landmarks_flatMap, Schedule.measure, ← flatMap_replicate_offer]
    exact List.flatMap_congr fun r _ => landmarks_relaxCode r
  have hfront : landmarks (code [.declare .origin .agent,
      .when (.same (.var .origin) (.var .target)) [.answer (.fixed .center)], .gap]) = [] := by
    have hguard : Plain (guardLine (.same (.var .origin) (.var .target))) :=
      plain_guardLine (by decide) (prefix_append_text (prefix_append_text (prefix_append_self "origin" _) _) _)
    have hanswer : Plain ("return " ++ (Heading.fixed .center).text ++ ";") :=
      .append (.append (.literal (by decide)) _) _
    rw [landmarks_declare, ← List.singleton_append, code_append, landmarks_append, landmarks_when hguard,
      landmarks_code_cons rfl hanswer, landmarks_gap]
    rfl
  have hallocated : landmarks (code [.gap, .allocate, .gap]) = [] := by
    rw [landmarks_gap, code_cons, Statement.steps, contents_lines, landmarks_append, landmarks_gap]
    refine List.append_eq_nil_iff.mpr ⟨landmarks_eq_nil ?_, rfl⟩
    simp only [List.forall_mem_cons, List.not_mem_nil, false_implies, implies_true, and_true]
    exact ⟨.literal (by decide), .literal (by decide), .literal (by decide), .literal (by decide)⟩
  have hloop : Landmark.loop.Marks (Line.opening 0 (loopHeader "round" "extraRounds")).content.toList := by
    decide
  have hanswer : landmarks (code [.gap, .answerFromTable]) = [] := by
    rw [landmarks_gap]
    exact landmarks_code_cons rfl (.literal (by decide)) []
  rw [← List.append_nil (code _), code_searchBody]
  simp only [landmarks_append, hfront, landmarks_clampBody, hallocated, hplaced, landmarks_blank_cons, hsensed,
    hstarted, hloop.landmarks_cons, hround, plain_closing.landmarks_cons, hanswer, landmarks_nil]
  simp

theorem landmarks_tableBody : landmarks (code p.tableBody) = tableLandmarks p.table.columns := by
  have hcolumns : landmarks (p.table.columns.flatMap columnCode) = tableLandmarks p.table.columns := by
    rw [landmarks_flatMap]
    exact List.flatMap_congr fun column _ => landmarks_columnCode column
  have hswitch : Plain (Line.opening 0 ("switch (" ++ Axis.dx.text ++ ")")).content :=
    .opening (.append (.append (.literal (by decide)) _) _) 0
  have hfail : landmarks (code [.fail]) = [] :=
    landmarks_code_cons rfl (.append (.literal (by decide)) _) []
  rw [← List.append_nil (code _), code_tableBody, hswitch.landmarks_cons, landmarks_append, hcolumns,
    plain_closing.landmarks_cons, landmarks_append, hfail, landmarks_nil, List.append_nil, List.append_nil]

theorem landmarks_nestedScript (package : Option String) (className : String) :
    landmarks (contents (p.nestedScript package className)) =
      landmarks (code p.searchBody) ++ landmarks (code p.tableBody) := by
  have hpackage : landmarks (contents (packageSteps package)) = [] := by
    cases package with
    | none => rfl
    | some name =>
      have hline : Plain ("package " ++ name ++ ";") := .append (.append (.literal (by decide)) _) _
      rw [packageSteps, contents_cons, contents_line, List.singleton_append, hline.landmarks_cons,
        contents_blank, landmarks_blank_cons, landmarks_nil]
  have himports : landmarks (contents importSteps) = [] := by
    rw [importSteps, contents_lines]
    refine landmarks_eq_nil ?_
    simp only [List.forall_mem_cons, List.not_mem_nil, false_implies, implies_true, and_true]
    exact ⟨.literal (by decide), .literal (by decide), .literal (by decide), .literal (by decide)⟩
  have hcosts : landmarks costLines = [] := by
    refine landmarks_eq_nil ?_
    simp only [costLines, List.forall_mem_cons, List.not_mem_nil, false_implies, implies_true, and_true]
    exact ⟨.append (.append (.literal (by decide)) _) _, .append (.append (.literal (by decide)) _) _,
      .append (.append (.literal (by decide)) _) _⟩
  have hclass : Plain (Line.opening 0 ("public final class " ++ className)).content :=
    .opening (.append (.literal (by decide)) _) 0
  have hsize : Plain (sizeLine p.window.size) := .append (.append (.literal (by decide)) _) _
  have hconstructor : Plain (Line.opening 0 ("private " ++ className ++ "()")).content :=
    .opening (.append (.append (.literal (by decide)) _) _) 0
  have hsearch : Plain (Line.opening 0 searchHeader).content := .opening (.append (.literal (by decide)) _) 0
  have htable : Plain (Line.opening 0 tableHeader).content := .opening (.literal (by decide)) 0
  rw [contents_nestedScript, contents_nestedMembers]
  simp only [contents_append, landmarks_append, hpackage, himports, contents_blank, landmarks_blank_cons,
    landmarks_nil, hclass.landmarks_cons, hsize.landmarks_cons, hcosts, hconstructor.landmarks_cons,
    plain_closing.landmarks_cons, hsearch.landmarks_cons, htable.landmarks_cons, List.nil_append, List.append_nil]

theorem landmarks_classText {target : ClassTarget} (valid : target.Valid) :
    (linesOf (p.classText target).toList).filterMap Landmark.of? =
      landmarks (code p.searchBody) ++ landmarks (code p.tableBody) := by
  rw [← filterMap_codeOf, p.codeOf_classText valid, List.filterMap_map, ← landmarks_nestedScript]
  rfl

theorem count_label_tableLandmarks (t : TargetTable) :
    (tableLandmarks t.columns).count .label = t.size + t.columns.length := by
  rw [TargetTable.size, TargetTable.entries]
  induction t.columns with
  | nil => rfl
  | cons column columns ih =>
    rw [tableLandmarks, List.flatMap_cons, List.count_append, ← tableLandmarks, ih]
    simp [columnLandmarks]
    omega

theorem count_leave_tableLandmarks (columns : List (Int × List (Int × Nat))) :
    (tableLandmarks columns).count .leave = columns.length := by
  induction columns with
  | nil => rfl
  | cons column columns ih =>
    rw [tableLandmarks, List.flatMap_cons, List.count_append, ← tableLandmarks, ih]
    simp [columnLandmarks, List.count_replicate]
    omega

theorem count_tableLandmarks_eq_zero {landmark : Landmark} (hlabel : landmark ≠ .label)
    (hleave : landmark ≠ .leave) (columns : List (Int × List (Int × Nat))) :
    (tableLandmarks columns).count landmark = 0 := by
  rw [List.count_eq_zero, tableLandmarks]
  simp [columnLandmarks, hlabel, hleave]

/-- The text of a class is as well formed and as large as its program makes it. -/
structure Shapes (text : String) : Prop where
  balanced : Balanced text
  labels : (linesOf text.toList).countP (Begins "case ") = p.table.size + p.table.columns.length
  leaves : (linesOf text.toList).countP (Reads "break;") = p.table.columns.length
  pulls : (linesOf text.toList).countP (Reads "safe = next;") = p.clampSteps
  /-- There is one loop. The routes of the first pass are compared before it, and those of a round behind its head. -/
  loop : ∃ before head behind, linesOf text.toList = before ++ head :: behind ∧ Begins "for (" head ∧
    (∀ line ∈ before ++ behind, ¬ Begins "for (" line) ∧
    before.countP (Begins "if (pathLength[") = p.schedule.measure.initialChecks ∧
    behind.countP (Begins "if (pathLength[") = p.schedule.measure.roundChecks

theorem shapes_classText {target : ClassTarget} (valid : target.Valid) : p.Shapes (p.classText target) := by
  have hlandmarks := p.landmarks_classText valid
  rw [landmarks_searchBody, landmarks_tableBody] at hlandmarks
  have hcount (landmark : Landmark) := Landmark.countP_marks landmark (linesOf (p.classText target).toList)
  rw [hlandmarks] at hcount
  refine ⟨p.balanced_classText valid, ?_, ?_, ?_, ?_⟩
  · exact (hcount .label).trans (by simp [List.count_replicate, count_label_tableLandmarks])
  · exact (hcount .leave).trans (by simp [List.count_replicate, count_leave_tableLandmarks])
  · exact (hcount .pull).trans (by simp [List.count_replicate, count_tableLandmarks_eq_zero])
  · rw [List.append_assoc, List.cons_append] at hlandmarks
    obtain ⟨front, rest, hlines, hfront, hrest⟩ := List.filterMap_eq_append_iff.mp hlandmarks
    obtain ⟨skipped, head, behind, rfl, hskipped, hhead, hbehind⟩ := List.filterMap_eq_cons_iff.mp hrest
    have hbefore : (front ++ skipped).filterMap Landmark.of? = List.replicate p.clampSteps Landmark.pull ++
        List.replicate p.schedule.measure.initialChecks Landmark.offer := by
      rw [List.filterMap_append, hfront, List.filterMap_eq_nil_iff.mpr hskipped, List.append_nil]
    refine ⟨front ++ skipped, head, behind, by rw [hlines, List.append_assoc], Landmark.of?_eq_some_iff.mp hhead,
      fun line hline hloop => ?_, ?_, ?_⟩
    · have hmem : Landmark.loop ∈ (front ++ skipped ++ behind).filterMap Landmark.of? :=
        List.mem_filterMap.mpr ⟨line, hline, Landmark.of?_eq_some_iff.mpr hloop⟩
      rw [List.filterMap_append, hbefore, hbehind] at hmem
      simp [tableLandmarks, columnLandmarks] at hmem
    · refine (Landmark.countP_marks .offer (front ++ skipped)).trans ?_
      rw [hbefore]
      simp [List.count_replicate]
    · refine (Landmark.countP_marks .offer behind).trans ?_
      rw [hbehind]
      simp [count_tableLandmarks_eq_zero]

section Names

variable {p} {target : ClassTarget}

theorem render_of_not_isIdentifier (h : ¬ ClassName.isIdentifier (target.classNameFor p.radius)) :
    p.render target = .error (.invalidClassName (target.classNameFor p.radius)) := by
  rw [Bool.not_eq_true] at h
  simp only [render, h]
  rfl

theorem render_of_not_isPackage (hname : ClassName.isIdentifier (target.classNameFor p.radius)) {package : String}
    (hpackage : target.package = some package) (h : ¬ ClassName.isPackage package) :
    p.render target = .error (.invalidPackage package) := by
  rw [Bool.not_eq_true] at h
  simp only [render, hname, hpackage, h]
  rfl

end Names

/-- Only the names decide whether a class is printed, that of the class before that of its package. Every program that
is printed shapes its text. -/
theorem render_shapes (target : ClassTarget) :
    (¬ ClassName.isIdentifier (target.classNameFor p.radius) ∧
      p.render target = .error (.invalidClassName (target.classNameFor p.radius))) ∨
    (ClassName.isIdentifier (target.classNameFor p.radius) ∧
      ∃ package ∈ target.package, ¬ ClassName.isPackage package ∧
        p.render target = .error (.invalidPackage package)) ∨
    (ClassName.isIdentifier (target.classNameFor p.radius) ∧
      (∀ package ∈ target.package, ClassName.isPackage package) ∧
        ∃ text, p.render target = .ok text ∧ p.Shapes text) := by
  by_cases hname : ClassName.isIdentifier (target.classNameFor p.radius)
  · refine .inr ?_
    by_cases hpackage : ∀ package ∈ target.package, ClassName.isPackage package
    · have valid : target.Valid :=
        ⟨fun name hmem => by simpa [ClassTarget.classNameFor, Option.mem_def.mp hmem] using hname, hpackage⟩
      exact .inr ⟨hname, hpackage, _, p.render_eq_ok valid, p.shapes_classText valid⟩
    · push Not at hpackage
      obtain ⟨package, hmem, hnot⟩ := hpackage
      exact .inl ⟨hname, package, hmem, hnot, render_of_not_isPackage hname hmem hnot⟩
  · exact .inl ⟨hname, render_of_not_isIdentifier hname⟩

theorem render_shapes_vacant : ∃ text, (vacant 2).render .default = .ok text ∧ Balanced text ∧
    (linesOf text.toList).countP (Begins "case ") = 4 ∧ (linesOf text.toList).countP (Reads "break;") = 2 := by
  have valid : ClassTarget.default.Valid := ⟨by simp [ClassTarget.default], by simp [ClassTarget.default]⟩
  rcases (vacant 2).render_shapes .default with ⟨hname, -⟩ | ⟨-, package, hmem, -⟩ | ⟨-, -, text, htext, shapes⟩
  · exact absurd (valid.isIdentifier _) hname
  · cases hmem
  · exact ⟨text, htext, shapes.balanced, shapes.labels, shapes.leaves⟩

end Pathfinder

end GridRoute
