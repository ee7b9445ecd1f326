import GridRoute.Proofs.Program.Wording

/-!
What the text of a program tells. The code of each phase ends with a line that begins no part of it, and each part can
be read off its own lines; so two programs with the same text are the same, up to the offsets that only comments name.
-/

namespace GridRoute

open GridRoute.Source GridRoute.Program

namespace Program

theorem stepsOfBody_eq_flatMap (body : List Statement) :
    stepsOfBody body = body.flatMap Statement.steps := by
  induction body with
  | nil => rfl
  | cons statement body ih => rw [stepsOfBody, ih, List.flatMap_cons]

theorem stepsOfCases_eq_flatMap (cases : List Case) : stepsOfCases cases = cases.flatMap Case.steps := by
  induction cases with
  | nil => rfl
  | cons first cases ih => rw [stepsOfCases, ih, List.flatMap_cons]

def code (body : List Statement) : List String := contents (stepsOfBody body)

@[simp] theorem code_append (front rest : List Statement) : code (front ++ rest) = code front ++ code rest := by
  simp [code, stepsOfBody_eq_flatMap]

@[simp] theorem code_nil : code [] = [] := rfl

theorem code_cons (statement : Statement) (rest : List Statement) :
    code (statement :: rest) = contents statement.steps ++ code rest := by
  rw [code, stepsOfBody, contents_append, code]

theorem code_flatMap {α : Type} (xs : List α) (f : α → List Statement) :
    code (xs.flatMap f) = xs.flatMap fun x => code (f x) := by
  induction xs with
  | nil => rfl
  | cons x xs ih => rw [List.flatMap_cons, code_append, ih, List.flatMap_cons]

theorem code_map {α : Type} (xs : List α) (f : α → Statement) :
    code (xs.map f) = xs.flatMap fun x => code [f x] := by
  rw [List.map_eq_flatMap, code_flatMap]

@[simp] theorem code_note (text : String) (rest : List Statement) :
    code (.note text :: rest) = code rest := rfl

@[simp] theorem code_noteCell (w : Window) (cell : Nat) (remark : String) :
    code (noteCell w cell remark) = [] := by
  unfold noteCell
  split <;> rfl

section Words

theorem directionConstant_injective : Function.Injective directionConstant := by
  intro d e
  cases d <;> cases e <;> decide

theorem slot_append_inj {array rest rest' : String} {cell cell' : Nat}
    (h : slot array cell ++ rest = slot array cell' ++ rest') : cell = cell' ∧ rest = rest' := by
  have hcs := congrArg String.toList h
  simp only [slot, String.toList_append, List.append_assoc, List.append_cancel_left_eq] at hcs
  obtain ⟨hcell, hrest⟩ := repr_append_inj (c := ']') rfl hcs
  exact ⟨hcell, String.toList_inj.mp hrest⟩

theorem anchorPlace_append_inj {anchor anchor' : Anchor} {rest rest' : String}
    (h : (anchorPlace anchor).text ++ rest = (anchorPlace anchor').text ++ rest') :
    anchor = anchor' ∧ rest = rest' := by
  have hne (cell : Nat) (rest rest' : String) : "origin" ++ rest ≠ slot "loc" cell ++ rest' := by
    intro heq
    have hcs := congrArg String.toList heq
    simp [slot] at hcs
  cases anchor with
  | origin =>
    cases anchor' with
    | origin => exact ⟨rfl, (String.append_right_inj _).mp h⟩
    | cell cell => exact absurd h (hne cell rest rest')
  | cell cell =>
    cases anchor' with
    | origin => exact absurd h.symm (hne cell rest' rest)
    | cell cell' =>
      obtain ⟨rfl, hrest⟩ := slot_append_inj h
      exact ⟨rfl, hrest⟩

def placementText (p : Placement) : String :=
  slot "loc" p.cell ++ " = " ++ (Place.step (anchorPlace p.anchor) p.step).text ++ ";"

theorem placementText_injective : Function.Injective placementText := by
  intro p q h
  simp only [placementText, Place.text, String.append_assoc] at h
  obtain ⟨hcell, hplace⟩ := slot_append_inj h
  obtain ⟨hanchor, hstep⟩ := anchorPlace_append_inj ((String.append_right_inj _).mp hplace)
  have hd := directionConstant_injective
    ((String.append_left_inj _).mp ((String.append_right_inj _).mp hstep))
  cases p
  cases q
  simp_all

def rowText (row : Int × Nat) : String :=
  "case " ++ toString row.1 ++ ": return " ++ (Heading.best row.2).text ++ ";"

theorem rowText_injective : Function.Injective rowText := by
  rintro ⟨dy, cell⟩ ⟨dy', cell'⟩ h
  have hcs := congrArg String.toList h
  simp only [rowText, Int.toString_eq_repr, String.toList_append, List.append_assoc,
    List.append_cancel_left_eq] at hcs
  obtain ⟨rfl, -⟩ := repr_int_append_inj (c := ':') rfl (by decide) hcs
  simpa [rowText, Heading.text, slot, Nat.repr_inj] using h

end Words

def guardLine (condition : Condition) : String :=
  (Line.opening 0 ("if (" ++ condition.text ++ ")")).content

theorem code_when (condition : Condition) (body : List Statement) :
    code [.when condition body] = guardLine condition :: code body ++ ["\x7d"] := by
  simp [code, stepsOfBody, Statement.steps, guardLine]

theorem guardLine_injective {α : Type} {condition : α → Condition}
    (h : Function.Injective fun a => (condition a).text) :
    Function.Injective fun a => guardLine (condition a) := by
  intro a b heq
  have hheader := content_opening_injective 0 heq
  exact h ((String.append_right_inj _).mp ((String.append_left_inj _).mp hheader))

section Clamp

def pullCode (radius : Nat) : List String :=
  code [.when (.within (.var .origin) (.var .next) radius)
    [.assign .safe (.var .next), .assign .next (.stepTowards (.var .next) (.var .target))]]

theorem code_clampBody (radius : Radius) (clampSteps : Nat) (rest : List String) :
    code (clampBody radius clampSteps) ++ rest =
      guardLine (.beyond (.var .origin) (.var .target) radius.value) ::
        (code [.declare .next (.stepTowards (.var .origin) (.var .target)),
            .declare .safe (.var .next)] ++
          (((List.replicate clampSteps ()).flatMap fun _ => pullCode radius.value) ++
            (Variable.target.text ++ " = " ++ (Place.var .safe).text ++ ";") :: "\x7d" :: rest)) := by
  have hpulls (s : Statement) : code (List.replicate clampSteps s) =
      (List.replicate clampSteps ()).flatMap fun _ => code [s] := by
    rw [← List.map_replicate (f := fun _ => s) (a := ()), code_map]
  have hlast (v : Variable) (place : Place) :
      code [.assign v place] = [v.text ++ " = " ++ place.text ++ ";"] := contents_line _
  rw [clampBody, code_note, code_when, code_append, code_append, hpulls, hlast]
  simp only [pullCode, List.append_assoc, List.cons_append, List.nil_append]

theorem beyond_injective : Function.Injective fun radius =>
    (Condition.beyond (.var .origin) (.var .target) radius).text := by
  intro m n h
  exact Nat.repr_inj.mp ((String.append_right_inj _).mp h)

theorem clampBody_append_inj {radius radius' : Radius} {clampSteps clampSteps' : Nat}
    {rest rest' : List String}
    (h : code (clampBody radius clampSteps) ++ rest = code (clampBody radius' clampSteps') ++ rest') :
    radius = radius' ∧ clampSteps = clampSteps' ∧ rest = rest' := by
  rw [code_clampBody, code_clampBody] at h
  obtain ⟨hfirst, hbehind⟩ := List.cons.inj h
  have hradius : radius.value = radius'.value := guardLine_injective beyond_injective hfirst
  rw [hradius] at hbehind
  have hpull : PrefixFree fun _ : Unit => pullCode radius'.value := fun _ _ _ _ heq =>
    ⟨rfl, List.append_cancel_left heq⟩
  obtain ⟨hsteps, hrest⟩ := hpull.flatMap_append_cons
    (fun _ => ⟨_, rfl, content_opening_ne_append 0 _ _⟩) (List.append_cancel_left hbehind)
  refine ⟨?_, ?_, (List.cons.inj hrest).2⟩
  · cases radius
    cases radius'
    simpa using hradius
  · simpa using congrArg List.length hsteps

end Clamp

section Schedule

theorem less_injective (cell : Nat) : Function.Injective fun source =>
    (Condition.less (.sum (.length source) (.cost cell)) (.length cell)).text := by
  intro m n h
  have hsum := (String.append_left_inj _).mp ((String.append_left_inj _).mp h)
  exact (slot_append_inj ((String.append_left_inj _).mp hsum)).1

theorem present_injective : Function.Injective fun cell => (Condition.present cell).text := by
  intro m n h
  exact (slot_append_inj h).1

theorem present_cons_inj {cell cell' : Nat} {rest rest' : List String}
    (h : guardLine (.present cell) :: rest = guardLine (.present cell') :: rest') :
    cell = cell' ∧ rest = rest' := by
  obtain ⟨hfirst, hrest⟩ := List.cons.inj h
  exact ⟨guardLine_injective present_injective hfirst, hrest⟩

def seedCode (cell : Nat) (d : Direction) : List String :=
  code [.setLength cell (.sum (.cost cell) .stepCost), .setBest cell (.fixed d)]

def offerCode (cell source : Nat) : List String := code [offerStatement cell source]

theorem prefixFree_offerCode (cell : Nat) : PrefixFree (offerCode cell) :=
  .of_head (guardLine_injective (less_injective cell)) fun _ => code_when _ _

def relaxCode (r : Relaxation) : List String :=
  guardLine (.present r.cell) :: r.sources.flatMap (offerCode r.cell) ++ ["\x7d"]

theorem relaxCode_append (r : Relaxation) (rest : List String) : relaxCode r ++ rest =
    guardLine (.present r.cell) :: (r.sources.flatMap (offerCode r.cell) ++ "\x7d" :: rest) := by
  simp [relaxCode]

def startCode : InitialStep → List String
  | .seed cell d => guardLine (.present cell) :: seedCode cell d ++ ["\x7d"]
  | .relax r => relaxCode r

theorem startCode_seed_append (cell : Nat) (d : Direction) (rest : List String) :
    startCode (.seed cell d) ++ rest =
      guardLine (.present cell) :: (seedCode cell d ++ "\x7d" :: rest) := by
  simp [startCode]

theorem code_relaxStatements (w : Window) (r : Relaxation) :
    code (relaxStatements w r) = relaxCode r := by
  rw [relaxStatements, code_append, code_noteCell, List.nil_append, code_when, code_map]
  rfl

theorem code_initialStatements (w : Window) (step : InitialStep) :
    code (initialStatements w step) = startCode step := by
  cases step with
  | seed cell d =>
    rw [initialStatements, code_append, code_noteCell, List.nil_append, code_when]
    rfl
  | relax r => exact code_relaxStatements w r

theorem sources_append_inj {cell : Nat} {sources sources' : List Nat} {rest rest' : List String}
    (h : sources.flatMap (offerCode cell) ++ "\x7d" :: rest =
      sources'.flatMap (offerCode cell) ++ "\x7d" :: rest') : sources = sources' ∧ rest = rest' :=
  (prefixFree_offerCode cell).flatMap_append_cons
    (fun _ => ⟨_, rfl, content_opening_ne (by decide) 0 _⟩) h

theorem prefixFree_relaxCode : PrefixFree relaxCode := by
  rintro ⟨cell, sources⟩ ⟨cell', sources'⟩ rest rest' h
  rw [relaxCode_append, relaxCode_append] at h
  obtain ⟨rfl, hbehind⟩ := present_cons_inj h
  obtain ⟨rfl, hrest⟩ := sources_append_inj hbehind
  exact ⟨rfl, hrest⟩

theorem seedCode_eq (cell : Nat) (d : Direction) :
    seedCode cell d = [slot "pathLength" cell ++ " = " ++ (Number.sum (.cost cell) .stepCost).text ++ ";",
      slot "bestDir" cell ++ " = " ++ directionConstant d ++ ";"] := by
  rw [seedCode, code_cons, code_cons, Statement.steps, Statement.steps, contents_line, contents_line]
  rfl

/-- A seed and a relaxation of the same cell are told apart by the line behind the first one. -/
theorem seedCode_append_ne {cell : Nat} {d : Direction} {sources : List Nat} {rest rest' : List String} :
    seedCode cell d ++ rest ≠ sources.flatMap (offerCode cell) ++ "\x7d" :: rest' := by
  intro h
  rw [seedCode_eq] at h
  cases sources with
  | nil =>
    have hcs := congrArg String.toList (List.cons.inj h).1
    simp [slot] at hcs
  | cons source sources =>
    rw [List.flatMap_cons, offerCode, offerStatement, code_when] at h
    exact content_opening_ne_append 0 _ _ (List.cons.inj h).1.symm

theorem prefixFree_startCode : PrefixFree startCode := by
  intro step step' rest rest' h
  cases step with
  | seed cell d =>
    cases step' with
    | seed cell' d' =>
      rw [startCode_seed_append, startCode_seed_append] at h
      obtain ⟨rfl, hbehind⟩ := present_cons_inj h
      simp only [seedCode_eq, List.cons_append, List.nil_append, List.cons.injEq, true_and] at hbehind
      obtain ⟨hheading, hrest⟩ := hbehind
      have hd := directionConstant_injective
        ((String.append_right_inj _).mp ((String.append_left_inj _).mp hheading))
      rw [hd]
      exact ⟨rfl, hrest⟩
    | relax r =>
      rw [startCode_seed_append, startCode, relaxCode_append] at h
      obtain ⟨rfl, hbehind⟩ := present_cons_inj h
      exact absurd hbehind seedCode_append_ne
  | relax r =>
    cases step' with
    | seed cell d =>
      rw [startCode_seed_append, startCode, relaxCode_append] at h
      obtain ⟨rfl, hbehind⟩ := present_cons_inj h
      exact absurd hbehind.symm seedCode_append_ne
    | relax r' =>
      obtain ⟨rfl, hrest⟩ := prefixFree_relaxCode h
      exact ⟨rfl, hrest⟩

end Schedule

def senseCode (cell : Nat) : List String := code (senseStatements Offset.origin cell)

theorem code_senseStatements (w : Window) :
    code (w.cells.flatMap fun entry => senseStatements entry.1 entry.2) =
      (List.range w.size).flatMap senseCode := by
  -- Only the remark names the offset.
  have hcells : w.cells.map Prod.snd = List.range w.size := by
    rw [Window.cells, List.zipIdx_map_snd, Window.size, Array.length_toList, List.range_eq_range']
  rw [code_flatMap, ← hcells, List.flatMap_map]
  rfl

section Table

def columnCode (column : Int × List (Int × Nat)) : List String := contents (columnCase column).steps

theorem columnCode_append (column : Int × List (Int × Nat)) (rest : List String) :
    columnCode column ++ rest =
      (Line.opening 0 ("case " ++ toString column.1 ++ ":")).content ::
        (Line.opening 0 ("switch (" ++ Axis.dy.text ++ ")")).content ::
          ((column.2.flatMap fun row => [rowText row]) ++ "\x7d" :: "break;" :: "\x7d" :: rest) := by
  have hrows : contents (stepsOfCases (column.2.map fun row => .answer row.1 (.best row.2))) =
      column.2.flatMap fun row => [rowText row] := by
    rw [stepsOfCases_eq_flatMap, List.flatMap_map, contents_flatMap]
    exact List.flatMap_congr fun row _ => contents_line _
  change contents [.block ("case " ++ toString column.1 ++ ":")
    ([.block ("switch (" ++ Axis.dy.text ++ ")")
      (stepsOfCases (column.2.map fun row => .answer row.1 (.best row.2)))] ++ [.line "break;"])] ++ rest = _
  rw [contents_block, contents_append, contents_block, hrows, contents_line]
  simp only [List.append_assoc, List.cons_append, List.nil_append]

theorem prefixFree_columnCode : PrefixFree columnCode := by
  rintro ⟨dx, rows⟩ ⟨dx', rows'⟩ rest rest' h
  have hrow : PrefixFree fun row => [rowText row] := .of_head rowText_injective fun _ => rfl
  have hne (row : Int × Nat) : rowText row ≠ "\x7d" := by
    intro heq
    have hcs := congrArg String.toList heq
    simp [rowText] at hcs
  rw [columnCode_append, columnCode_append] at h
  obtain ⟨hfirst, hbehind⟩ := List.cons.inj h
  have hlabel := content_opening_injective 0 hfirst
  have hdx : dx = dx' := by simpa [Int.repr_inj] using hlabel
  obtain ⟨rfl, hrest⟩ := hrow.flatMap_append_cons (fun row => ⟨_, rfl, hne row⟩) (List.cons.inj hbehind).2
  rw [hdx]
  simpa using hrest

end Table

end Program

namespace Pathfinder

variable (p : Pathfinder)

theorem code_searchBody (rest : List String) : code p.searchBody ++ rest =
    code [.declare .origin .agent,
        .when (.same (.var .origin) (.var .target)) [.answer (.fixed .center)], .gap] ++
      (code (clampBody p.radius p.clampSteps) ++
        (code [.gap, .allocate, .gap] ++
          ((p.schedule.placements.flatMap fun placement => [placementText placement]) ++
            "" :: ((List.range p.window.size).flatMap senseCode ++
              (p.schedule.initialSteps.flatMap startCode ++
                "" :: (Line.opening 0 (loopHeader "round" "extraRounds")).content ::
                  (p.schedule.extraRound.flatMap relaxCode ++
                    "\x7d" :: (code [.gap, .answerFromTable] ++ rest))))))) := by
  have hplaced : code (p.schedule.placements.map placementStatement) =
      p.schedule.placements.flatMap fun placement => [placementText placement] := by
    rw [code_map]
    exact List.flatMap_congr fun placement _ => contents_line _
  have hstarted : code (p.schedule.initialSteps.flatMap (initialStatements p.window)) =
      p.schedule.initialSteps.flatMap startCode := by
    rw [code_flatMap]
    exact List.flatMap_congr fun step _ => code_initialStatements p.window step
  have hround : code (p.schedule.extraRound.flatMap (relaxStatements p.window)) =
      p.schedule.extraRound.flatMap relaxCode := by
    rw [code_flatMap]
    exact List.flatMap_congr fun r _ => code_relaxStatements p.window r
  have hopening (text : String) :
      code [.gap, .allocate, .gap, .note text] = code [.gap, .allocate, .gap] := rfl
  have hsensing (text : String) : code [.gap, .note text] = [""] := rfl
  have hstarting (text : String) : code [.note text] = [] := rfl
  have hclosing (above below : String) : code [.gap, .note above,
      .repeatRounds (p.schedule.extraRound.flatMap (relaxStatements p.window)), .gap, .note below,
      .answerFromTable] = "" :: (Line.opening 0 (loopHeader "round" "extraRounds")).content ::
        (p.schedule.extraRound.flatMap relaxCode ++ "\x7d" :: code [.gap, .answerFromTable]) := by
    rw [code_cons, code_note, code_cons, Statement.steps, Statement.steps, contents_loop, ← code, hround]
    simp [code_cons, Statement.steps]
  simp only [searchBody, code_append, hplaced, code_senseStatements, hstarted, hopening, hsensing,
    hstarting, hclosing]
  simp only [List.append_assoc, List.cons_append, List.nil_append]

theorem code_tableBody (rest : List String) : code p.tableBody ++ rest =
    (Line.opening 0 ("switch (" ++ Axis.dx.text ++ ")")).content ::
      (p.table.columns.flatMap columnCode ++ "\x7d" :: (code [.fail] ++ rest)) := by
  have hcolumns : contents (stepsOfCases (p.table.columns.map columnCase)) =
      p.table.columns.flatMap columnCode := by
    rw [stepsOfCases_eq_flatMap, List.flatMap_map, contents_flatMap]
    rfl
  rw [tableBody, code_cons, Statement.steps, contents_block, hcolumns]
  simp only [List.append_assoc, List.cons_append, List.nil_append]

section Bodies

variable {p q : Pathfinder} {rest rest' : List String}

/-- The body of the search tells all but the table, once the number of cells is known: nothing marks the end of the
part that senses them. -/
theorem searchBody_append_inj (hsize : p.window.size = q.window.size)
    (h : code p.searchBody ++ rest = code q.searchBody ++ rest') :
    p.radius = q.radius ∧ p.clampSteps = q.clampSteps ∧ p.schedule = q.schedule ∧ rest = rest' := by
  have hplacement : PrefixFree fun placement => [placementText placement] :=
    .of_head placementText_injective fun _ => rfl
  have hplaced (placement : Placement) : placementText placement ≠ "" := by
    intro heq
    have hcs := congrArg String.toList heq
    simp [placementText, slot] at hcs
  have hstart (step : InitialStep) : ∃ first ∈ (startCode step).head?, first ≠ "" := by
    cases step <;> exact ⟨_, rfl, content_opening_ne (by decide) 0 _⟩
  rw [code_searchBody, code_searchBody, hsize] at h
  obtain ⟨hradius, hsteps, h⟩ := clampBody_append_inj (List.append_cancel_left h)
  obtain ⟨hplacements, h⟩ := hplacement.flatMap_append_cons (fun placement => ⟨_, rfl, hplaced placement⟩)
    (List.append_cancel_left h)
  obtain ⟨hinitial, h⟩ := prefixFree_startCode.flatMap_append_cons hstart (List.append_cancel_left h)
  obtain ⟨hround, h⟩ := prefixFree_relaxCode.flatMap_append_cons
    (fun _ => ⟨_, rfl, content_opening_ne (by decide) 0 _⟩) (List.cons.inj h).2
  refine ⟨hradius, hsteps, ?_, List.append_cancel_left h⟩
  cases hp : p.schedule
  cases hq : q.schedule
  simp_all

theorem tableBody_append_inj (h : code p.tableBody ++ rest = code q.tableBody ++ rest') :
    p.table = q.table ∧ rest = rest' := by
  rw [code_tableBody, code_tableBody] at h
  obtain ⟨hcolumns, h⟩ := prefixFree_columnCode.flatMap_append_cons
    (fun column => ⟨_, by rw [← List.append_nil (columnCode column), columnCode_append]; rfl,
      content_opening_ne (by decide) 0 _⟩) (List.cons.inj h).2
  refine ⟨?_, List.append_cancel_left h⟩
  cases hp : p.table
  cases hq : q.table
  simp_all

end Bodies

def sizeLine (size : Nat) : String := "private static final int CELLS = " ++ toString size ++ ";"

theorem sizeLine_injective : Function.Injective sizeLine := by
  intro m n h
  exact Nat.repr_inj.mp ((String.append_right_inj _).mp ((String.append_left_inj _).mp h))

def costLines : List String :=
  ["private static final int UNREACHED = " ++ toString Cost.unreached ++ ";",
    "private static final int UNSENSED_COST = " ++ toString Cost.unsensed ++ ";",
    "private static final int STEP_COST = " ++ toString Cost.step ++ ";"]

theorem contents_remarked (remark text : String) (rest : Script) :
    contents (.comment remark :: .line text :: rest) = text :: contents rest := by
  rw [contents_cons, contents_comment, List.nil_append, contents_cons, contents_line]
  rfl

theorem contents_nestedMembers (p : Pathfinder) (className : String) :
    contents (p.nestedMembers className) =
      sizeLine p.window.size :: (costLines ++
        "" :: (Line.opening 0 ("private " ++ className ++ "()")).content :: "\x7d" :: "" ::
          (Line.opening 0 searchHeader).content :: (code p.searchBody ++
            "\x7d" :: "" :: (Line.opening 0 tableHeader).content :: (code p.tableBody ++ ["\x7d"]))) := by
  have hconstants : contents p.constantSteps = sizeLine p.window.size :: costLines := by
    rw [constantSteps, contents_remarked, contents_remarked, contents_remarked, contents_remarked,
      contents_nil]
    rfl
  have hsearch : contents p.searchSteps =
      (Line.opening 0 searchHeader).content :: code p.searchBody ++ ["\x7d"] := by
    rw [searchSteps, contents_cons, contents_blockComment, contents_block]
    rfl
  have htable : contents p.tableSteps =
      (Line.opening 0 tableHeader).content :: code p.tableBody ++ ["\x7d"] := by
    rw [tableSteps, contents_cons, contents_blockComment, contents_block]
    rfl
  simp only [nestedMembers, contents_append, hconstants, hsearch, htable, contents_block, contents_blank,
    contents_nil]
  simp only [List.append_assoc, List.cons_append, List.nil_append]

theorem contents_nestedScript (p : Pathfinder) (package : Option String) (className : String) :
    contents (p.nestedScript package className) =
      contents (packageSteps package ++ importSteps ++ [.blank]) ++
        (Line.opening 0 ("public final class " ++ className)).content ::
          (contents (p.nestedMembers className) ++ ["\x7d"]) := by
  have hremark : contents [.blank, .blockComment p.classRemark] = contents [.blank] := rfl
  simp only [nestedScript, contents_append, hremark, contents_block]
  rfl

theorem nestedMembers_inj {p q : Pathfinder} {className className' : String}
    (h : contents (p.nestedMembers className) = contents (q.nestedMembers className')) :
    p.radius = q.radius ∧ p.window.size = q.window.size ∧ p.schedule = q.schedule ∧
      p.clampSteps = q.clampSteps ∧ p.table = q.table := by
  rw [contents_nestedMembers, contents_nestedMembers] at h
  obtain ⟨hsizeLine, h⟩ := List.cons.inj h
  have hsize := sizeLine_injective hsizeLine
  have hmethods := List.append_cancel_left h
  simp only [List.cons.injEq, true_and] at hmethods
  obtain ⟨hradius, hsteps, hschedule, h⟩ := searchBody_append_inj hsize hmethods.2
  simp only [List.cons.injEq, true_and] at h
  obtain ⟨htable, -⟩ := tableBody_append_inj h
  exact ⟨hradius, hsize, hschedule, hsteps, htable⟩

/-- Two programs with the same text are the same, up to the offsets of their cells. -/
theorem render_injective {p q : Pathfinder} {target : ClassTarget} {text : String}
    (hp : p.render target = .ok text) (hq : q.render target = .ok text) :
    p.radius = q.radius ∧ p.window.size = q.window.size ∧ p.schedule = q.schedule ∧
      p.clampSteps = q.clampSteps ∧ p.table = q.table := by
  have valid := valid_of_render_eq_ok hp
  rw [p.render_eq_ok valid] at hp
  rw [q.render_eq_ok valid] at hq
  have hcode := p.codeOf_classText valid
  rw [Except.ok.inj hp, ← Except.ok.inj hq, q.codeOf_classText valid] at hcode
  have hlines := List.map_injective_iff.mpr (fun _ _ => String.toList_inj.mp) hcode
  rw [contents_nestedScript, contents_nestedScript] at hlines
  obtain ⟨-, hmembers⟩ := List.cons.inj (List.append_cancel_left hlines)
  obtain ⟨hradius, hsize, hschedule, hsteps, htable⟩ :=
    nestedMembers_inj (List.append_cancel_right hmembers)
  exact ⟨hradius.symm, hsize.symm, hschedule.symm, hsteps.symm, htable.symm⟩

/-- A bundle whose window has no cells, and a schedule and a table that name some nevertheless. -/
def vacant (reach : Nat) : Pathfinder where
  radius := ⟨Radius.minimum, Nat.le_refl _, by decide⟩
  window := .empty reach
  schedule :=
    { placements := [⟨0, .origin, .north⟩, ⟨12, .cell 12, .center⟩]
      initialSteps := [.relax ⟨0, []⟩, .seed 0 .southEast, .relax ⟨1, [0, 12, 0]⟩]
      extraRound := [⟨1, []⟩, ⟨1, [1, 0]⟩] }
  table := ⟨[(-1, [(0, 12), (-10, 1)]), (1, [])]⟩
  clampSteps := 2

/-- How far a window was to reach is not told. -/
theorem render_injective_vacant :
    (vacant 2).render .default = .ok ((vacant 9).classText .default) ∧
    (vacant 9).render .default = .ok ((vacant 9).classText .default) ∧
    (vacant 2).radius = (vacant 9).radius ∧ (vacant 2).window.size = (vacant 9).window.size ∧
      (vacant 2).schedule = (vacant 9).schedule ∧ (vacant 2).clampSteps = (vacant 9).clampSteps ∧
      (vacant 2).table = (vacant 9).table := by
  have valid : ClassTarget.default.Valid := ⟨by simp [ClassTarget.default], by simp [ClassTarget.default]⟩
  have hsame : (vacant 2).classText .default = (vacant 9).classText .default := rfl
  have hp := hsame ▸ (vacant 2).render_eq_ok valid
  have hq := (vacant 9).render_eq_ok valid
  exact ⟨hp, hq, render_injective hp hq⟩

end Pathfinder

end GridRoute
