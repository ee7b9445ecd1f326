import GridRoute.Program.Statement
import GridRoute.Proofs.Recognition

/-!
A reader of route programs. It has its own spelling of every expression of the language and of every simple statement,
takes a line of code sign by sign, and fails where the line says anything else. Alternatives are told apart by what
they can begin with.
-/

namespace GridRoute.Program

abbrev Reader (α : Type) := StateT (List Char) Option α

namespace Reader

def ensure (p : Prop) [Decidable p] : Reader Unit := if p then pure () else failure

def signs : List Char → Reader Unit
  | [] => pure ()
  | sign :: more => do
    let first :: rest ← get | failure
    ensure (first = sign)
    set rest
    signs more

def literal (text : String) : Reader Unit := signs text.toList

def span (p : Char → Bool) : Reader String := do
  let cs ← get
  set (cs.dropWhile p)
  return String.ofList (cs.takeWhile p)

def isNumeric (c : Char) : Bool := c.isDigit || c == '-'

/-- A number, which must be spelled as it is written: a zero in front would change its base. -/
def numeral : Reader Int := do
  let digits ← span isNumeric
  let n ← digits.toInt?
  ensure (toString n = digits)
  return n

def index : Reader Nat := do (← numeral).toNat?

def entry (array : String) : Reader Nat := do
  literal array
  literal "["
  let cell ← index
  literal "]"
  return cell

def directionNames : List (String × Direction) :=
  [("NORTH", .north), ("NORTHEAST", .northEast), ("EAST", .east), ("SOUTHEAST", .southEast), ("SOUTH", .south),
    ("SOUTHWEST", .southWest), ("WEST", .west), ("NORTHWEST", .northWest), ("CENTER", .center)]

def direction : Reader Direction := do
  literal "Direction."
  let name ← span Char.isAlpha
  directionNames.lookup name

def name : Reader Variable :=
  (do literal "origin"; return .origin) <|> (do literal "target"; return .target) <|>
  (do literal "next"; return .next) <|> (do literal "safe"; return .safe)

def axis : Reader Axis := (do literal "dx"; return .dx) <|> (do literal "dy"; return .dy)

def spot : Reader Place :=
  (do literal "rc.getLocation()"; return .agent) <|> (do return .var (← name)) <|>
  (do return .cell (← entry "loc"))

def stepFrom (start : Place) : Reader Place := do
  literal ".add("
  (do let d ← direction; literal ")"; return .step start d) <|> do
    ensure ((← spot) = start)
    literal ".directionTo("
    let goal ← spot
    literal "))"
    return .stepTowards start goal

def place : Reader Place := do
  let start ← spot
  stepFrom start <|> return start

def term : Reader Number :=
  (do literal "UNREACHED"; return .unreached) <|> (do literal "UNSENSED_COST"; return .unsensedCost) <|>
  (do literal "STEP_COST"; return .stepCost) <|> (do return .length (← entry "pathLength")) <|>
  (do return .cost (← entry "cost")) <|> do
    literal "rc.senseRubble("
    let place ← spot
    literal ")"
    return .rubble place

def number : Reader Number := do
  let first ← term
  (do literal " + "; return .sum first (← term)) <|> return first

def heading : Reader Heading :=
  (do return .fixed (← direction)) <|> (do return .best (← entry "bestDir"))

def less : Reader Condition := do
  let left ← number
  literal " < "
  return .less left (← number)

def enterable : Reader Condition := do
  literal "rc.onTheMap("
  let place ← spot
  literal ") && !rc.isLocationOccupied("
  ensure ((← spot) = place)
  literal ")"
  return .enterable place

def present : Reader Condition := do
  let cell ← entry "loc"
  literal " != null"
  return .present cell

def same : Reader Condition := do
  let left ← spot
  literal ".equals("
  let right ← spot
  literal ")"
  return .same left right

def distance : Reader Condition := do
  let left ← spot
  literal ".distanceSquaredTo("
  let right ← spot
  (do literal ") > "; return .beyond left right (← index)) <|>
    (do literal ") <= "; return .within left right (← index))

def condition : Reader Condition := less <|> enterable <|> present <|> same <|> distance

def declare : Reader Statement := do
  literal "MapLocation "
  let v ← name
  literal " = "
  let p ← place
  literal ";"
  return .declare v p

def assign : Reader Statement := do
  let v ← name
  literal " = "
  let p ← place
  literal ";"
  return .assign v p

def setPlace : Reader Statement := do
  let cell ← entry "loc"
  literal " = "
  let p ← place
  literal ";"
  return .setPlace cell p

def clearPlace : Reader Statement := do
  let cell ← entry "loc"
  literal " = null;"
  return .clearPlace cell

def setLength : Reader Statement := do
  let cell ← entry "pathLength"
  literal " = "
  let n ← number
  literal ";"
  return .setLength cell n

def setCost : Reader Statement := do
  let cell ← entry "cost"
  literal " = "
  let n ← number
  literal ";"
  return .setCost cell n

def setBest : Reader Statement := do
  let cell ← entry "bestDir"
  literal " = "
  let h ← heading
  literal ";"
  return .setBest cell h

def answer : Reader Statement := do
  literal "return "
  let h ← heading
  literal ";"
  return .answer h

def leave : Reader Statement := do
  literal "break;"
  return .leave

def answerFromTable : Reader Statement := do
  literal "return bestDirection(target.x - origin.x, target.y - origin.y, bestDir).opposite();"
  return .answerFromTable

def fail : Reader Statement := do
  literal "throw new IllegalStateException(\"offset (\" + dx + \",\" + dy + "
  literal "\") lies outside the visibility window\");"
  return .fail

def record : Reader Statement := setPlace <|> clearPlace <|> setLength <|> setCost <|> setBest

def store : Reader Statement := declare <|> assign <|> record

def jump : Reader Statement := leave <|> answerFromTable <|> answer <|> fail

def statement : Reader Statement := store <|> jump

variable {α β : Type} {rest : List Char}

section Literals

theorem run_ensure {p : Prop} [Decidable p] (h : p) : (ensure p).run rest = some ((), rest) := by
  rw [ensure, if_pos h]
  rfl

theorem run_ensure_of_not {p : Prop} [Decidable p] (h : ¬ p) : (ensure p).run rest = none := by
  rw [ensure, if_neg h]
  rfl

theorem run_signs_append (cs : List Char) : (signs cs).run (cs ++ rest) = some ((), rest) := by
  induction cs with
  | nil => rfl
  | cons c cs ih => simpa [signs, run_ensure] using ih

theorem run_signs_of_not_prefix {cs : List Char} (h : ¬ cs <+: rest) : (signs cs).run rest = none := by
  induction cs generalizing rest with
  | nil => exact absurd List.nil_prefix h
  | cons c cs ih =>
    cases rest with
    | nil => rfl
    | cons d rest =>
      by_cases heq : d = c
      · subst heq
        simpa [signs, run_ensure] using ih fun hprefix => h (List.cons_prefix_cons.mpr ⟨rfl, hprefix⟩)
      · simp [signs, run_ensure_of_not heq]

@[simp] theorem run_literal_append (text : String) : (literal text).run (text.toList ++ rest) = some ((), rest) :=
  run_signs_append text.toList

/-- Neither text is the front of the other. -/
def Clash (text front : String) : Prop := ¬ text.toList <+: front.toList ∧ ¬ front.toList <+: text.toList

instance (text front : String) : Decidable (Clash text front) := inferInstanceAs (Decidable (_ ∧ _))

namespace Clash

variable {text front : String}

theorem literal {cs ds : List Char} (h : ¬ cs <+: ds ∧ ¬ ds <+: cs) :
    Clash (String.ofList cs) (String.ofList ds) := by
  rwa [Clash, String.toList_ofList, String.toList_ofList]

theorem not_prefix_append (h : Clash text front) (cs : List Char) : ¬ text.toList <+: front.toList ++ cs :=
  fun hprefix => (List.prefix_or_prefix_of_prefix hprefix (List.prefix_append _ cs)).elim h.1 h.2

theorem append (h : Clash text front) (more : String) : Clash (text ++ more) front := by
  rw [Clash, String.toList_append]
  refine ⟨fun hprefix => h.1 ((List.prefix_append _ _).trans hprefix), fun hprefix => ?_⟩
  exact (List.prefix_or_prefix_of_prefix (List.prefix_append _ _) hprefix).elim h.1 h.2

end Clash

/-- Nothing is read unless it begins with one of the texts. -/
def Begins (r : Reader α) (texts : List String) : Prop :=
  ∀ front, (∀ text ∈ texts, Clash text front) → ∀ rest, r.run (front.toList ++ rest) = none

theorem Begins.run_eq_none {r : Reader α} {texts : List String} (h : Begins r texts) {front : String}
    (hclash : ∀ text ∈ texts, Clash text front) : r.run (front.toList ++ rest) = none :=
  h front hclash rest

theorem Begins.run_append_eq_none {r : Reader α} {texts : List String} (h : Begins r texts) (front : String)
    (hclash : ∀ text ∈ texts, Clash text front) (more : String) :
    r.run ((front ++ more).toList ++ rest) = none := by
  rw [String.toList_append, List.append_assoc]
  exact h.run_eq_none hclash

theorem run_literal_of_clash {text front : String} (h : Clash text front) (rest : List Char) :
    (literal text).run (front.toList ++ rest) = none :=
  run_signs_of_not_prefix (h.not_prefix_append rest)

theorem begins_literal (text : String) : Begins (literal text) [text] := fun _ hclash =>
  run_literal_of_clash (hclash text (List.mem_singleton_self text))

theorem begins_literal_append (text more : String) : Begins (literal (text ++ more)) [text] := fun _ hclash =>
  run_literal_of_clash ((hclash text (List.mem_singleton_self text)).append more)

theorem Begins.bind {r : Reader α} {texts : List String} (h : Begins r texts) (f : α → Reader β) :
    Begins (r >>= f) texts := fun front hclash rest => by
  rw [StateT.run_bind, h.run_eq_none hclash]
  rfl

theorem Begins.orElse {r r' : Reader α} {texts texts' : List String} (h : Begins r texts) (h' : Begins r' texts') :
    Begins (r <|> r') (texts ++ texts') := fun front hclash rest => by
  obtain ⟨hleft, hright⟩ := List.forall_mem_append.mp hclash
  rw [StateT.run_orElse, h.run_eq_none hleft, h'.run_eq_none hright]
  rfl

end Literals

section Words

/-- What follows a word begins with another sign. -/
def Stops (p : Char → Bool) (stop : String) : Prop := stop.toList.head?.any fun c => !p c

instance (p : Char → Bool) (stop : String) : Decidable (Stops p stop) := inferInstanceAs (Decidable (_ = true))

theorem run_span {p : Char → Bool} {front : List Char} (hfront : ∀ c ∈ front, p c) {stop : String}
    (hstop : Stops p stop) :
    (span p).run (front ++ (stop.toList ++ rest)) = some (String.ofList front, stop.toList ++ rest) := by
  obtain ⟨c, hhead, hc⟩ := (Option.any_eq_true _ _).mp hstop
  obtain ⟨more, hmore⟩ := List.head?_eq_some_iff.mp hhead
  rw [Bool.not_eq_true'] at hc
  simp [span, hmore, List.takeWhile_append_of_pos hfront, List.dropWhile_append_of_pos hfront, hc]

theorem run_numeral {stop : String} (hstop : Stops isNumeric stop) (n : Int) :
    numeral.run (n.repr.toList ++ (stop.toList ++ rest)) = some (n, stop.toList ++ rest) := by
  have hdigits : ∀ c ∈ n.repr.toList, isNumeric c := by
    intro c hmem
    by_contra hno
    simp only [isNumeric, Bool.or_eq_true, beq_iff_eq, not_or, Bool.not_eq_true] at hno
    exact notMem_toList_repr_int hno.1 hno.2 n hmem
  simp [numeral, run_span hdigits hstop, Int.toInt?_repr, run_ensure]

theorem run_index {stop : String} (hstop : Stops isNumeric stop) (n : Nat) :
    index.run (Nat.toDigits 10 n ++ (stop.toList ++ rest)) = some (n, stop.toList ++ rest) := by
  have hnumeral : numeral.run (n.repr.toList ++ (stop.toList ++ rest)) = some ((n : Int), stop.toList ++ rest) :=
    run_numeral hstop n
  rw [Nat.toList_repr] at hnumeral
  simp [index, hnumeral, Int.toNat?]

theorem exists_directionConstant_eq (d : Direction) : ∃ word, directionConstant d = "Direction." ++ word ∧
    word.toList.all Char.isAlpha ∧ directionNames.lookup word = some d := by
  cases d
  · exact ⟨"NORTH", by decide⟩
  · exact ⟨"NORTHEAST", by decide⟩
  · exact ⟨"EAST", by decide⟩
  · exact ⟨"SOUTHEAST", by decide⟩
  · exact ⟨"SOUTH", by decide⟩
  · exact ⟨"SOUTHWEST", by decide⟩
  · exact ⟨"WEST", by decide⟩
  · exact ⟨"NORTHWEST", by decide⟩
  · exact ⟨"CENTER", by decide⟩

theorem run_direction {stop : String} (hstop : Stops Char.isAlpha stop) (d : Direction) :
    direction.run ((directionConstant d).toList ++ (stop.toList ++ rest)) = some (d, stop.toList ++ rest) := by
  obtain ⟨word, htext, hword, hlookup⟩ := exists_directionConstant_eq d
  simp [-String.reduceToList, direction, htext, run_span (List.all_eq_true.mp hword) hstop, hlookup]

theorem toList_slot (array : String) (cell : Nat) :
    (slot array cell).toList = array.toList ++ ("[".toList ++ (Nat.toDigits 10 cell ++ "]".toList)) := by
  simp [slot]

@[simp] theorem run_entry (array : String) (cell : Nat) :
    (entry array).run ((slot array cell).toList ++ rest) = some (cell, rest) := by
  simp [-String.reduceToList, toList_slot, entry, run_index (show Stops isNumeric "]" by decide)]

theorem Begins.run_slot {r : Reader α} {texts : List String} (h : Begins r texts) {array : String}
    (hclash : ∀ text ∈ texts, Clash text array) (cell : Nat) :
    r.run ((slot array cell).toList ++ rest) = none := by
  rw [toList_slot, List.append_assoc]
  exact h.run_eq_none hclash

end Words

section Beginnings

theorem begins_entry (array : String) : Begins (entry array) [array] := (begins_literal array).bind _

theorem begins_name : Begins name ["origin", "target", "next", "safe"] :=
  ((begins_literal _).bind _).orElse (((begins_literal _).bind _).orElse (((begins_literal _).bind _).orElse
    ((begins_literal _).bind _)))

theorem begins_spot : Begins spot ["rc.getLocation()", "origin", "target", "next", "safe", "loc"] :=
  ((begins_literal _).bind _).orElse ((begins_name.bind _).orElse ((begins_entry _).bind _))

theorem begins_place : Begins place ["rc.getLocation()", "origin", "target", "next", "safe", "loc"] :=
  begins_spot.bind _

theorem begins_direction : Begins direction ["Direction."] := (begins_literal _).bind _

theorem begins_number :
    Begins number ["UNREACHED", "UNSENSED_COST", "STEP_COST", "pathLength", "cost", "rc.senseRubble("] :=
  (((begins_literal _).bind _).orElse (((begins_literal _).bind _).orElse (((begins_literal _).bind _).orElse
    (((begins_entry _).bind _).orElse (((begins_entry _).bind _).orElse ((begins_literal _).bind _)))))).bind _

end Beginnings

end Reader

def Place.Spot : Place → Prop
  | agent | var _ | cell _ => True
  | step _ _ | stepTowards _ _ => False

/-- The place is at most one step from another one. -/
def Place.Legible : Place → Prop
  | step start _ => start.Spot
  | stepTowards start goal => start.Spot ∧ goal.Spot
  | agent | var _ | cell _ => True

def Number.Term : Number → Prop
  | rubble place => place.Spot
  | sum _ _ => False
  | unreached | unsensedCost | stepCost | length _ | cost _ => True

def Number.Legible : Number → Prop
  | sum left right => left.Term ∧ right.Term
  | rubble place => place.Spot
  | unreached | unsensedCost | stepCost | length _ | cost _ => True

def Condition.Legible : Condition → Prop
  | same left right | beyond left right _ | within left right _ => left.Spot ∧ right.Spot
  | enterable place => place.Spot
  | less left right => left.Legible ∧ right.Legible
  | present _ => True

namespace Reader

variable {rest : List Char}

section Expressions

@[simp] theorem run_name (v : Variable) : name.run (v.text.toList ++ rest) = some (v, rest) := by
  cases v <;>
    simp (disch := decide) [-String.reduceToList, name, Variable.text, run_literal_of_clash]

@[simp] theorem run_axis (a : Axis) : axis.run (a.text.toList ++ rest) = some (a, rest) := by
  cases a <;>
    simp (disch := decide) [-String.reduceToList, axis, Axis.text, run_literal_of_clash]

@[simp] theorem run_spot {p : Place} (h : p.Spot) : spot.run (p.text.toList ++ rest) = some (p, rest) := by
  cases p with
  | agent => simp [-String.reduceToList, spot, Place.text]
  | var v =>
    have hname : (literal "rc.getLocation()").run (v.text.toList ++ rest) = none := by
      cases v <;> exact run_literal_of_clash (by decide) rest
    simp [-String.reduceToList, spot, Place.text, hname]
  | cell cell =>
    simp (disch := decide) [-String.reduceToList, spot, Place.text, begins_name.run_slot, (begins_literal _).run_slot]
  | step | stepTowards => cases h

theorem Begins.run_spot {r : Reader α} {texts : List String} (h : Begins r texts) {p : Place} (hp : p.Spot)
    (hclash : ∀ front ∈ ["rc.getLocation()", "origin", "target", "next", "safe", "loc"], ∀ text ∈ texts,
      Clash text front) : r.run (p.text.toList ++ rest) = none := by
  cases p with
  | agent => exact h.run_eq_none (hclash _ (by decide))
  | var v => cases v <;> exact h.run_eq_none (hclash _ (by decide))
  | cell cell => exact h.run_slot (hclash _ (by decide)) cell
  | step | stepTowards => cases hp

theorem run_place {p : Place} (h : p.Legible) :
    place.run (p.text.toList ++ (";".toList ++ rest)) = some (p, ";".toList ++ rest) := by
  have hend : (literal ".add(").run (";".toList ++ rest) = none := run_literal_of_clash (by decide) _
  have hspot (h : p.Spot) : place.run (p.text.toList ++ (";".toList ++ rest)) = some (p, ";".toList ++ rest) := by
    simp [-String.reduceToList, place, stepFrom, h, hend]
  cases p with
  | step start d =>
    have hstart : start.Spot := h
    simp [-String.reduceToList, place, stepFrom, Place.text, hstart,
      run_direction (show Stops Char.isAlpha ")" by decide)]
  | stepTowards start goal =>
    obtain ⟨hstart, hgoal⟩ := h
    simp [-String.reduceToList, place, stepFrom, Place.text, hstart, hgoal,
      begins_direction.run_spot hstart (by decide), run_ensure]
  | agent | var | cell => exact hspot trivial

theorem run_term {n : Number} (h : n.Term) : term.run (n.text.toList ++ rest) = some (n, rest) := by
  cases n with
  | unreached =>
    change term.run ("UNREACHED".toList ++ rest) = _
    simp [-String.reduceToList, term]
  | unsensedCost =>
    change term.run ("UNSENSED_COST".toList ++ rest) = _
    simp (disch := decide) [-String.reduceToList, term, run_literal_of_clash]
  | stepCost =>
    change term.run ("STEP_COST".toList ++ rest) = _
    simp (disch := decide) [-String.reduceToList, term, run_literal_of_clash]
  | length cell =>
    change term.run ((slot "pathLength" cell).toList ++ rest) = _
    simp (disch := decide) [-String.reduceToList, term, (begins_literal _).run_slot]
  | cost cell =>
    change term.run ((slot "cost" cell).toList ++ rest) = _
    simp (disch := decide) [-String.reduceToList, term, (begins_literal _).run_slot, (begins_entry _).run_slot]
  | rubble place =>
    have hplace : place.Spot := h
    change term.run (("rc.senseRubble(" ++ place.text ++ ")").toList ++ rest) = _
    simp (disch := decide) [-String.reduceToList, term, run_literal_of_clash, (begins_entry _).run_eq_none,
      run_spot hplace]
  | sum => cases h

theorem run_number {n : Number} (h : n.Legible) (hrest : (literal " + ").run rest = none) :
    number.run (n.text.toList ++ rest) = some (n, rest) := by
  have hterm (h : n.Term) : number.run (n.text.toList ++ rest) = some (n, rest) := by
    simp [-String.reduceToList, number, run_term h, hrest]
  cases n with
  | sum left right =>
    obtain ⟨hleft, hright⟩ := h
    change number.run ((left.text ++ " + " ++ right.text).toList ++ rest) = _
    simp [-String.reduceToList, number, run_term hleft, run_term hright]
  | rubble place => exact hterm h
  | unreached | unsensedCost | stepCost | length | cost => exact hterm trivial

theorem run_heading (h : Heading) :
    heading.run (h.text.toList ++ (";".toList ++ rest)) = some (h, ";".toList ++ rest) := by
  cases h with
  | fixed d =>
    simp [-String.reduceToList, heading, Heading.text, run_direction (show Stops Char.isAlpha ";" by decide)]
  | best cell =>
    simp (disch := decide) [-String.reduceToList, heading, Heading.text, begins_direction.run_slot]

theorem begins_less :
    Begins less ["UNREACHED", "UNSENSED_COST", "STEP_COST", "pathLength", "cost", "rc.senseRubble("] :=
  begins_number.bind _

theorem begins_enterable : Begins enterable ["rc.onTheMap("] := (begins_literal _).bind _

/-- What begins with a place is no comparison of numbers, and no test that names its place later. -/
theorem run_condition_spot {p : Place} (h : p.Spot) {stop : String} (hstop : Clash " != null" stop) :
    condition.run (p.text.toList ++ (stop.toList ++ rest)) =
      (same <|> distance).run (p.text.toList ++ (stop.toList ++ rest)) := by
  have hpresent : present.run (p.text.toList ++ (stop.toList ++ rest)) = none := by
    have hentry : Begins present ["loc"] := (begins_entry _).bind _
    cases p with
    | agent => exact hentry.run_eq_none (by decide)
    | var v => cases v <;> exact hentry.run_eq_none (by decide)
    | cell cell => simp [-String.reduceToList, present, Place.text, run_literal_of_clash hstop]
    | step | stepTowards => cases h
  simp [-String.reduceToList, condition, begins_less.run_spot h (by decide), begins_enterable.run_spot h (by decide),
    hpresent]

theorem run_condition {c : Condition} (h : c.Legible) :
    condition.run (c.text.toList ++ (")".toList ++ rest)) = some (c, ")".toList ++ rest) := by
  have hend : (literal " + ").run (")".toList ++ rest) = none := run_literal_of_clash (by decide) _
  have hstop : Stops isNumeric ")" := by decide
  cases c with
  | same left right =>
    obtain ⟨hleft, hright⟩ := h
    change condition.run ((left.text ++ ".equals(" ++ right.text ++ ")").toList ++ (")".toList ++ rest)) = _
    simp (disch := decide) [-String.reduceToList, run_condition_spot hleft, same, run_spot hleft, run_spot hright]
  | beyond left right radius =>
    obtain ⟨hleft, hright⟩ := h
    change condition.run ((left.text ++ ".distanceSquaredTo(" ++ right.text ++ ") > " ++ toString radius).toList ++
      (")".toList ++ rest)) = _
    simp (disch := decide) [-String.reduceToList, run_condition_spot hleft, same, distance, run_spot hleft,
      run_spot hright, run_literal_of_clash, run_index hstop]
  | within left right radius =>
    obtain ⟨hleft, hright⟩ := h
    change condition.run ((left.text ++ ".distanceSquaredTo(" ++ right.text ++ ") <= " ++ toString radius).toList ++
      (")".toList ++ rest)) = _
    simp (disch := decide) [-String.reduceToList, run_condition_spot hleft, same, distance, run_spot hleft,
      run_spot hright, run_literal_of_clash, run_index hstop]
  | enterable place =>
    have hplace : place.Spot := h
    change condition.run
      (("rc.onTheMap(" ++ place.text ++ ") && !rc.isLocationOccupied(" ++ place.text ++ ")").toList ++
        (")".toList ++ rest)) = _
    simp (disch := decide) [-String.reduceToList, condition, begins_less.run_eq_none, enterable, run_spot hplace,
      run_ensure (Eq.refl place)]
  | present cell =>
    change condition.run ((slot "loc" cell ++ " != null").toList ++ (")".toList ++ rest)) = _
    simp (disch := decide) [-String.reduceToList, condition, begins_less.run_slot, begins_enterable.run_slot, present]
  | less left right =>
    obtain ⟨hleft, hright⟩ := h
    have hmiddle : (literal " + ").run (" < ".toList ++ (right.text.toList ++ (")".toList ++ rest))) = none :=
      run_literal_of_clash (by decide) _
    change condition.run ((left.text ++ " < " ++ right.text).toList ++ (")".toList ++ rest)) = _
    simp [-String.reduceToList, condition, less, run_number hleft hmiddle, run_number hright hend]

end Expressions

section Statements

theorem run_statement_declare (v : Variable) {p : Place} (h : p.Legible) :
    statement.run (("MapLocation " ++ v.text ++ " = " ++ p.text ++ ";").toList ++ rest) =
      some (.declare v p, rest) := by
  simp [-String.reduceToList, statement, store, declare, run_place h]

theorem run_statement_assign (v : Variable) {p : Place} (h : p.Legible) :
    statement.run ((v.text ++ " = " ++ p.text ++ ";").toList ++ rest) = some (.assign v p, rest) := by
  have hdeclare (cs : List Char) : declare.run (v.text.toList ++ cs) = none := by
    cases v <;> exact ((begins_literal _).bind _).run_eq_none (by decide)
  simp [-String.reduceToList, statement, store, hdeclare, assign, run_place h]

section Stores

variable {cell : Nat}

/-- An entry of an array is no variable. -/
theorem run_statement_slot {array : String}
    (h : ∀ text ∈ ["MapLocation ", "origin", "target", "next", "safe"], Clash text array) :
    statement.run ((slot array cell).toList ++ rest) = (record <|> jump).run ((slot array cell).toList ++ rest) := by
  obtain ⟨hhead, hnames⟩ := List.forall_mem_cons.mp h
  have hdeclare : declare.run ((slot array cell).toList ++ rest) = none :=
    ((begins_literal _).bind _).run_slot (List.forall_mem_singleton.mpr hhead) cell
  have hassign : assign.run ((slot array cell).toList ++ rest) = none := (begins_name.bind _).run_slot hnames cell
  simp [-String.reduceToList, statement, store, hdeclare, hassign]

theorem run_statement_setPlace {p : Place} (h : p.Legible) :
    statement.run ((slot "loc" cell ++ " = " ++ p.text ++ ";").toList ++ rest) = some (.setPlace cell p, rest) := by
  simp (disch := decide) [-String.reduceToList, run_statement_slot, record, setPlace, run_place h]

theorem run_statement_clearPlace :
    statement.run ((slot "loc" cell ++ " = null;").toList ++ rest) = some (.clearPlace cell, rest) := by
  -- The array is that of a place, but nothing that is put into it begins like this.
  have hset : setPlace.run ((slot "loc" cell).toList ++ (" = null;".toList ++ rest)) = none := by
    rw [show " = null;" = " = " ++ "null;" by decide, String.toList_append, List.append_assoc]
    simp (disch := decide) [-String.reduceToList, setPlace, begins_place.run_eq_none]
  simp (disch := decide) [-String.reduceToList, run_statement_slot, record, hset, clearPlace]

theorem run_statement_setLength {n : Number} (h : n.Legible) :
    statement.run ((slot "pathLength" cell ++ " = " ++ n.text ++ ";").toList ++ rest) =
      some (.setLength cell n, rest) := by
  have hnumber := run_number h (run_literal_of_clash (show Clash " + " ";" by decide) rest)
  simp (disch := decide) [-String.reduceToList, run_statement_slot, record, setPlace, clearPlace, setLength, hnumber,
    (begins_entry _).run_slot]

theorem run_statement_setCost {n : Number} (h : n.Legible) :
    statement.run ((slot "cost" cell ++ " = " ++ n.text ++ ";").toList ++ rest) = some (.setCost cell n, rest) := by
  have hnumber := run_number h (run_literal_of_clash (show Clash " + " ";" by decide) rest)
  simp (disch := decide) [-String.reduceToList, run_statement_slot, record, setPlace, clearPlace, setLength, setCost,
    hnumber, (begins_entry _).run_slot]

theorem run_statement_setBest (h : Heading) :
    statement.run ((slot "bestDir" cell ++ " = " ++ h.text ++ ";").toList ++ rest) = some (.setBest cell h, rest) := by
  simp (disch := decide) [-String.reduceToList, run_statement_slot, record, setPlace, clearPlace, setLength, setCost,
    setBest, (begins_entry _).run_slot, run_heading]

end Stores

theorem begins_store :
    Begins store ["MapLocation ", "origin", "target", "next", "safe", "loc", "loc", "pathLength", "cost", "bestDir"] :=
  ((begins_literal _).bind _).orElse ((begins_name.bind _).orElse (((begins_entry _).bind _).orElse
    (((begins_entry _).bind _).orElse (((begins_entry _).bind _).orElse (((begins_entry _).bind _).orElse
      ((begins_entry _).bind _))))))

theorem begins_jump : Begins jump ["break;", "return ", "return ", "throw "] :=
  ((begins_literal _).bind _).orElse
    (((begins_literal_append "return "
      "bestDirection(target.x - origin.x, target.y - origin.y, bestDir).opposite();").bind _).orElse
      (((begins_literal _).bind _).orElse
        ((begins_literal_append "throw " "new IllegalStateException(\"offset (\" + dx + \",\" + dy + ").bind _)))

def statementFronts : List String :=
  ["MapLocation ", "origin", "target", "next", "safe", "loc", "loc", "pathLength", "cost", "bestDir", "break;",
    "return ", "return ", "throw "]

theorem begins_statement : Begins statement statementFronts := begins_store.orElse begins_jump

theorem run_statement_leave : statement.run ("break;".toList ++ rest) = some (.leave, rest) := by
  simp (disch := decide) [-String.reduceToList, statement, begins_store.run_eq_none, jump, leave]

theorem run_statement_answerFromTable : statement.run
    ("return bestDirection(target.x - origin.x, target.y - origin.y, bestDir).opposite();".toList ++ rest) =
      some (.answerFromTable, rest) := by
  have hstore : store.run
      ("return bestDirection(target.x - origin.x, target.y - origin.y, bestDir).opposite();".toList ++ rest) = none :=
    begins_store.run_append_eq_none "return " (by decide)
      "bestDirection(target.x - origin.x, target.y - origin.y, bestDir).opposite();"
  have hleave : (literal "break;").run
      ("return bestDirection(target.x - origin.x, target.y - origin.y, bestDir).opposite();".toList ++ rest) = none :=
    run_literal_of_clash (.literal (by decide)) rest
  simp [-String.reduceToList, statement, hstore, jump, leave, hleave, answerFromTable]

theorem run_statement_answer (h : Heading) :
    statement.run (("return " ++ h.text ++ ";").toList ++ rest) = some (.answer h, rest) := by
  -- The two ways to return are told apart only where the table is called.
  have htable : answerFromTable.run ("return ".toList ++ (h.text.toList ++ (";".toList ++ rest))) = none := by
    obtain ⟨front, more, hfront, hclash⟩ : ∃ front more, "return " ++ h.text = front ++ more ∧
        Clash "return bestDirection(target.x - origin.x, target.y - origin.y, bestDir).opposite();" front := by
      cases h with
      | fixed d =>
        obtain ⟨word, hword, -⟩ := exists_directionConstant_eq d
        refine ⟨"return Direction.", word, ?_, .literal (by decide)⟩
        simp [Heading.text, hword, ← String.append_assoc]
      | best cell =>
        refine ⟨"return bestDir[", toString cell ++ "]", ?_, .literal (by decide)⟩
        simp [Heading.text, slot, ← String.append_assoc]
    rw [← List.append_assoc, ← String.toList_append, hfront]
    exact ((begins_literal _).bind _).run_append_eq_none front (List.forall_mem_singleton.mpr hclash) more
  simp (disch := decide) [-String.reduceToList, statement, begins_store.run_eq_none, jump, leave, htable, answer,
    run_literal_of_clash, run_heading]

theorem run_statement_fail :
    statement.run (("throw new IllegalStateException(\"offset (\" + dx + \",\" + dy + " ++
      "\") lies outside the visibility window\");").toList ++ rest) = some (.fail, rest) := by
  have hstore (cs : List Char) :
      store.run ("throw new IllegalStateException(\"offset (\" + dx + \",\" + dy + ".toList ++ cs) = none :=
    begins_store.run_append_eq_none "throw " (by decide)
      "new IllegalStateException(\"offset (\" + dx + \",\" + dy + "
  have hclash (text : String) (h : Clash text "throw new IllegalStateException(\"offset (\" + dx + \",\" + dy + ")
      (cs : List Char) := run_literal_of_clash h cs
  rw [String.toList_append, List.append_assoc]
  simp [-String.reduceToList, statement, hstore, jump, leave, answerFromTable, answer, fail,
    hclash "break;" (.literal (by decide)),
    hclash "return bestDirection(target.x - origin.x, target.y - origin.y, bestDir).opposite();"
      (.literal (by decide)),
    hclash "return " (.literal (by decide))]

end Statements

end Reader

end GridRoute.Program
