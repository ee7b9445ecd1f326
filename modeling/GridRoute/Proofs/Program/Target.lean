import GridRoute.Proofs.Clamp
import GridRoute.Proofs.Program.Running

/-!
What a running program does with its target. Statements that are each guarded by the same test pull it into
the window as a walk does that ends where the test first fails, and nested switches find its cell as the
table does.
-/

namespace GridRoute

open Sequencing

namespace Program

variable {s : Scope} {lookup : Lookup} {m m' : Memory}

section Pulling

variable {start goal safe next : Position}

def pullStatement (radius : Nat) : Statement :=
  .when (.within (.var .origin) (.var .next) radius)
    [.assign .safe (.var .next), .assign .next (.stepTowards (.var .next) (.var .target))]

structure Walking (start goal safe next : Position) (m : Memory) : Prop where
  origin : m.place .origin = some start
  target : m.place .target = some goal
  safe : m.place .safe = some safe
  next : m.place .next = some next

theorem eval_var {v : Variable} {q : Position} (h : m.place v = some q) :
    (Place.var v).eval s m = .ok q := by
  rw [Place.eval, h]
  rfl

theorem eval_stepTowards {here there : Variable} {p q : Position} (hp : m.place here = some p)
    (hq : m.place there = some q) (hstep : p.step (p.headingTo q) = .ok (p.towards q)) :
    (Place.stepTowards (.var here) (.var there)).eval s m = .ok (p.towards q) := by
  rw [Place.eval, eval_var hp, ok_bind, eval_var hq, ok_bind, hstep]
  rfl

theorem eval_same {left right : Variable} {p q : Position} (hp : m.place left = some p)
    (hq : m.place right = some q) :
    (Condition.same (.var left) (.var right)).eval s m = .ok (decide (p = q)) := by
  rw [Condition.eval, eval_var hp, ok_bind, eval_var hq]
  rfl

theorem eval_within {left right : Variable} {p q : Position} {n : Nat}
    (hp : m.place left = some p) (hq : m.place right = some q) (hn : p.distanceSquared q = .ok n)
    (radius : Nat) :
    (Condition.within (.var left) (.var right) radius).eval s m = .ok (decide (n ≤ radius)) := by
  rw [Condition.eval, eval_var hp, ok_bind, eval_var hq, ok_bind, hn]
  rfl

theorem eval_beyond {left right : Variable} {p q : Position} {n : Nat}
    (hp : m.place left = some p) (hq : m.place right = some q) (hn : p.distanceSquared q = .ok n)
    (radius : Nat) :
    (Condition.beyond (.var left) (.var right) radius).eval s m = .ok (decide (radius < n)) := by
  rw [Condition.eval, eval_var hp, ok_bind, eval_var hq, ok_bind, hn]
  rfl

theorem Walking.pull (h : Walking start goal safe next m) (apart : Position.Apart start goal)
    (honWay : Position.OnWay start goal next) :
    ∃ m', Runs s lookup [.assign .safe (.var .next),
        .assign .next (.stepTowards (.var .next) (.var .target))] m m' ∧
      Walking start goal next (next.towards goal) m' := by
  have hstep := Position.step_headingTo honWay.towards apart
  have hkept := Walking.mk (m := m.assign .safe next) h.origin h.target rfl h.next
  refine ⟨_, .cons (run_assign h.safe (eval_var h.next)) (.cons (run_assign hkept.next
    (eval_stepTowards hkept.next hkept.target hstep)) .nil), h.origin, h.target, rfl, rfl⟩

variable (s lookup) in
/-- Once a place is out of sight, no later step moves on. -/
theorem Walking.exists_runs_pulls (h : Walking start goal safe next m)
    (apart : Position.Apart start goal) (honWay : Position.OnWay start goal next)
    (radius steps : Nat) :
    ∃ m' last, Runs s lookup (List.replicate steps (pullStatement radius)) m m' ∧
      Walking start goal (Position.pulled start goal radius steps safe next) last m' := by
  induction steps generalizing m safe next with
  | zero => exact ⟨m, next, .nil, h⟩
  | succ steps ih =>
    have hcondition := eval_within (s := s) h.origin h.next (honWay.distanceSquared_eq apart) radius
    rw [List.replicate_succ, Position.pulled]
    by_cases hinside : (start.offsetTo next).norm ≤ radius
    · obtain ⟨middle, hpull, hmiddle⟩ := h.pull apart honWay
      obtain ⟨m', last, hruns, hlast⟩ := ih hmiddle honWay.towards
      rw [if_pos hinside]
      refine ⟨m', last, .cons ?_ hruns, hlast⟩
      rw [pullStatement, run_when hcondition, if_pos (decide_eq_true hinside)]
      exact hpull
    · obtain ⟨m', last, hruns, hlast⟩ := ih h honWay
      rw [Position.pulled_of_lt (Nat.lt_of_not_le hinside)] at hlast
      rw [if_neg hinside]
      refine ⟨m', last, .cons ?_ hruns, hlast⟩
      rw [pullStatement, run_when hcondition, if_neg (by simpa using hinside)]

variable (s lookup) in
theorem exists_runs_clamp (horigin : m.place .origin = some start)
    (htarget : m.place .target = some goal) (apart : Position.Apart start goal) (radius : Radius)
    (steps : Nat) :
    ∃ m', Runs s lookup (clampBody radius steps) m m' ∧ m'.place .origin = some start ∧
      m'.place .target = some (Position.clamped start goal radius.value steps) := by
  have hcondition := eval_beyond (s := s) horigin htarget
    ((Position.onWay_goal apart.ne).distanceSquared_eq apart) radius.value
  have honWay := Position.onWay_towards_start apart.ne
  rw [Position.clamped]
  by_cases hinside : (start.offsetTo goal).norm ≤ radius.value
  · rw [if_pos hinside]
    refine ⟨m, .cons run_note (.cons ?_ .nil), horigin, htarget⟩
    rw [run_when hcondition, if_neg (by simpa using hinside)]
  · have hstep := Position.step_headingTo honWay apart
    have hwalking : Walking start goal (start.towards goal) (start.towards goal)
        ((m.assign .next (start.towards goal)).assign .safe (start.towards goal)) :=
      ⟨horigin, htarget, rfl, rfl⟩
    obtain ⟨middle, last, hruns, hmiddle⟩ :=
      hwalking.exists_runs_pulls s lookup apart honWay radius.value steps
    rw [if_neg hinside]
    refine ⟨middle.assign .target _, .cons run_note (.cons ?_ .nil), hmiddle.origin, rfl⟩
    rw [run_when hcondition, if_pos (by simpa using hinside)]
    refine Runs.append (Runs.append ?_ hruns) (.cons (run_assign hmiddle.target
      (eval_var hmiddle.safe)) .nil)
    exact .cons (run_declare (eval_stepTowards horigin htarget hstep))
      (.cons (run_declare (eval_var rfl)) .nil)

end Pulling

section Lookup

/-- Entering a switch by the label of a case that does not go on to the next one. -/
theorem runCases_map {β : Type} {f : Int × β → Case} {entries : List (Int × β)} {value : Int} {b : β}
    {heading : Option Direction} (hlabel : ∀ entry, (f entry).label = Int32.ofInt entry.1)
    (fits : ∀ entry ∈ entries, Bounded.Fits entry.1) (hfound : entries.lookup value = some b)
    (hrun : (f (value, b)).run s lookup m = .ok (.answered heading, m')) :
    runCases s lookup (Int32.ofInt value) (entries.map f) m = .ok (.answered heading, m') := by
  obtain ⟨before, after, rfl, hbefore⟩ := List.lookup_eq_some_iff.mp hfound
  clear hfound
  have hvalue : Bounded.Fits value := fits (value, b) (by simp)
  induction before with
  | nil =>
    rw [List.nil_append, List.map_cons, runCases, if_pos (hlabel _), hrun]
    rfl
  | cons entry before ih =>
    have hne : (f entry).label ≠ Int32.ofInt value := by
      rw [hlabel, Ne, ofInt_inj (fits entry (by simp)) hvalue]
      exact fun heq => bne_iff_ne.mp (hbefore entry (by simp)) heq.symm
    rw [List.cons_append, List.map_cons, runCases, if_neg hne]
    exact ih (fun other hother => hbefore other (by simp [hother]))
      fun other hother => fits other (by simp at hother ⊢; tauto)

theorem run_switch {axis : Axis} {value : Int32} (haxis : s.axis axis = some value)
    {cases : List Case} {heading : Option Direction}
    (h : runCases s lookup value cases m = .ok (.answered heading, m')) :
    (Statement.switch axis cases).run s lookup m = .ok (.answered heading, m') := by
  rw [Statement.run, haxis]
  change runCases s lookup value cases m >>= _ = _
  rw [h]
  rfl

theorem run_answerFromTable {start goal : Position} (horigin : m.place .origin = some start)
    (htarget : m.place .target = some goal) {d : Direction}
    (h : lookup (Int32.ofInt (start.offsetTo goal).x) (Int32.ofInt (start.offsetTo goal).y) m.best =
      .ok (some d)) :
    Statement.answerFromTable.run s lookup m = .ok (.answered (some d.opposite), m) := by
  rw [Position.offsetTo, Int32.ofInt_sub, Int32.ofInt_sub] at h
  rw [Statement.run, htarget, horigin]
  change lookup _ _ _ >>= _ = _
  rw [h]
  rfl

end Lookup

end Program

namespace Pathfinder

open Program

theorem Serves.callTable_eq_ok {p : Pathfinder} {radius : Radius} (h : p.Serves radius)
    (robot : Robot) {o : Offset} {cell : Nat} (hcell : p.window.offset? cell = some o)
    {best : Array (Option Direction)} {heading : Option Direction} (hbest : best[cell]? = some heading) :
    p.callTable robot (Int32.ofInt o.x) (Int32.ofInt o.y) best = .ok heading := by
  have hlookup := (h.lookup_iff o cell).mpr hcell
  rw [TargetTable.lookup, TargetTable.rows] at hlookup
  obtain ⟨rows, hrows⟩ : ∃ rows, p.table.columns.lookup o.x = some rows := by
    cases hrows : p.table.columns.lookup o.x with
    | none => simp [hrows] at hlookup
    | some rows => exact ⟨rows, rfl⟩
  rw [hrows, Option.getD_some] at hlookup
  have hmem : (o.x, rows) ∈ p.table.columns := by
    obtain ⟨before, after, heq, -⟩ := List.lookup_eq_some_iff.mp hrows
    simp [heq]
  unfold callTable
  generalize hscope : (⟨robot, p.window.size, none, _⟩ : Scope) = s
  obtain ⟨m, hm, rfl⟩ : ∃ m : Memory, { Memory.empty with best := best } = m ∧ m.best = best :=
    ⟨_, rfl, rfl⟩
  rw [hm]
  have hrow : (Case.answer o.y (.best cell)).run s (fun _ _ _ => .error .malformed) m =
      .ok (.answered heading, m) := by
    rw [Case.run, Heading.eval, read_eq_ok hbest]
    rfl
  have hcolumn : (columnCase (o.x, rows)).run s (fun _ _ _ => .error .malformed) m =
      .ok (.answered heading, m) := by
    rw [columnCase, Case.run]
    exact runBody_cons_of_answered (run_switch (by rw [← hscope]) (runCases_map (fun _ => rfl)
      (h.table_fits _ hmem).2 hlookup hrow))
  have htable : runBody s (fun _ _ _ => .error .malformed) p.tableBody m =
      .ok (.answered heading, m) :=
    runBody_cons_of_answered (run_switch (by rw [← hscope]) (runCases_map (fun _ => rfl)
      (fun column hcolumn => (h.table_fits column hcolumn).1) hrows hcolumn))
  rw [answerOf, htable]
  rfl

end Pathfinder

end GridRoute
