import GridRoute.Proofs.Program.Execution

/-!
Running statements. What comes one after the other runs one after the other; a list of statements made from
a list of things, and a loop of a given number of rounds, run with an invariant.
-/

namespace GridRoute.Program

open Sequencing

section Values

variable {α : Type} {xs : Array α} {i : Nat}

theorem read_eq_ok {x : α} (h : xs[i]? = some x) : read xs i = .ok x := by
  rw [read, h]

theorem write_eq_ok (h : i < xs.size) (x : α) : write xs i x = .ok (xs.setIfInBounds i x) := if_pos h

theorem setIfInBounds_eq_self {x : α} (h : xs[i]? = some x) : xs.setIfInBounds i x = xs := by
  obtain ⟨hlt, rfl⟩ := Array.getElem?_eq_some_iff.mp h
  rw [Array.setIfInBounds_def, dif_pos hlt, Array.set_getElem_self]

theorem toInt_ofInt {n : Int} (h : Bounded.Fits n) : (Int32.ofInt n).toInt = n :=
  Int32.toInt_ofInt_of_le (by have := Bounded.fits_iff.mp h; omega)
    (by have := Bounded.fits_iff.mp h; omega)

theorem ofInt_lt_iff {a b : Int} (ha : Bounded.Fits a) (hb : Bounded.Fits b) :
    Int32.ofInt a < Int32.ofInt b ↔ a < b := by
  rw [Int32.lt_iff_toInt_lt, toInt_ofInt ha, toInt_ofInt hb]

theorem ofInt_inj {a b : Int} (ha : Bounded.Fits a) (hb : Bounded.Fits b) :
    Int32.ofInt a = Int32.ofInt b ↔ a = b := by
  rw [← Int32.toInt_inj, toInt_ofInt ha, toInt_ofInt hb]

theorem ofInt_toInt_add {a : Int32} {b : Int} :
    a + Int32.ofInt b = Int32.ofInt (a.toInt + b) := by
  rw [Int32.ofInt_add, Int32.ofInt_toInt]

end Values

variable {s : Scope} {lookup : Lookup} {m m' m'' : Memory}

def Runs (s : Scope) (lookup : Lookup) (body : List Statement) (m m' : Memory) : Prop :=
  runBody s lookup body m = .ok (.next, m')

theorem runBody_cons_of_run {statement : Statement} {rest : List Statement}
    (h : statement.run s lookup m = .ok (.next, m')) :
    runBody s lookup (statement :: rest) m = runBody s lookup rest m' := by
  rw [runBody, h]
  rfl

theorem runBody_cons_of_answered {statement : Statement} {rest : List Statement}
    {heading : Option Direction} (h : statement.run s lookup m = .ok (.answered heading, m')) :
    runBody s lookup (statement :: rest) m = .ok (.answered heading, m') := by
  rw [runBody, h]
  rfl

namespace Runs

theorem nil : Runs s lookup [] m m := by
  rw [Runs, runBody]

theorem cons {statement : Statement} {rest : List Statement}
    (h : statement.run s lookup m = .ok (.next, m')) (hrest : Runs s lookup rest m' m'') :
    Runs s lookup (statement :: rest) m m'' :=
  (runBody_cons_of_run h).trans hrest

theorem runBody_append {front rest : List Statement} (h : Runs s lookup front m m') :
    runBody s lookup (front ++ rest) m = runBody s lookup rest m' := by
  induction front generalizing m with
  | nil =>
    rw [Runs, runBody] at h
    cases h
    rfl
  | cons statement front ih =>
    rw [Runs, runBody] at h
    obtain ⟨⟨flow, middle⟩, hfirst, h⟩ := bind_eq_ok_iff.mp h
    cases flow with
    | next =>
      rw [List.cons_append, runBody_cons_of_run hfirst]
      exact ih h
    | left => cases h
    | answered heading => cases h

theorem append {front rest : List Statement} (h : Runs s lookup front m m')
    (hrest : Runs s lookup rest m' m'') : Runs s lookup (front ++ rest) m m'' :=
  h.runBody_append.trans hrest

end Runs

/-- The invariant may speak of the part of the list that is done. -/
theorem exists_runs_flatMap {α : Type} {f : α → List Statement} {xs : List α}
    (invariant : List α → Memory → Prop) (start : invariant [] m)
    (step : ∀ (done : List α) (x : α) (rest : List α) (m : Memory), xs = done ++ x :: rest →
      invariant done m → ∃ m', Runs s lookup (f x) m m' ∧ invariant (done ++ [x]) m') :
    ∃ m', Runs s lookup (xs.flatMap f) m m' ∧ invariant xs m' := by
  suffices h : ∀ (rest done : List α) (m : Memory), xs = done ++ rest → invariant done m →
      ∃ m', Runs s lookup (rest.flatMap f) m m' ∧ invariant xs m' from h xs [] m rfl start
  intro rest
  induction rest with
  | nil =>
    intro done m hxs hm
    rw [List.append_nil] at hxs
    exact ⟨m, .nil, hxs ▸ hm⟩
  | cons x rest ih =>
    intro done m hxs hm
    obtain ⟨middle, hfirst, hmiddle⟩ := step done x rest m hxs hm
    obtain ⟨last, hrest, hlast⟩ := ih (done ++ [x]) middle (by simp [hxs]) hmiddle
    exact ⟨last, List.flatMap_cons ▸ hfirst.append hrest, hlast⟩

/-- Statements made from a list do to the memory what a fold over the list does to a value it tracks. -/
theorem exists_runs_foldl {α σ : Type} {f : α → List Statement} {g : σ → α → σ}
    (tracks : Memory → σ → Prop) {xs : List α} {value : σ} (start : tracks m value)
    (step : ∀ x ∈ xs, ∀ (m : Memory) (value : σ), tracks m value →
      ∃ m', Runs s lookup (f x) m m' ∧ tracks m' (g value x)) :
    ∃ m', Runs s lookup (xs.flatMap f) m m' ∧ tracks m' (xs.foldl g value) := by
  refine exists_runs_flatMap (fun done m => tracks m (done.foldl g value)) start ?_
  intro done x rest m hxs hm
  rw [List.foldl_append]
  exact step x (by simp [hxs]) m _ hm

theorem run_note {text : String} : (Statement.note text).run s lookup m = .ok (.next, m) := by
  rw [Statement.run]

theorem run_gap : Statement.gap.run s lookup m = .ok (.next, m) := by
  rw [Statement.run]

theorem run_when {condition : Condition} {body : List Statement} {holds : Bool}
    (h : condition.eval s m = .ok holds) :
    (Statement.when condition body).run s lookup m =
      if holds then runBody s lookup body m else .ok (.next, m) := by
  rw [Statement.run, h]
  rfl

theorem run_choose {condition : Condition} {yes no : List Statement} {holds : Bool}
    (h : condition.eval s m = .ok holds) :
    (Statement.choose condition yes no).run s lookup m =
      if holds then runBody s lookup yes m else runBody s lookup no m := by
  rw [Statement.run, h]
  rfl

theorem run_allocate : Statement.allocate.run s lookup m =
    .ok (.next, {
      m with
      loc := Array.replicate s.cells none, length := Array.replicate s.cells 0,
      cost := Array.replicate s.cells 0, best := Array.replicate s.cells none }) := by
  rw [Statement.run]

section Assignments

variable {cell : Nat}

theorem run_assign {v : Variable} {place : Place} {old q : Position} (hold : m.place v = some old)
    (h : place.eval s m = .ok q) :
    (Statement.assign v place).run s lookup m = .ok (.next, m.assign v q) := by
  rw [Statement.run, hold, h]
  rfl

theorem run_declare {v : Variable} {place : Place} {q : Position} (h : place.eval s m = .ok q) :
    (Statement.declare v place).run s lookup m = .ok (.next, m.assign v q) := by
  rw [Statement.run, h]
  rfl

theorem run_setPlace {place : Place} {q : Position} (h : place.eval s m = .ok q)
    (hlt : cell < m.loc.size) : (Statement.setPlace cell place).run s lookup m =
      .ok (.next, { m with loc := m.loc.setIfInBounds cell (some q) }) := by
  rw [Statement.run, h, ok_bind, write_eq_ok hlt]
  rfl

theorem run_clearPlace (hlt : cell < m.loc.size) : (Statement.clearPlace cell).run s lookup m =
    .ok (.next, { m with loc := m.loc.setIfInBounds cell none }) := by
  rw [Statement.run, write_eq_ok hlt]
  rfl

theorem run_setLength {number : Number} {n : Int32} (h : number.eval s m = .ok n)
    (hlt : cell < m.length.size) : (Statement.setLength cell number).run s lookup m =
      .ok (.next, { m with length := m.length.setIfInBounds cell n }) := by
  rw [Statement.run, h, ok_bind, write_eq_ok hlt]
  rfl

theorem run_setCost {number : Number} {n : Int32} (h : number.eval s m = .ok n)
    (hlt : cell < m.cost.size) : (Statement.setCost cell number).run s lookup m =
      .ok (.next, { m with cost := m.cost.setIfInBounds cell n }) := by
  rw [Statement.run, h, ok_bind, write_eq_ok hlt]
  rfl

theorem run_setBest {heading : Heading} {d : Option Direction} (h : heading.eval m = .ok d)
    (hlt : cell < m.best.size) : (Statement.setBest cell heading).run s lookup m =
      .ok (.next, { m with best := m.best.setIfInBounds cell d }) := by
  rw [Statement.run, h, ok_bind, write_eq_ok hlt]
  rfl

end Assignments

theorem exists_loop_eq_ok {bound : Int32} {body : Memory → Result} {rounds : Nat}
    (hbound : bound.toInt = rounds) (invariant : Nat → Memory → Prop) (start : invariant 0 m)
    (step : ∀ (round : Nat) (m : Memory), invariant round m →
      ∃ m', body m = .ok (.next, m') ∧ invariant (round + 1) m') :
    ∃ m', loop bound body 0 m = .ok (.next, m') ∧ invariant rounds m' := by
  suffices h : ∀ (left round : Nat) (counter : Int32) (m : Memory), round + left = rounds →
      counter.toInt = round → invariant round m →
      ∃ m', loop bound body counter m = .ok (.next, m') ∧ invariant rounds m' from
    h rounds 0 0 m (Nat.zero_add rounds) rfl start
  intro left
  induction left with
  | zero =>
    intro round counter m hleft hcounter hm
    rw [loop, dif_neg (by rw [Int32.lt_iff_toInt_lt]; omega)]
    exact ⟨m, rfl, by rwa [← hleft, Nat.add_zero]⟩
  | succ left ih =>
    intro round counter m hleft hcounter hm
    have hlt : counter < bound := by
      rw [Int32.lt_iff_toInt_lt]
      omega
    obtain ⟨middle, hbody, hmiddle⟩ := step round m hm
    rw [loop, dif_pos hlt, hbody, ok_bind]
    exact ih (round + 1) (counter + 1) middle (by omega)
      (by rw [toInt_add_one_of_lt hlt]; omega) hmiddle

end GridRoute.Program
