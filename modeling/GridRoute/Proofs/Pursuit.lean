import GridRoute.Walk
import GridRoute.Proofs.Move
import GridRoute.Proofs.PlainBoard

/-!
Pursuit of a target on a plain board. Every tick looks around anew and pulls the target into sight anew. But what
the target is pulled to is on a shortest way to it, and the move begins a shortest way to what it was pulled to:
however these ways bend, no tick is lost.
-/

namespace GridRoute

open Sequencing Position

namespace Board

variable {b : Board} {target q : Position} {rubble : Int} {p : Pathfinder} {radius : Radius}

/-- One tick after another, each with its own number of extra rounds. -/
def ticks (p : Pathfinder) (target : Position) : List Nat → Board →
    Except SearchError (List Tick × Board)
  | [], b => .ok ([], b)
  | rounds :: later, b => do
    let (tick, b) ← b.tick p target rounds
    let (trail, b) ← ticks p target later b
    return (tick :: trail, b)

theorem step_eq_ok {d : Direction} (moves : d ≠ .center) (hstep : b.agent.step d = .ok q)
    (hopen : b.isTraversable q = true) : b.step d = .ok (true, { b with agent := q }) := by
  rw [step, if_neg moves, hstep, ok_bind, if_pos hopen]
  rfl

theorem tick_eq_ok {d : Direction} {rounds : Nat} {moved : Bool} {next : Board}
    (hmove : p.moveTowards b.terrain target rounds = .ok d) (hstep : b.step d = .ok (moved, next)) :
    b.tick p target rounds = .ok (⟨d, moved, next.agent⟩, next) := by
  rw [tick, hmove, ok_bind, hstep, SearchError.lift_ok, ok_bind]
  rfl

theorem ticks_cons_eq_ok {rounds : Nat} {later : List Nat} {tick : Tick} {next last : Board}
    {trail : List Tick} (htick : b.tick p target rounds = .ok (tick, next))
    (hlater : next.ticks p target later = .ok (trail, last)) :
    b.ticks p target (rounds :: later) = .ok (tick :: trail, last) := by
  rw [ticks, htick, ok_bind]
  dsimp only
  rw [hlater, ok_bind]
  rfl

theorem Plain.exists_move (plain : b.Plain rubble) (h : p.Serves radius)
    (positive : 0 < rubble + Cost.step)
    (affordable : 64 * (rubble + Cost.step) + Cost.step < Cost.unreached)
    (htarget : b.contains target = true) (ne : b.agent ≠ target) (rounds : Nat) :
    ∃ d q, p.moveTowards b.terrain target rounds = .ok d ∧
      b.step d = .ok (true, { b with agent := q }) ∧ b.contains q = true ∧
      (q.offsetTo target).chebyshev + 1 = (b.agent.offsetTo target).chebyshev := by
  have inRange := plain.inRange radius
  have apart := (plain.inReach htarget).apart inRange.agent_fits ne
  obtain ⟨cell, hcell⟩ := h.exists_cell_iff.mpr (sees_clamped radius ne p.clampSteps)
  have hmove := h.moveTowards_eq_ok inRange apart rounds hcell
  rw [h.clampSteps_eq] at hcell
  have between := within_clamped radius b.agent target
  have hway := chebyshev_clamped radius b.agent target
  generalize clamped b.agent target radius.value radius.clampSteps = seen at hcell between hway
  have enters : b.terrain.Enters (b.agent.offsetTo seen) := by
    rw [plain.enters_iff, displaced_offsetTo]
    exact plain.contains_of_within htarget between.1 between.2
  obtain ⟨s, sees, hopen, hseed, hback, hnearer⟩ := h.exists_nearer_start
    (plain.terrain_open radius (Int.le_of_lt positive) affordable) positive hcell enters rounds
  have moves : ((p.after b.terrain rounds).record cell).best.opposite ≠ .center := by
    intro hstay
    rw [Direction.opposite_eq_center_iff.mp hstay, Offset.neighbor_center] at hback
    exact sees.1 hback
  refine ⟨_, b.agent.displaced s, hmove,
    step_eq_ok moves (step_opposite_eq_ok inRange sees hback) hopen, plain.enters_iff.mp hopen, ?_⟩
  have hnext := Offset.norm_le_seedDistance_iff.mp hseed
  have hround := chebyshev_offsetTo_le b.agent (b.agent.displaced s) target
  have hbend := chebyshev_offsetTo_le (b.agent.displaced s) seen target
  rw [offsetTo_displaced] at hround
  rw [terrain_agent, displaced_offsetTo] at hnearer
  omega

theorem Plain.exists_ticks (plain : b.Plain rubble) (h : p.Serves radius)
    (positive : 0 < rubble + Cost.step)
    (affordable : 64 * (rubble + Cost.step) + Cost.step < Cost.unreached)
    (htarget : b.contains target = true) {choices : List Nat}
    (hcount : choices.length = (b.agent.offsetTo target).chebyshev) :
    ∃ trail last, b.ticks p target choices = .ok (trail, last) ∧ trail.length = choices.length ∧
      last.agent = target ∧ ∀ i tick, trail[i]? = some tick → tick.moved = true ∧
        (tick.agent.offsetTo target).chebyshev + (i + 1) = choices.length := by
  induction choices generalizing b with
  | nil =>
    have harrived := chebyshev_offsetTo_eq_zero_iff.mp hcount.symm
    exact ⟨[], b, rfl, rfl, harrived.symm, by simp⟩
  | cons rounds later ih =>
    have ne : b.agent ≠ target := by
      intro heq
      rw [chebyshev_offsetTo_eq_zero_iff.mpr heq.symm] at hcount
      exact absurd hcount (Nat.succ_ne_zero _)
    obtain ⟨d, q, hmove, hstep, hq, hnearer⟩ :=
      plain.exists_move h positive affordable htarget ne rounds
    rw [List.length_cons] at hcount
    obtain ⟨trail, last, hlater, hlength, harrived, hticks⟩ :=
      ih (plain.move hq) htarget (show later.length = (q.offsetTo target).chebyshev by omega)
    refine ⟨⟨d, true, q⟩ :: trail, last, ticks_cons_eq_ok (tick_eq_ok hmove hstep) hlater,
      by rw [List.length_cons, List.length_cons, hlength], harrived, ?_⟩
    intro i tick hi
    rw [List.length_cons]
    cases i with
    | zero =>
      obtain rfl := Option.some.inj hi
      exact ⟨rfl, by dsimp only; omega⟩
    | succ i =>
      obtain ⟨hmoved, hleft⟩ := hticks i tick hi
      exact ⟨hmoved, by omega⟩

end Board

namespace Pathfinder

/-- On a plain board the agent moves at every tick, comes one move nearer to the target with each, and stands on it
after as many ticks as the target is moves away: however many rounds there are to each tick, and however far the
target is out of sight. -/
theorem pursuit_loses_no_tick (radius : Radius) (b : Board) {rubble : Int}
    (plain : b.Plain rubble) (positive : 0 < rubble + Cost.step)
    (affordable : 64 * (rubble + Cost.step) + Cost.step < Cost.unreached) (target : Position)
    (htarget : b.contains target = true) (choices : List Nat)
    (hcount : choices.length = (b.agent.offsetTo target).chebyshev) :
    ∃ p trail last, compile radius.value = .ok p ∧ b.ticks p target choices = .ok (trail, last) ∧
      trail.length = (b.agent.offsetTo target).chebyshev ∧ last.agent = target ∧
      ∀ i tick, trail[i]? = some tick → tick.moved = true ∧
        (tick.agent.offsetTo target).chebyshev + (i + 1) = (b.agent.offsetTo target).chebyshev := by
  obtain ⟨p, hcompile, h⟩ := exists_compile_eq_ok radius
  obtain ⟨trail, last, hticks, hlength, harrived, hnearer⟩ :=
    plain.exists_ticks h positive affordable htarget hcount
  rw [hcount] at hlength hnearer
  exact ⟨p, trail, last, hcompile, hticks, hlength, harrived, hnearer⟩

theorem pursuit_loses_no_tick_corner :
    ((Board.empty 9 4 ⟨0, 0⟩).fillRubble 5).Plain 5 ∧
    ∃ p trail last, compile 9 = .ok p ∧
      ((Board.empty 9 4 ⟨0, 0⟩).fillRubble 5).ticks p ⟨8, 3⟩ [0, 1, 2, 3, 0, 1, 2, 3] =
        .ok (trail, last) ∧
      trail.length = 8 ∧ last.agent = ⟨8, 3⟩ ∧
      ∀ i tick, trail[i]? = some tick → tick.moved = true ∧
        (tick.agent.offsetTo ⟨8, 3⟩).chebyshev + (i + 1) = 8 := by
  have plain : ((Board.empty 9 4 ⟨0, 0⟩).fillRubble 5).Plain 5 :=
    Board.plain_fillRubble (by decide) (by decide) (by decide) 5
  exact ⟨plain, pursuit_loses_no_tick .nine _ plain (by decide) (by decide) ⟨8, 3⟩ (by decide)
    [0, 1, 2, 3, 0, 1, 2, 3] (by decide)⟩

end Pathfinder

end GridRoute
