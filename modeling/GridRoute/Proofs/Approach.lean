import GridRoute.Proofs.Clamp
import Mathlib.Algebra.Order.Ring.Nat
import Mathlib.Algebra.Order.Ring.Basic
import Mathlib.Data.Nat.Find

/-!
The walk to a target. Every move of the unbounded walk leads farther away from where it started, counted along
the axes, so in sight there are fewer of them than the pull has steps: a target is pulled to the last place that
the unbounded walk passes before it first leaves the window. No walk is shorter than this one: every move follows
the longer of the two differences that are left.
-/

namespace GridRoute

open Sequencing

def Offset.manhattan (o : Offset) : Nat := o.x.natAbs + o.y.natAbs

theorem Offset.manhattan_mul_self_le (o : Offset) : o.manhattan * o.manhattan ≤ 2 * o.norm := by
  simpa only [manhattan, norm, sq] using add_sq_le (a := o.x.natAbs) (b := o.y.natAbs)

/-- In sight, no place is as many moves away as the pull has steps. -/
theorem Radius.manhattan_lt_clampSteps {r : Radius} {o : Offset} (h : o.norm ≤ r.value) :
    o.manhattan < r.clampSteps := by
  have root := (floorSqrt_bounds (2 * r.value)).2
  apply Nat.mul_self_lt_mul_self_iff.mp
  calc o.manhattan * o.manhattan
      ≤ 2 * o.norm := o.manhattan_mul_self_le
    _ ≤ 2 * r.value := Nat.mul_le_mul_left 2 h
    _ < r.clampSteps * r.clampSteps := root

namespace Position

def onward (start goal : Position) (moves : Nat) : Position :=
  (fun q => q.towards goal)^[moves] start

variable {start goal q : Position}

@[simp] theorem onward_zero (start goal : Position) : start.onward goal 0 = start := rfl

theorem onward_succ (start goal : Position) (moves : Nat) :
    start.onward goal (moves + 1) = (start.onward goal moves).towards goal :=
  Function.iterate_succ_apply' ..

theorem within_onward (start goal : Position) (moves : Nat) :
    Within start.x goal.x (start.onward goal moves).x ∧
      Within start.y goal.y (start.onward goal moves).y := by
  induction moves with
  | zero => exact ⟨within_start .., within_start ..⟩
  | succ moves ih =>
    rw [onward_succ, towards_eq]
    exact ⟨within_add_axisStep ih.1, within_add_axisStep ih.2⟩

theorem step_onward (hstart : start.Fits) (hgoal : goal.Fits) (moves : Nat) :
    (start.onward goal moves).step ((start.onward goal moves).headingTo goal) =
      .ok (start.onward goal (moves + 1)) := by
  have hnext := within_onward start goal (moves + 1)
  have fits := fits_of_within hstart hgoal hnext.1 hnext.2
  rw [onward_succ] at fits ⊢
  exact step_eq_ok rfl rfl fits

theorem manhattan_towards (hx : Within start.x goal.x q.x) (hy : Within start.y goal.y q.y)
    (ne : q ≠ goal) :
    (start.offsetTo q).manhattan < (start.offsetTo (q.towards goal)).manhattan := by
  have moves := towards_ne ne
  rw [towards_eq] at moves ⊢
  have alongX := natAbs_add_axisStep hx (goal.y - q.y)
  have alongY := natAbs_add_axisStep hy (goal.x - q.x)
  unfold Offset.manhattan offsetTo
  dsimp only
  rw [alongX, alongY]
  by_contra hstill
  have hzeroX : axisStep (goal.x - q.x) (goal.y - q.y) = 0 := by omega
  have hzeroY : axisStep (goal.y - q.y) (goal.x - q.x) = 0 := by omega
  apply moves
  rw [hzeroX, hzeroY, Int.add_zero, Int.add_zero]

theorem le_manhattan_onward {moves : Nat} (away : ∀ i < moves, start.onward goal i ≠ goal) :
    moves ≤ (start.offsetTo (start.onward goal moves)).manhattan := by
  induction moves with
  | zero => exact Nat.zero_le _
  | succ moves ih =>
    have before := ih fun i hi => away i (Nat.lt_succ_of_lt hi)
    have farther := manhattan_towards (within_onward start goal moves).1
      (within_onward start goal moves).2 (away moves (Nat.lt_succ_self moves))
    rw [onward_succ]
    omega

theorem lt_clampSteps_of_inside {r : Radius} (hfar : r.value < (start.offsetTo goal).norm)
    {moves : Nat} (inside : ∀ i ≤ moves, (start.offsetTo (start.onward goal i)).norm ≤ r.value) :
    moves < r.clampSteps := by
  have away : ∀ i < moves, start.onward goal i ≠ goal := by
    intro i hi hreached
    have := inside i (Nat.le_of_lt hi)
    rw [hreached] at this
    omega
  exact Nat.lt_of_le_of_lt (le_manhattan_onward away)
    (Radius.manhattan_lt_clampSteps (inside moves (Nat.le_refl moves)))

theorem exists_last_inside {r : Radius} (hfar : r.value < (start.offsetTo goal).norm) :
    ∃ last, (∀ i ≤ last, (start.offsetTo (start.onward goal i)).norm ≤ r.value) ∧
      r.value < (start.offsetTo (start.onward goal (last + 1))).norm := by
  have leaves : ∃ i, r.value < (start.offsetTo (start.onward goal i)).norm := by
    by_contra hnever
    simp only [not_exists, Nat.not_lt] at hnever
    have few : r.clampSteps < r.clampSteps := lt_clampSteps_of_inside hfar fun i _ => hnever i
    exact Nat.lt_irrefl _ few
  have before : ∀ i < Nat.find leaves, (start.offsetTo (start.onward goal i)).norm ≤ r.value :=
    fun i hi => Nat.le_of_not_lt (Nat.find_min leaves hi)
  have first := Nat.find_spec leaves
  cases hfirst : Nat.find leaves with
  | zero =>
    rw [hfirst, onward_zero, offsetTo_eq_origin_iff.mpr rfl] at first
    exact absurd first (Nat.not_lt_zero _)
  | succ last =>
    rw [hfirst] at first before
    exact ⟨last, fun i hi => before i (Nat.lt_succ_of_le hi), first⟩

theorem pulled_onward {radius last : Nat}
    (inside : ∀ i ≤ last, (start.offsetTo (start.onward goal i)).norm ≤ radius)
    (leaves : radius < (start.offsetTo (start.onward goal (last + 1))).norm)
    {steps moves : Nat} (safe : Position) (hmoves : moves ≤ last) (hsteps : last < moves + steps) :
    pulled start goal radius steps safe (start.onward goal moves) = start.onward goal last := by
  induction steps generalizing moves safe with
  | zero => omega
  | succ steps ih =>
    rw [pulled, if_pos (inside moves hmoves), ← onward_succ]
    rcases Nat.lt_or_eq_of_le hmoves with hlt | rfl
    · exact ih _ hlt (by omega)
    · exact pulled_of_lt leaves steps

theorem clamped_eq_onward {r : Radius} (hfar : r.value < (start.offsetTo goal).norm) {last : Nat}
    (inside : ∀ i ≤ last, (start.offsetTo (start.onward goal i)).norm ≤ r.value)
    (leaves : r.value < (start.offsetTo (start.onward goal (last + 1))).norm) {steps : Nat}
    (hsteps : r.clampSteps ≤ steps) :
    clamped start goal r.value steps = start.onward goal last := by
  have few := lt_clampSteps_of_inside hfar inside
  have ne : start ≠ goal := by
    rintro rfl
    rw [offsetTo_eq_origin_iff.mpr rfl] at hfar
    exact Nat.not_lt_zero _ hfar
  have hfirst : 1 ≤ last := by
    by_contra hnone
    have hsees := (sees_towards_start r ne).2
    rw [show last = 0 by omega, onward_succ, onward_zero] at leaves
    omega
  rw [clamped, if_neg (Nat.not_le.mpr hfar), ← onward_zero start goal, ← onward_succ]
  exact pulled_onward inside leaves _ hfirst (by omega)

theorem clamped_eq_of_le {r : Radius} {steps : Nat} (hsteps : r.clampSteps ≤ steps) :
    clamped start goal r.value steps = clamped start goal r.value r.clampSteps := by
  by_cases hnear : (start.offsetTo goal).norm ≤ r.value
  · rw [clamped, clamped, if_pos hnear, if_pos hnear]
  · have hfar := Nat.lt_of_not_le hnear
    obtain ⟨last, inside, leaves⟩ := exists_last_inside hfar
    rw [clamped_eq_onward hfar inside leaves hsteps,
      clamped_eq_onward hfar inside leaves (Nat.le_refl _)]

theorem within_clamped (r : Radius) (start goal : Position) :
    Within start.x goal.x (clamped start goal r.value r.clampSteps).x ∧
      Within start.y goal.y (clamped start goal r.value r.clampSteps).y := by
  by_cases hnear : (start.offsetTo goal).norm ≤ r.value
  · rw [clamped, if_pos hnear]
    exact ⟨within_finish .., within_finish ..⟩
  · have hfar := Nat.lt_of_not_le hnear
    obtain ⟨last, inside, leaves⟩ := exists_last_inside hfar
    rw [clamped_eq_onward hfar inside leaves (Nat.le_refl _)]
    exact within_onward start goal last

theorem chebyshev_offsetTo_le (p q r : Position) :
    (p.offsetTo r).chebyshev ≤ (p.offsetTo q).chebyshev + (q.offsetTo r).chebyshev := by
  have hx : (r.x - p.x).natAbs ≤ (q.x - p.x).natAbs + (r.x - q.x).natAbs := by omega
  have hy : (r.y - p.y).natAbs ≤ (q.y - p.y).natAbs + (r.y - q.y).natAbs := by omega
  exact Nat.max_le.mpr
    ⟨Nat.le_trans hx (Nat.add_le_add (Nat.le_max_left ..) (Nat.le_max_left ..)),
      Nat.le_trans hy (Nat.add_le_add (Nat.le_max_right ..) (Nat.le_max_right ..))⟩

@[simp] theorem chebyshev_offsetTo_eq_zero_iff {p q : Position} :
    (p.offsetTo q).chebyshev = 0 ↔ q = p :=
  Offset.chebyshev_eq_zero_iff.trans offsetTo_eq_origin_iff

/-- The longer of two differences is always followed. -/
theorem axisStep_eq_sign {along across : Int} (h : across.natAbs ≤ along.natAbs) :
    axisStep along across = along.sign := by
  unfold axisStep
  split
  · obtain rfl : along = 0 := by omega
    rfl
  · rfl

theorem natAbs_sub_axisStep_le (along across : Int) :
    (along - axisStep along across).natAbs ≤ max along.natAbs across.natAbs - 1 := by
  rcases Nat.lt_or_ge along.natAbs across.natAbs with hshort | hlong
  · rw [Nat.max_eq_right (Nat.le_of_lt hshort)]
    rcases axisStep_eq along across with hstep | hstep
    · rw [hstep, Int.sub_zero]
      exact Nat.le_sub_one_of_lt hshort
    · rw [hstep, Offset.natAbs_sub_sign]
      exact Nat.sub_le_sub_right (Nat.le_of_lt hshort) 1
  · rw [axisStep_eq_sign hlong, Offset.natAbs_sub_sign, Nat.max_eq_left hlong]

/-- Every heading, however it is rounded, leads one move nearer. -/
theorem chebyshev_towards (q goal : Position) :
    ((q.towards goal).offsetTo goal).chebyshev = (q.offsetTo goal).chebyshev - 1 := by
  apply Nat.le_antisymm
  · have alongX := natAbs_sub_axisStep_le (goal.x - q.x) (goal.y - q.y)
    have alongY := natAbs_sub_axisStep_le (goal.y - q.y) (goal.x - q.x)
    rw [Nat.max_comm] at alongY
    rw [towards_eq]
    unfold Offset.chebyshev offsetTo
    dsimp only
    rw [← Int.sub_sub, ← Int.sub_sub]
    exact Nat.max_le.mpr ⟨alongX, alongY⟩
  · have hmove := chebyshev_offsetTo_towards_le q goal
    have hround := chebyshev_offsetTo_le q (q.towards goal) goal
    omega

theorem chebyshev_onward (start goal : Position) (moves : Nat) :
    ((start.onward goal moves).offsetTo goal).chebyshev = (start.offsetTo goal).chebyshev - moves := by
  induction moves with
  | zero => rfl
  | succ moves ih => rw [onward_succ, chebyshev_towards, ih, Nat.sub_sub]

theorem chebyshev_onward_le (start goal : Position) (moves : Nat) :
    (start.offsetTo (start.onward goal moves)).chebyshev ≤ moves := by
  induction moves with
  | zero => simp
  | succ moves ih =>
    have hmove := chebyshev_offsetTo_towards_le (start.onward goal moves) goal
    have hround := chebyshev_offsetTo_le start (start.onward goal moves)
      ((start.onward goal moves).towards goal)
    rw [onward_succ]
    omega

theorem chebyshev_clamped (r : Radius) (start goal : Position) :
    (start.offsetTo (clamped start goal r.value r.clampSteps)).chebyshev +
        ((clamped start goal r.value r.clampSteps).offsetTo goal).chebyshev =
      (start.offsetTo goal).chebyshev := by
  by_cases hnear : (start.offsetTo goal).norm ≤ r.value
  · rw [clamped, if_pos hnear, chebyshev_offsetTo_eq_zero_iff.mpr rfl, Nat.add_zero]
  · have hfar := Nat.lt_of_not_le hnear
    obtain ⟨last, inside, leaves⟩ := exists_last_inside hfar
    rw [clamped_eq_onward hfar inside leaves (Nat.le_refl _)]
    have htaken := chebyshev_onward_le start goal last
    have hleft := chebyshev_onward start goal last
    have hround := chebyshev_offsetTo_le start (start.onward goal last) goal
    have hshort : last ≤ (start.offsetTo goal).chebyshev := by
      by_contra hlong
      have hreached := chebyshev_onward start goal (start.offsetTo goal).chebyshev
      rw [Nat.sub_self, chebyshev_offsetTo_eq_zero_iff] at hreached
      have hseen := inside (start.offsetTo goal).chebyshev (by omega)
      rw [← hreached] at hseen
      exact hnear hseen
    omega

end Position

namespace Pathfinder

open Position

theorem clampTarget_self (p : Pathfinder) (start : Position) :
    p.clampTarget start start = .ok start := by
  have hhere : start.distanceSquared start = .ok 0 :=
    Bounded.squareSum_eq_ok_iff.mpr (by simp)
  rw [clampTarget, hhere, ok_bind, if_pos (Nat.zero_le _)]
  rfl

/-- A target in sight is not pulled. Any other is pulled to the last place that the unbounded walk to it passes
before it first leaves the window: not the start, but in sight of it and on the way to the target on both axes.
Further steps of the pull make no difference. -/
theorem clampTarget_eq_last_in_sight (radius : Radius) (start goal : Position)
    (fits : start.Fits) (inReach : start.InReach goal) :
    ∃ p seen, compile radius.value = .ok p ∧ p.clampTarget start goal = .ok seen ∧
      (∀ i, (start.onward goal i).step ((start.onward goal i).headingTo goal) =
        .ok (start.onward goal (i + 1))) ∧
      ((start.offsetTo goal).norm ≤ radius.value → seen = goal) ∧
      (radius.value < (start.offsetTo goal).norm → ∃ last, seen = start.onward goal last ∧
        (∀ i ≤ last, (start.offsetTo (start.onward goal i)).norm ≤ radius.value) ∧
        radius.value < (start.offsetTo (start.onward goal (last + 1))).norm) ∧
      (goal ≠ start → seen ≠ start) ∧ (start.offsetTo seen).norm ≤ radius.value ∧
      Within start.x goal.x seen.x ∧ Within start.y goal.y seen.y ∧
      ∀ steps, p.clampSteps ≤ steps →
        { p with clampSteps := steps }.clampTarget start goal = .ok seen := by
  obtain ⟨p, hcompile, h⟩ := exists_compile_eq_ok radius
  have hwalk := step_onward fits inReach.fits
  by_cases hhere : start = goal
  · subst hhere
    have hnorm : (start.offsetTo start).norm = 0 := by rw [offsetTo_eq_origin_iff.mpr rfl]; rfl
    exact ⟨p, start, hcompile, p.clampTarget_self start, hwalk, fun _ => rfl,
      fun hfar => by omega, fun hne => absurd rfl hne, by omega, within_start .., within_start ..,
      fun steps _ => clampTarget_self _ start⟩
  · have apart := inReach.apart fits hhere
    have sees := sees_clamped radius hhere radius.clampSteps
    have between := within_clamped radius start goal
    refine ⟨p, clamped start goal radius.value radius.clampSteps, hcompile, ?_, hwalk, ?_, ?_, ?_,
      sees.2, between.1, between.2, ?_⟩
    · rw [h.clampTarget_eq_ok apart, h.clampSteps_eq]
    · intro hnear
      exact if_pos hnear
    · intro hfar
      obtain ⟨last, inside, leaves⟩ := exists_last_inside hfar
      exact ⟨last, clamped_eq_onward hfar inside leaves (Nat.le_refl _), inside, leaves⟩
    · intro _ hback
      exact sees.1 (offsetTo_eq_origin_iff.mpr hback)
    · intro steps hsteps
      rw [h.clampSteps_eq] at hsteps
      rw [clampTarget_eq_ok apart, ← clamped_eq_of_le hsteps, h.radius_eq]

theorem clampTarget_eq_last_in_sight_east :
    (⟨30, 30⟩ : Position).Fits ∧ (⟨30, 30⟩ : Position).InReach ⟨55, 38⟩ ∧
    ∃ p, compile 9 = .ok p ∧ p.clampTarget ⟨30, 30⟩ ⟨55, 38⟩ = .ok ⟨33, 30⟩ := by
  have fits : (⟨30, 30⟩ : Position).Fits := by decide
  have inReach : (⟨30, 30⟩ : Position).InReach ⟨55, 38⟩ := ⟨by decide, by decide, by decide⟩
  obtain ⟨p, seen, hcompile, hclamp, -, -, hpulled, -⟩ := clampTarget_eq_last_in_sight
    ⟨9, by decide, by decide⟩ ⟨30, 30⟩ ⟨55, 38⟩ fits inReach
  obtain ⟨last, rfl, inside, leaves⟩ := hpulled (by decide)
  have few : last < 4 := by
    by_contra hmany
    exact absurd (inside 4 (Nat.le_of_not_lt hmany)) (by decide)
  have early : ∀ n < 3, ¬ 9 < ((⟨30, 30⟩ : Position).offsetTo
      ((⟨30, 30⟩ : Position).onward ⟨55, 38⟩ (n + 1))).norm := by decide
  obtain rfl : last = 3 := by
    by_contra hne
    exact early last (by omega) leaves
  exact ⟨fits, inReach, p, hcompile, hclamp⟩

end Pathfinder

end GridRoute
