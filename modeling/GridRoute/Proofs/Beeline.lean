import GridRoute.Proofs.Approach

/-!
The beeline. Whoever follows the heading to a goal move by move comes nearer along the axes with each of them and is
there after as many moves as the longer of the two differences has units, however often the heading turns on the way.
The way back starts in the opposite direction.
-/

namespace GridRoute.Position

open Sequencing

variable {start goal q : Position}

/-- Where a number of moves lead, each of them in the direction of the heading. -/
def follow (start goal : Position) : Nat → Except Fault Position
  | 0 => .ok start
  | moves + 1 => do
    let q ← start.follow goal moves
    q.step (q.headingTo goal)

theorem follow_eq_onward (hstart : start.Fits) (hgoal : goal.Fits) (moves : Nat) :
    start.follow goal moves = .ok (start.onward goal moves) := by
  induction moves with
  | zero => rfl
  | succ moves ih => rw [follow, ih, ok_bind, step_onward hstart hgoal]

theorem axisStep_neg (along across : Int) : axisStep (-along) (-across) = -axisStep along across := by
  unfold axisStep
  rw [Int.natAbs_neg, Int.natAbs_neg, Int.sign_neg]
  split <;> rfl

theorem headingTo_swap (p q : Position) : q.headingTo p = (p.headingTo q).opposite := by
  apply Direction.delta_injective
  rw [Direction.delta_opposite, delta_headingTo, delta_headingTo, ← Int.neg_sub q.x, ← Int.neg_sub q.y, axisStep_neg,
    axisStep_neg]

theorem headingTo_eq_center_iff : q.headingTo goal = .center ↔ q = goal := by
  constructor
  · intro h
    by_contra ne
    apply towards_ne ne
    rw [towards, h]
    exact Position.mk.injEq .. |>.mpr ⟨Int.add_zero _, Int.add_zero _⟩
  · rintro rfl
    rw [← Direction.delta_eq_zero_iff, delta_headingTo, Int.sub_self, Int.sub_self]
    rfl

theorem natAbs_add_of_within {a b v : Int} (h : Within a b v) :
    (v - a).natAbs + (b - v).natAbs = (b - a).natAbs := by
  unfold Within at h
  omega

theorem manhattan_add (hx : Within start.x goal.x q.x) (hy : Within start.y goal.y q.y) :
    (start.offsetTo q).manhattan + (q.offsetTo goal).manhattan = (start.offsetTo goal).manhattan := by
  have alongX := natAbs_add_of_within hx
  have alongY := natAbs_add_of_within hy
  unfold Offset.manhattan offsetTo
  dsimp only
  omega

theorem manhattan_left_onward (moves : Nat) (ne : start.onward goal moves ≠ goal) :
    ((start.onward goal (moves + 1)).offsetTo goal).manhattan <
      ((start.onward goal moves).offsetTo goal).manhattan := by
  obtain ⟨hx, hy⟩ := within_onward start goal moves
  have here := manhattan_add hx hy
  have next := within_onward start goal (moves + 1)
  have there := manhattan_add next.1 next.2
  have farther := manhattan_towards hx hy ne
  rw [← onward_succ] at farther
  omega

theorem onward_eq_goal_iff (moves : Nat) :
    start.onward goal moves = goal ↔ (start.offsetTo goal).chebyshev ≤ moves := by
  rw [eq_comm, ← chebyshev_offsetTo_eq_zero_iff, chebyshev_onward, Nat.sub_eq_zero_iff_le]

/-- The heading compares products that have 63 bits. -/
theorem natAbs_sub_mul_le {a b : Int} (ha : Bounded.Fits a) (hb : Bounded.Fits b) :
    (a - b).natAbs * 1000000 ≤ 9223372036854775807 := by
  rw [Bounded.fits_iff] at ha hb
  omega

/-- Between any two positions, and on any number of moves: no sum leaves the range of coordinates and no product that
the heading compares is too long; the moves stay between start and goal on both axes, each brings the goal nearer
along the axes, and it is reached with as many moves as the longer difference has units and no earlier. From there
on, and only there, the heading is to stand still. Between any two positions the headings are opposite. -/
theorem follow_reaches_goal (start goal : Position) (hstart : start.Fits) (hgoal : goal.Fits) :
    goal.headingTo start = (start.headingTo goal).opposite ∧
    ∀ moves, ∃ q, start.follow goal moves = .ok q ∧
      (q = goal ↔ max (goal.x - start.x).natAbs (goal.y - start.y).natAbs ≤ moves) ∧
      (q.headingTo goal = .center ↔ q = goal) ∧
      Within start.x goal.x q.x ∧ Within start.y goal.y q.y ∧
      (goal.x - q.x).natAbs * 1000000 ≤ 9223372036854775807 ∧
      (goal.y - q.y).natAbs * 1000000 ≤ 9223372036854775807 ∧
      (q ≠ goal → ∃ next, start.follow goal (moves + 1) = .ok next ∧
        (next.offsetTo goal).manhattan < (q.offsetTo goal).manhattan) := by
  refine ⟨headingTo_swap start goal, fun moves => ?_⟩
  have between := within_onward start goal moves
  have fits := fits_of_within hstart hgoal between.1 between.2
  exact ⟨_, follow_eq_onward hstart hgoal moves, onward_eq_goal_iff moves, headingTo_eq_center_iff, between.1,
    between.2, natAbs_sub_mul_le hgoal.1 fits.1, natAbs_sub_mul_le hgoal.2 fits.2,
    fun ne => ⟨_, follow_eq_onward hstart hgoal (moves + 1), manhattan_left_onward moves ne⟩⟩

theorem follow_reaches_goal_corner :
    (⟨-2147483648, 2147483647⟩ : Position).Fits ∧ (⟨1000000000, -2147483648⟩ : Position).Fits ∧
    (⟨1000000000, -2147483648⟩ : Position).headingTo ⟨-2147483648, 2147483647⟩ = .northWest ∧
    (⟨-2147483648, 2147483647⟩ : Position).follow ⟨1000000000, -2147483648⟩ 4294967295 =
      .ok ⟨1000000000, -2147483648⟩ ∧
    ∃ q, (⟨-2147483648, 2147483647⟩ : Position).follow ⟨1000000000, -2147483648⟩ 4294967294 = .ok q ∧
      q ≠ ⟨1000000000, -2147483648⟩ := by
  have hstart : (⟨-2147483648, 2147483647⟩ : Position).Fits := by decide
  have hgoal : (⟨1000000000, -2147483648⟩ : Position).Fits := by decide
  obtain ⟨hswap, hfollow⟩ := follow_reaches_goal _ _ hstart hgoal
  obtain ⟨q, hq, hreached, -⟩ := hfollow 4294967295
  obtain ⟨before, hbefore, hshort, -⟩ := hfollow 4294967294
  obtain rfl := hreached.mpr (by decide)
  exact ⟨hstart, hgoal, hswap.trans (by decide), hq, before, hbefore, fun h => absurd (hshort.mp h) (by decide)⟩

end GridRoute.Position
