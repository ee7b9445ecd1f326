import GridRoute.Proofs.Sighting

/-!
Pulling a target into the window. A walk to the target always moves towards it on both axes and never past
it, so it stays on the map, never comes back to where it started, and no distance on it is too large to be
taken. The last place in sight on it is therefore the place of a cell.
-/

namespace GridRoute

open Sequencing

namespace Position

theorem axisStep_eq (along across : Int) : axisStep along across = 0 ∨
    axisStep along across = along.sign := by
  unfold axisStep
  split
  · exact .inl rfl
  · exact .inr rfl

theorem axisStep_bounds (along across : Int) :
    -1 ≤ axisStep along across ∧ axisStep along across ≤ 1 := by
  have := Int.sign_trichotomy along
  rcases axisStep_eq along across with h | h <;> omega

theorem axisStep_between (along across : Int) :
    min 0 along ≤ axisStep along across ∧ axisStep along across ≤ max 0 along := by
  have hsign := Offset.sign_bounds along
  rcases axisStep_eq along across with h | h <;> omega

/-- Of two differences, the one that is not so much smaller is followed. -/
theorem eq_zero_of_axisStep_eq_zero {along across : Int} (halong : axisStep along across = 0)
    (hacross : axisStep across along = 0) : along = 0 ∧ across = 0 := by
  unfold axisStep at halong hacross
  have zero {n : Int} (h : n.sign = 0) : n = 0 := Int.sign_eq_zero_iff_zero.mp h
  split at halong
  · split at hacross
    · omega
    · have := zero hacross
      omega
  · have := zero halong
    omega

theorem delta_headingTo (p q : Position) :
    (p.headingTo q).delta =
      (axisStep (q.x - p.x) (q.y - p.y), axisStep (q.y - p.y) (q.x - p.x)) := by
  obtain ⟨d, hd⟩ := Direction.exists_delta (axisStep (q.x - p.x) (q.y - p.y))
    (axisStep (q.y - p.y) (q.x - p.x)) (axisStep_bounds ..) (axisStep_bounds ..)
  rw [headingTo, Direction.ofDelta?_eq_some_iff.mpr hd]
  exact hd

def offsetTo (p q : Position) : Offset := ⟨q.x - p.x, q.y - p.y⟩

theorem offsetFrom_eq_ok {p q : Position} (hx : Bounded.Fits (p.offsetTo q).x)
    (hy : Bounded.Fits (p.offsetTo q).y) : q.offsetFrom p = .ok (p.offsetTo q) := by
  unfold offsetTo at hx hy ⊢
  rw [offsetFrom, Bounded.sub_of_fits hx, Bounded.sub_of_fits hy]
  rfl

theorem offsetTo_eq_origin_iff {p q : Position} : p.offsetTo q = Offset.origin ↔ q = p := by
  obtain ⟨x, y⟩ := q
  obtain ⟨x', y'⟩ := p
  simp only [offsetTo, Offset.origin, Offset.mk.injEq, Position.mk.injEq]
  omega

@[simp] theorem offsetTo_displaced (p : Position) (o : Offset) :
    p.offsetTo (p.displaced o) = o := by
  cases o
  simp only [offsetTo, displaced, Offset.mk.injEq]
  omega

@[simp] theorem displaced_offsetTo (p q : Position) : p.displaced (p.offsetTo q) = q := by
  cases q
  simp only [offsetTo, displaced, Position.mk.injEq]
  omega

def towards (p goal : Position) : Position :=
  ⟨p.x + (p.headingTo goal).delta.1, p.y + (p.headingTo goal).delta.2⟩

/-- Where the number is no farther from the end than from the start, in the same direction. -/
def Within (start finish n : Int) : Prop := start ≤ n ∧ n ≤ finish ∨ finish ≤ n ∧ n ≤ start

theorem within_start (start finish : Int) : Within start finish start := by
  unfold Within
  omega

theorem within_finish (start finish : Int) : Within start finish finish := by
  unfold Within
  omega

theorem within_add_axisStep {start finish n across : Int} (h : Within start finish n) :
    Within start finish (n + axisStep (finish - n) across) := by
  have hstep := axisStep_between (finish - n) across
  unfold Within at *
  omega

theorem natAbs_add_axisStep {start finish n : Int} (h : Within start finish n) (across : Int) :
    (n + axisStep (finish - n) across - start).natAbs =
      (n - start).natAbs + (axisStep (finish - n) across).natAbs := by
  have hstep := axisStep_between (finish - n) across
  unfold Within at h
  omega

theorem eq_start_of_add_axisStep {start finish n across : Int} (h : Within start finish n)
    (hback : n + axisStep (finish - n) across = start) : n = start := by
  have haway := natAbs_add_axisStep h across
  rw [hback, Int.sub_self] at haway
  omega

/-- Between a start and a goal on both axes, and not at the start. -/
structure OnWay (start goal q : Position) : Prop where
  x : Within start.x goal.x q.x
  y : Within start.y goal.y q.y
  ne_start : q ≠ start

/-- Start and goal are on the map and not too far apart for their difference to be taken. -/
structure Apart (start goal : Position) : Prop where
  start_fits : start.Fits
  goal_fits : goal.Fits
  x_lt : (goal.x - start.x).natAbs < 2147483648
  y_lt : (goal.y - start.y).natAbs < 2147483648
  ne : start ≠ goal

/-- The target is on the map and not so far away that the displacement would wrap around. -/
structure InReach (agent goal : Position) : Prop where
  fits : goal.Fits
  x_lt : (goal.x - agent.x).natAbs < 2147483648
  y_lt : (goal.y - agent.y).natAbs < 2147483648

theorem InReach.apart {agent goal : Position} (h : InReach agent goal) (hagent : agent.Fits)
    (ne : agent ≠ goal) : Apart agent goal :=
  ⟨hagent, h.fits, h.x_lt, h.y_lt, ne⟩

section Way

variable {start goal q : Position}

theorem towards_eq (q goal : Position) :
    q.towards goal = ⟨q.x + axisStep (goal.x - q.x) (goal.y - q.y),
      q.y + axisStep (goal.y - q.y) (goal.x - q.x)⟩ := by
  rw [towards, delta_headingTo]

theorem OnWay.towards (h : OnWay start goal q) : OnWay start goal (q.towards goal) := by
  rw [towards_eq]
  refine ⟨within_add_axisStep h.x, within_add_axisStep h.y, fun hback => h.ne_start ?_⟩
  obtain ⟨x, y⟩ := start
  obtain ⟨x', y'⟩ := q
  obtain ⟨hx, hy⟩ := Position.mk.inj hback
  rw [Position.mk.injEq]
  exact ⟨eq_start_of_add_axisStep h.x hx, eq_start_of_add_axisStep h.y hy⟩

theorem onWay_goal (ne : start ≠ goal) : OnWay start goal goal :=
  ⟨within_finish .., within_finish .., ne.symm⟩

theorem towards_ne (ne : q ≠ goal) : q.towards goal ≠ q := by
  rw [towards_eq]
  intro hstill
  apply ne
  obtain ⟨x, y⟩ := q
  obtain ⟨x', y'⟩ := goal
  obtain ⟨hx, hy⟩ := Position.mk.inj hstill
  dsimp only at hx hy
  have hzeroX : axisStep (x' - x) (y' - y) = 0 := by omega
  have hzeroY : axisStep (y' - y) (x' - x) = 0 := by omega
  obtain ⟨levelX, levelY⟩ := eq_zero_of_axisStep_eq_zero hzeroX hzeroY
  rw [Position.mk.injEq]
  omega

theorem onWay_towards_start (ne : start ≠ goal) : OnWay start goal (start.towards goal) where
  x := by
    rw [towards_eq]
    exact within_add_axisStep (within_start ..)
  y := by
    rw [towards_eq]
    exact within_add_axisStep (within_start ..)
  ne_start := towards_ne ne

theorem fits_of_within (hstart : start.Fits) (hgoal : goal.Fits)
    (hx : Within start.x goal.x q.x) (hy : Within start.y goal.y q.y) : q.Fits := by
  obtain ⟨sx, sy⟩ := hstart
  obtain ⟨gx, gy⟩ := hgoal
  rw [Bounded.fits_iff] at sx sy gx gy
  unfold Within at hx hy
  rw [Fits, Bounded.fits_iff, Bounded.fits_iff]
  omega

theorem OnWay.fits (h : OnWay start goal q) (apart : Apart start goal) : q.Fits :=
  fits_of_within apart.start_fits apart.goal_fits h.x h.y

theorem OnWay.distanceSquared_eq (h : OnWay start goal q) (apart : Apart start goal) :
    start.distanceSquared q = .ok (start.offsetTo q).norm := by
  have hx := h.x
  have hy := h.y
  have xlt := apart.x_lt
  have ylt := apart.y_lt
  unfold Within at hx hy
  have hsx := Nat.mul_le_mul (show (q.x - start.x).natAbs ≤ 2147483647 by omega)
    (show (q.x - start.x).natAbs ≤ 2147483647 by omega)
  have hsy := Nat.mul_le_mul (show (q.y - start.y).natAbs ≤ 2147483647 by omega)
    (show (q.y - start.y).natAbs ≤ 2147483647 by omega)
  refine Bounded.squareSum_eq_ok_iff.mpr ⟨?_, rfl⟩
  unfold Offset.norm offsetTo
  dsimp only
  omega

theorem step_headingTo (h : OnWay start goal (q.towards goal)) (apart : Apart start goal) :
    q.step (q.headingTo goal) = .ok (q.towards goal) :=
  step_eq_ok rfl rfl (h.fits apart)

/-- The last place in sight on the walk on from `next`, or `safe`. -/
def pulled (start goal : Position) (radius : Nat) : Nat → Position → Position → Position
  | 0, safe, _ => safe
  | steps + 1, safe, next =>
    if (start.offsetTo next).norm ≤ radius then
      pulled start goal radius steps next (next.towards goal)
    else safe

theorem pulled_of_lt {radius : Nat} {safe next : Position}
    (h : radius < (start.offsetTo next).norm) (steps : Nat) :
    pulled start goal radius steps safe next = safe := by
  cases steps with
  | zero => rfl
  | succ steps => exact if_neg (Nat.not_le.mpr h)

def clamped (start goal : Position) (radius steps : Nat) : Position :=
  if (start.offsetTo goal).norm ≤ radius then goal
  else pulled start goal radius steps (start.towards goal) (start.towards goal)

theorem sees_pulled {r : Radius} {safe next : Position} (steps : Nat)
    (hsafe : r.Sees (start.offsetTo safe)) (hnext : OnWay start goal next) :
    r.Sees (start.offsetTo (pulled start goal r.value steps safe next)) := by
  induction steps generalizing safe next with
  | zero => exact hsafe
  | succ steps ih =>
    rw [pulled]
    split
    · rename_i hinside
      exact ih ⟨fun horigin => hnext.ne_start (offsetTo_eq_origin_iff.mp horigin), hinside⟩
        hnext.towards
    · exact hsafe

theorem chebyshev_offsetTo_towards_le (q goal : Position) :
    (q.offsetTo (q.towards goal)).chebyshev ≤ 1 := by
  have alongX := axisStep_bounds (goal.x - q.x) (goal.y - q.y)
  have alongY := axisStep_bounds (goal.y - q.y) (goal.x - q.x)
  rw [towards_eq]
  unfold Offset.chebyshev offsetTo
  dsimp only
  omega

/-- The first step stays in sight, whatever the radius. -/
theorem sees_towards_start (r : Radius) (ne : start ≠ goal) :
    r.Sees (start.offsetTo (start.towards goal)) := by
  have hseed := Offset.norm_le_seedDistance_iff.mpr (chebyshev_offsetTo_towards_le start goal)
  exact ⟨fun horigin => towards_ne ne (offsetTo_eq_origin_iff.mp horigin),
    Nat.le_trans hseed r.minimum_le⟩

theorem sees_clamped (r : Radius) (ne : start ≠ goal) (steps : Nat) :
    r.Sees (start.offsetTo (clamped start goal r.value steps)) := by
  unfold clamped
  split
  · rename_i hinside
    exact ⟨fun horigin => ne (offsetTo_eq_origin_iff.mp horigin).symm, hinside⟩
  · exact sees_pulled steps (sees_towards_start r ne) (onWay_towards_start ne)

end Way

end Position

namespace Pathfinder

open Position

variable {p : Pathfinder} {start goal : Position}

theorem pull_eq_ok (apart : Apart start goal) (steps : Nat) {safe next : Position}
    (hnext : OnWay start goal next) :
    p.pull start goal steps safe next =
      .ok (pulled start goal p.radius.value steps safe next) := by
  induction steps generalizing safe next with
  | zero => rfl
  | succ steps ih =>
    rw [pull, hnext.distanceSquared_eq apart, ok_bind, pulled]
    split
    · rw [step_headingTo hnext.towards apart, ok_bind, ih hnext.towards]
    · rfl

theorem clampTarget_eq_ok (apart : Apart start goal) :
    p.clampTarget start goal = .ok (clamped start goal p.radius.value p.clampSteps) := by
  rw [clampTarget, (onWay_goal apart.ne).distanceSquared_eq apart, ok_bind, clamped]
  split
  · rfl
  · rw [step_headingTo (onWay_towards_start apart.ne) apart, ok_bind,
      pull_eq_ok apart _ (onWay_towards_start apart.ne)]

theorem Serves.clampTarget_eq_ok {radius : Radius} (h : p.Serves radius)
    (apart : Apart start goal) :
    p.clampTarget start goal = .ok (clamped start goal radius.value p.clampSteps) :=
  h.radius_eq ▸ Pathfinder.clampTarget_eq_ok apart

end Pathfinder

end GridRoute
