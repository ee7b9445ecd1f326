import GridRoute.Proofs.Beeline

/-!
The survey of a pull. A pull takes its distances, headings and steps with instruments; those of a survey write down
every reading. Between any places on the map the walk is exact, reading by reading, however far away the target is, and
no step of it leaves the map. What can fail is the distance of the target itself, which is taken first: squared, it has
up to 65 bits, and between places near opposite corners of the map 64 are not enough.
-/

namespace GridRoute

structure Instruments (m : Type → Type) where
  distance : Position → Position → m Nat
  heading : Position → Position → m Direction
  step : Position → Direction → m Position

def Instruments.plain : Instruments (Except Fault) where
  distance := Position.distanceSquared
  heading p q := .ok (p.headingTo q)
  step := Position.step

inductive Reading where
  | distance (p q : Position) (found : Except Fault Nat)
  | heading (p q : Position)
  | step (p : Position) (d : Direction) (found : Except Fault Position)

/-- The reading is right without any end of the range: the squared distance and the place of a step are those of whole
numbers, the place is on the map, and the products that a heading compares have 63 bits. -/
def Reading.Exact : Reading → Prop
  | .distance p q found => ∃ n : Nat, found = .ok n ∧ (n : Int) = (q.x - p.x) ^ 2 + (q.y - p.y) ^ 2
  | .heading p q =>
    (q.x - p.x).natAbs * 1000000 ≤ 9223372036854775807 ∧ (q.y - p.y).natAbs * 1000000 ≤ 9223372036854775807
  | .step p d found => ∃ q, found = .ok q ∧ q.Fits ∧ q.x = p.x + d.delta.1 ∧ q.y = p.y + d.delta.2

/-- Computations that write their readings down. These stay when a computation fails. -/
abbrev Surveyed := ExceptT Fault (StateM (List Reading))

def Surveyed.read {α : Type} (reading : Reading) (found : Except Fault α) : Surveyed α :=
  ExceptT.mk fun readings => (found, readings ++ [reading])

def Surveyed.survey {α : Type} (x : Surveyed α) : Except Fault α × List Reading := (x.run.run []).run

def Instruments.surveyed : Instruments Surveyed where
  distance p q := .read (.distance p q (p.distanceSquared q)) (p.distanceSquared q)
  heading p q := .read (.heading p q) (.ok (p.headingTo q))
  step p d := .read (.step p d (p.step d)) (p.step d)

namespace Pathfinder

section Instruments

variable {m : Type → Type} [Monad m] (i : Instruments m) (p : Pathfinder) (origin target : Position)

def pullBy : Nat → Position → Position → m Position
  | 0, safe, _ => pure safe
  | steps + 1, safe, next => do
    if (← i.distance origin next) ≤ p.radius.value then
      pullBy steps next (← i.step next (← i.heading next target))
    else
      return safe

def walkBy : m Position := do
  let next ← i.step origin (← i.heading origin target)
  p.pullBy i origin target p.clampSteps next next

def clampTargetBy : m Position := do
  if (← i.distance origin target) ≤ p.radius.value then return target
  p.walkBy i origin target

end Instruments

theorem pullBy_plain (p : Pathfinder) (origin target : Position) (steps : Nat) (safe next : Position) :
    p.pullBy .plain origin target steps safe next = p.pull origin target steps safe next := by
  induction steps generalizing safe next with
  | zero => rfl
  | succ steps ih =>
    simp only [pullBy, ih]
    rfl

theorem clampTargetBy_plain (p : Pathfinder) (origin target : Position) :
    p.clampTargetBy .plain origin target = p.clampTarget origin target := by
  simp only [clampTargetBy, walkBy, pullBy_plain]
  rfl

end Pathfinder

/-- Whatever was read before, the computation comes out as `y`, and makes no readings but what `P` allows. -/
def Surveys {α : Type} (P : Reading → Prop) (x : Surveyed α) (y : Except Fault α) : Prop :=
  ∀ before, ∃ readings, x.run.run before = (y, before ++ readings) ∧ ∀ reading ∈ readings, P reading

namespace Surveys

variable {α β : Type} {P : Reading → Prop}

theorem pure (a : α) : Surveys P (pure a) (.ok a) := fun before =>
  ⟨[], by rw [List.append_nil]; rfl, by simp⟩

theorem read {reading : Reading} (h : P reading) (found : Except Fault α) :
    Surveys P (.read reading found) found := fun _ =>
  ⟨[reading], rfl, List.forall_mem_singleton.mpr h⟩

theorem bind {x : Surveyed α} {y : Except Fault α} {f : α → Surveyed β} {g : α → Except Fault β}
    (h : Surveys P x y) (hf : ∀ a, y = .ok a → Surveys P (f a) (g a)) : Surveys P (x >>= f) (y >>= g) := by
  intro before
  obtain ⟨first, hfirst, hfirstP⟩ := h before
  cases y with
  | error fault =>
    refine ⟨first, ?_, hfirstP⟩
    rw [ExceptT.run_bind, StateT.run_bind, hfirst]
    rfl
  | ok a =>
    obtain ⟨second, hsecond, hsecondP⟩ := hf a rfl (before ++ first)
    refine ⟨first ++ second, ?_, List.forall_mem_append.mpr ⟨hfirstP, hsecondP⟩⟩
    rw [ExceptT.run_bind, StateT.run_bind, hfirst, ← List.append_assoc]
    exact hsecond

theorem andThen {x : Surveyed α} {a : α} {f : α → Surveyed β} {y : Except Fault β} (h : Surveys P x (.ok a))
    (hf : Surveys P (f a) y) : Surveys P (x >>= f) y :=
  h.bind (g := fun _ => y) fun _ hb => Except.ok.inj hb ▸ hf

end Surveys

theorem Offset.norm_le_of_chebyshev_le {o : Offset} {k : Nat} (h : o.chebyshev ≤ k) : o.norm ≤ k * k + k * k := by
  obtain ⟨hx, hy⟩ := Nat.max_le.mp h
  exact Nat.add_le_add (Nat.mul_le_mul hx hx) (Nat.mul_le_mul hy hy)

namespace Position

variable {p q start goal : Position}

theorem natCast_norm_offsetTo (p q : Position) :
    ((p.offsetTo q).norm : Int) = (q.x - p.x) ^ 2 + (q.y - p.y) ^ 2 := by
  rw [Offset.norm, Int.natCast_add, Int.natAbs_mul_self, Int.natAbs_mul_self, sq, sq]
  rfl

theorem distanceSquared_of_lt (h : (p.offsetTo q).norm < 2 ^ 64) :
    p.distanceSquared q = .ok (p.offsetTo q).norm :=
  Bounded.squareSum_eq_ok_iff.mpr ⟨h, rfl⟩

/-- Both squares of a distance on the map have 64 bits. Their sum has 65 at most. -/
theorem distanceSquared_of_le (hp : p.Fits) (hq : q.Fits) (h : 2 ^ 64 ≤ (p.offsetTo q).norm) :
    p.distanceSquared q = .error .addOverflow := by
  have side {a b : Int} (ha : Bounded.Fits a) (hb : Bounded.Fits b) :
      (b - a).natAbs * (b - a).natAbs < 18446744073709551616 := by
    rw [Bounded.fits_iff] at ha hb
    have hside : (b - a).natAbs ≤ 4294967295 := by omega
    have hsquare := Nat.mul_le_mul hside hside
    omega
  have hx := side hp.1 hq.1
  have hy := side hp.2 hq.2
  rw [distanceSquared, Bounded.squareSum, if_neg (by omega)]
  exact if_pos h

theorem within_towards (hx : Within start.x goal.x q.x) (hy : Within start.y goal.y q.y) :
    Within start.x goal.x (q.towards goal).x ∧ Within start.y goal.y (q.towards goal).y := by
  rw [towards_eq]
  exact ⟨within_add_axisStep hx, within_add_axisStep hy⟩

/-- One move leads from the window to a place that is hardly farther. -/
theorem norm_offsetTo_towards_lt {r : Radius} (h : (start.offsetTo q).norm ≤ r.value) :
    (start.offsetTo (q.towards goal)).norm < 2 ^ 64 := by
  have hseen : (start.offsetTo q).chebyshev ≤ 64 :=
    Nat.max_le.mpr (Offset.natAbs_le_of_norm_le (k := 64) (Nat.le_trans h r.le_maximum))
  have hmove := chebyshev_offsetTo_towards_le q goal
  have hround := chebyshev_offsetTo_le start q (q.towards goal)
  have hnorm := Offset.norm_le_of_chebyshev_le (o := start.offsetTo (q.towards goal)) (k := 65) (by omega)
  omega

end Position

namespace Surveys

open Position

variable {start goal p q : Position}

theorem distance (h : (p.offsetTo q).norm < 2 ^ 64) :
    Surveys Reading.Exact (Instruments.surveyed.distance p q) (.ok (p.offsetTo q).norm) := by
  have hfound := distanceSquared_of_lt h
  rw [← hfound]
  exact .read ⟨_, hfound, natCast_norm_offsetTo p q⟩ _

theorem heading (hp : p.Fits) (hq : q.Fits) :
    Surveys Reading.Exact (Instruments.surveyed.heading p q) (.ok (p.headingTo q)) :=
  .read ⟨natAbs_sub_mul_le hq.1 hp.1, natAbs_sub_mul_le hq.2 hp.2⟩ _

theorem step (fits : (q.towards goal).Fits) :
    Surveys Reading.Exact (Instruments.surveyed.step q (q.headingTo goal)) (.ok (q.towards goal)) := by
  have hfound : q.step (q.headingTo goal) = .ok (q.towards goal) := step_eq_ok rfl rfl fits
  rw [← hfound]
  exact .read ⟨_, hfound, fits, rfl, rfl⟩ _

theorem pullBy (p : Pathfinder) (hstart : start.Fits) (hgoal : goal.Fits) (steps : Nat) {safe next : Position}
    (hx : Within start.x goal.x next.x) (hy : Within start.y goal.y next.y)
    (near : (start.offsetTo next).norm < 2 ^ 64) :
    Surveys Reading.Exact (p.pullBy .surveyed start goal steps safe next)
      (.ok (pulled start goal p.radius.value steps safe next)) := by
  induction steps generalizing safe next with
  | zero => exact .pure safe
  | succ steps ih =>
    rw [pulled]
    refine (distance near).andThen ?_
    split
    · rename_i inside
      obtain ⟨hx', hy'⟩ := within_towards hx hy
      refine (heading (fits_of_within hstart hgoal hx hy) hgoal).andThen ?_
      refine (step (fits_of_within hstart hgoal hx' hy')).andThen ?_
      exact ih hx' hy' (norm_offsetTo_towards_lt inside)
    · exact .pure safe

theorem walkBy (p : Pathfinder) (hstart : start.Fits) (hgoal : goal.Fits) :
    Surveys Reading.Exact (p.walkBy .surveyed start goal)
      (.ok (pulled start goal p.radius.value p.clampSteps (start.towards goal) (start.towards goal))) := by
  obtain ⟨hx, hy⟩ := within_towards (within_start start.x goal.x) (within_start start.y goal.y)
  have hhere : (start.offsetTo start).norm ≤ p.radius.value := by
    rw [offsetTo_eq_origin_iff.mpr rfl]
    exact Nat.zero_le _
  refine (heading hstart hgoal).andThen ((step (fits_of_within hstart hgoal hx hy)).andThen ?_)
  exact pullBy p hstart hgoal p.clampSteps hx hy (norm_offsetTo_towards_lt hhere)

theorem pullBy_of_plain (p : Pathfinder) (origin target : Position) (steps : Nat) (safe next : Position) :
    Surveys (fun _ => True) (p.pullBy .surveyed origin target steps safe next)
      (p.pullBy .plain origin target steps safe next) := by
  induction steps generalizing safe next with
  | zero => exact .pure safe
  | succ steps ih =>
    refine (read trivial _).bind fun squared _ => ?_
    split
    · exact (read trivial _).bind fun d _ => (read trivial _).bind fun further _ => ih next further
    · exact .pure safe

theorem of_plain (p : Pathfinder) (origin target : Position) :
    Surveys (fun _ => True) (p.clampTargetBy .surveyed origin target) (p.clampTarget origin target) := by
  rw [← p.clampTargetBy_plain]
  refine (read trivial _).bind fun squared _ => ?_
  split
  · exact .pure target
  · refine (read trivial _).bind fun d _ => (read trivial _).bind fun next _ => ?_
    exact pullBy_of_plain p origin target p.clampSteps next next

theorem survey_eq {α : Type} {P : Reading → Prop} {x : Surveyed α} {y : Except Fault α} (h : Surveys P x y) :
    ∃ readings, x.survey = (y, readings) ∧ ∀ reading ∈ readings, P reading :=
  h []

end Surveys

namespace Pathfinder

open Position

variable {start goal : Position}

theorem clampTargetBy_surveyed (p : Pathfinder) (start goal : Position) :
    p.clampTargetBy .surveyed start goal =
      Surveyed.read (.distance start goal (start.distanceSquared goal)) (start.distanceSquared goal) >>= fun squared =>
        if squared ≤ p.radius.value then pure goal else p.walkBy .surveyed start goal :=
  rfl

/-- The distance of the target is the first reading. The others are exact, and there are none if it fails. -/
theorem survey_clampTargetBy (p : Pathfinder) (hstart : start.Fits) (hgoal : goal.Fits) :
    ∃ others, (p.clampTargetBy .surveyed start goal).survey =
        (if (start.offsetTo goal).norm < 2 ^ 64 then .ok (clamped start goal p.radius.value p.clampSteps)
          else .error .addOverflow,
          .distance start goal (start.distanceSquared goal) :: others) ∧
      ∀ reading ∈ others, reading.Exact := by
  rw [clampTargetBy_surveyed]
  split
  · rename_i near
    have hrest : Surveys Reading.Exact
        (if (start.offsetTo goal).norm ≤ p.radius.value then pure goal else p.walkBy .surveyed start goal)
        (.ok (clamped start goal p.radius.value p.clampSteps)) := by
      rw [clamped]
      split
      · exact .pure goal
      · exact .walkBy p hstart hgoal
    rw [distanceSquared_of_lt near]
    obtain ⟨others, hrun, exact⟩ := hrest [.distance start goal (.ok (start.offsetTo goal).norm)]
    exact ⟨others, hrun, exact⟩
  · rename_i far
    rw [distanceSquared_of_le hstart hgoal (Nat.le_of_not_lt far)]
    exact ⟨[], rfl, by simp⟩

theorem fst_survey_clampTargetBy (p : Pathfinder) (start goal : Position) :
    (p.clampTargetBy .surveyed start goal).survey.1 = p.clampTarget start goal := by
  obtain ⟨readings, hsurvey, -⟩ := (Surveys.of_plain p start goal).survey_eq
  rw [hsurvey]

theorem clampTarget_eq_ite (p : Pathfinder) (hstart : start.Fits) (hgoal : goal.Fits) :
    p.clampTarget start goal =
      if (start.offsetTo goal).norm < 2 ^ 64 then .ok (clamped start goal p.radius.value p.clampSteps)
      else .error .addOverflow := by
  obtain ⟨others, hsurvey, -⟩ := p.survey_clampTargetBy hstart hgoal
  rw [← fst_survey_clampTargetBy, hsurvey]

theorem exact_distance_iff (hstart : start.Fits) (hgoal : goal.Fits) :
    (Reading.distance start goal (start.distanceSquared goal)).Exact ↔ (start.offsetTo goal).norm < 2 ^ 64 := by
  constructor
  · rintro ⟨n, hfound, -⟩
    by_contra far
    rw [distanceSquared_of_le hstart hgoal (Nat.le_of_not_lt far)] at hfound
    cases hfound
  · intro near
    exact ⟨_, distanceSquared_of_lt near, natCast_norm_offsetTo start goal⟩

/-- Clamping a target goes through, and with exact readings alone, just if the squared distance of the target has 64
bits. Otherwise the sum of the two squares faults, and this distance is the only reading. The walk to the target would
be exact and stay on the map in either case. -/
theorem clampTarget_exact_iff (radius : Radius) {start goal : Position} (hstart : start.Fits) (hgoal : goal.Fits) :
    ∃ p others, compile radius.value = .ok p ∧
      (p.clampTargetBy .surveyed start goal).survey =
        (p.clampTarget start goal, .distance start goal (start.distanceSquared goal) :: others) ∧
      (∀ reading ∈ others, reading.Exact) ∧
      ((Reading.distance start goal (start.distanceSquared goal)).Exact ↔ (start.offsetTo goal).norm < 2 ^ 64) ∧
      p.clampTarget start goal =
        (if (start.offsetTo goal).norm < 2 ^ 64 then .ok (clamped start goal radius.value radius.clampSteps)
          else .error .addOverflow) ∧
      ∃ seen walk, (p.walkBy .surveyed start goal).survey = (.ok seen, walk) ∧ ∀ reading ∈ walk, reading.Exact := by
  obtain ⟨p, hcompile, h⟩ := exists_compile_eq_ok radius
  have hclamp := p.clampTarget_eq_ite hstart hgoal
  obtain ⟨others, hsurvey, exact⟩ := p.survey_clampTargetBy hstart hgoal
  obtain ⟨walk, hwalk, exactWalk⟩ := (Surveys.walkBy p hstart hgoal).survey_eq
  refine ⟨p, others, hcompile, ?_, exact, exact_distance_iff hstart hgoal, ?_, _, walk, hwalk, exactWalk⟩
  · rw [hsurvey, hclamp]
  · rw [hclamp, h.radius_eq, h.clampSteps_eq]

theorem clampTarget_exact_iff_longest :
    (⟨-2147483648, 0⟩ : Position).Fits ∧ (⟨1899319608, 1438793758⟩ : Position).Fits ∧
    ∃ p, compile 20 = .ok p ∧
      p.clampTarget ⟨-2147483648, 0⟩ ⟨1899319608, 1438793758⟩ = .ok ⟨-2147483644, 0⟩ := by
  have hstart : (⟨-2147483648, 0⟩ : Position).Fits := by decide
  have hgoal : (⟨1899319608, 1438793758⟩ : Position).Fits := by decide
  obtain ⟨p, -, hcompile, -, -, -, hclamp, -⟩ := clampTarget_exact_iff ⟨20, by decide, by decide⟩ hstart hgoal
  refine ⟨hstart, hgoal, p, hcompile, hclamp.trans ?_⟩
  decide +kernel

/-- One unit farther, the sum of the squares is 2 ^ 64 + 1. -/
theorem clampTarget_overflows :
    (⟨-2147483648, 0⟩ : Position).Fits ∧ (⟨1899319608, 1438793759⟩ : Position).Fits ∧
    ((⟨-2147483648, 0⟩ : Position).offsetTo ⟨1899319608, 1438793759⟩).norm = 2 ^ 64 + 1 ∧
    ∃ p, compile 20 = .ok p ∧
      p.clampTarget ⟨-2147483648, 0⟩ ⟨1899319608, 1438793759⟩ = .error .addOverflow := by
  have hstart : (⟨-2147483648, 0⟩ : Position).Fits := by decide
  have hgoal : (⟨1899319608, 1438793759⟩ : Position).Fits := by decide
  obtain ⟨p, hcompile, -⟩ := exists_compile_eq_ok ⟨20, by decide, by decide⟩
  refine ⟨hstart, hgoal, by decide +kernel, p, hcompile, (p.clampTarget_eq_ite hstart hgoal).trans ?_⟩
  exact if_neg (by decide +kernel)

end Pathfinder

end GridRoute
