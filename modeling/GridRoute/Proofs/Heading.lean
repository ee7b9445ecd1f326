import GridRoute.Proofs.Approach
import Mathlib.Geometry.Euclidean.Angle.Unoriented.Basic
import Mathlib.Analysis.Complex.Norm
import Mathlib.NumberTheory.Real.Irrational
import Mathlib.Tactic.Positivity

/-!
The heading and the nearest direction. Which compass direction makes the smallest angle with a displacement is a matter
of squares, as an axis and a diagonal meet at a slope of √2 - 1. The heading compares with 414214 millionths instead.
These are a little more, and so in the narrow gap between the two it follows an axis though a diagonal is nearer. No
displacement shorter than 1393 lies in the gap.
-/

namespace GridRoute

namespace Offset

/-- The direction nearest to a displacement: along an axis, while the displacement leads farther that way than along
the diagonal. -/
def bearing (o : Offset) : Int × Int :=
  if o.manhattan ^ 2 < 2 * o.x.natAbs ^ 2 then (o.x.sign, 0)
  else if o.manhattan ^ 2 < 2 * o.y.natAbs ^ 2 then (0, o.y.sign)
  else (o.x.sign, o.y.sign)

/-- The slope is not below the tangent of 22.5 degrees, √2 - 1, and not above 414214 millionths. -/
def TangentGap (long short : Nat) : Prop :=
  2 * long ^ 2 ≤ (long + short) ^ 2 ∧ short * 1000000 ≤ long * 414214

instance (long short : Nat) : Decidable (TangentGap long short) := inferInstanceAs (Decidable (_ ∧ _))

def InTangentGap (o : Offset) : Prop :=
  TangentGap o.x.natAbs o.y.natAbs ∨ TangentGap o.y.natAbs o.x.natAbs

instance (o : Offset) : Decidable o.InTangentGap := inferInstanceAs (Decidable (_ ∨ _))

theorem level_of_lt {long short : Nat} (h : (long + short) ^ 2 < 2 * long ^ 2) :
    short * 1000000 ≤ long * 414214 := by
  by_contra steep
  -- The square of 1414214 is more than 2000000 millions.
  have hsum : long * 1414214 < (long + short) * 1000000 := by omega
  have hsquares := Nat.pow_lt_pow_left hsum (n := 2) (by decide)
  rw [Nat.mul_pow, Nat.mul_pow] at hsquares
  omega

theorem not_tangentGap_of_lt {long short : Nat} (h : (long + short) ^ 2 < 2 * long ^ 2) :
    ¬ TangentGap long short ∧ ¬ TangentGap short long := by
  have level := level_of_lt h
  refine ⟨fun gap => Nat.not_lt.mpr gap.1 h, fun gap => ?_⟩
  have hswap := gap.2
  obtain rfl : long = 0 := by omega
  exact Nat.not_lt_zero _ h

/-- A slope in the gap lies between 408/985 and 169/408. These are neighbours, so that no fraction between them has a
denominator below the sum of theirs. -/
theorem TangentGap.le_long {long short : Nat} (h : TangentGap long short) (pos : 0 < long) : 1393 ≤ long := by
  obtain ⟨steep, level⟩ := h
  have below : 408 * long < 985 * short := by
    by_contra hle
    -- The square of 1393 is one less than twice that of 985.
    have hsum : 985 * (long + short) ≤ 1393 * long := by omega
    have hsquares := Nat.pow_le_pow_left hsum 2
    have hpos := Nat.pow_pos (n := 2) pos
    rw [Nat.mul_pow, Nat.mul_pow] at hsquares
    omega
  have above : 408 * short < 169 * long := by omega
  omega

theorem TangentGap.short_lt {long short : Nat} (h : TangentGap long short) (pos : 0 < long) : short < long := by
  have level := h.2
  omega

end Offset

namespace Position

variable {along across : Int}

theorem axisSteps_of_level (level : across.natAbs * 1000000 ≤ along.natAbs * 414214) (ne : along ≠ 0) :
    axisStep along across = along.sign ∧ axisStep across along = 0 :=
  ⟨if_neg (by omega), if_pos level⟩

theorem axisStep_eq_sign_iff (ne : along ≠ 0) :
    axisStep along across = along.sign ↔ ¬ along.natAbs * 1000000 ≤ across.natAbs * 414214 := by
  refine ⟨fun h level => ?_, fun h => if_neg h⟩
  have hzero : along.sign = 0 := h.symm.trans (if_pos level)
  exact ne (Int.sign_eq_zero_iff_zero.mp hzero)

end Position

namespace Offset

open Position

variable {o : Offset}

theorem ne_zero_of_ne_origin (ne : o ≠ origin) : o.x ≠ 0 ∨ o.y ≠ 0 := by
  by_contra hzero
  obtain ⟨hx, hy⟩ := not_or.mp hzero
  exact ne (Offset.mk.injEq .. |>.mpr ⟨not_not.mp hx, not_not.mp hy⟩)

theorem bearing_cases (ne : o ≠ origin) :
    (o.x ≠ 0 ∧ o.manhattan ^ 2 < 2 * o.x.natAbs ^ 2 ∧ o.bearing = (o.x.sign, 0)) ∨
      (o.y ≠ 0 ∧ o.manhattan ^ 2 < 2 * o.y.natAbs ^ 2 ∧ o.bearing = (0, o.y.sign)) ∨
      (o.x ≠ 0 ∧ o.y ≠ 0 ∧ 2 * o.x.natAbs ^ 2 ≤ o.manhattan ^ 2 ∧ 2 * o.y.natAbs ^ 2 ≤ o.manhattan ^ 2 ∧
        o.bearing = (o.x.sign, o.y.sign)) := by
  have nonzero {side : Int} {n : Nat} (h : n < 2 * side.natAbs ^ 2) : side ≠ 0 := by
    rintro rfl
    exact Nat.not_lt_zero _ h
  unfold bearing
  by_cases horizontal : o.manhattan ^ 2 < 2 * o.x.natAbs ^ 2
  · exact .inl ⟨nonzero horizontal, horizontal, if_pos horizontal⟩
  by_cases vertical : o.manhattan ^ 2 < 2 * o.y.natAbs ^ 2
  · exact .inr (.inl ⟨nonzero vertical, vertical, (if_neg horizontal).trans (if_pos vertical)⟩)
  · have steepX := Nat.le_of_not_lt horizontal
    have steepY := Nat.le_of_not_lt vertical
    have apart := ne_zero_of_ne_origin ne
    refine .inr (.inr ⟨fun hx => ?_, fun hy => ?_, steepX, steepY, (if_neg horizontal).trans (if_neg vertical)⟩)
    · have hpos : 0 < o.y.natAbs ^ 2 := Nat.pow_pos (by omega)
      rw [manhattan, hx, Int.natAbs_zero, Nat.zero_add] at steepY
      omega
    · have hpos : 0 < o.x.natAbs ^ 2 := Nat.pow_pos (by omega)
      rw [manhattan, hy, Int.natAbs_zero, Nat.add_zero] at steepX
      omega

theorem bearing_ne_zero (ne : o ≠ origin) : o.bearing ≠ (0, 0) := by
  intro hzero
  obtain ⟨hx, -, hbearing⟩ | ⟨hy, -, hbearing⟩ | ⟨hx, -, -, -, hbearing⟩ := bearing_cases ne
  · exact hx (Int.sign_eq_zero_iff_zero.mp (congrArg Prod.fst (hbearing.symm.trans hzero)))
  · exact hy (Int.sign_eq_zero_iff_zero.mp (congrArg Prod.snd (hbearing.symm.trans hzero)))
  · exact hx (Int.sign_eq_zero_iff_zero.mp (congrArg Prod.fst (hbearing.symm.trans hzero)))

theorem exists_delta_eq_bearing (o : Offset) : ∃ d : Direction, d.delta = o.bearing := by
  have hx := Int.sign_trichotomy o.x
  have hy := Int.sign_trichotomy o.y
  unfold bearing
  split
  · exact Direction.exists_delta _ _ (by omega) (by omega)
  split
  · exact Direction.exists_delta _ _ (by omega) (by omega)
  · exact Direction.exists_delta _ _ (by omega) (by omega)

theorem axisSteps_of_horizontal (hx : o.x ≠ 0) (horizontal : o.manhattan ^ 2 < 2 * o.x.natAbs ^ 2) :
    (axisStep o.x o.y, axisStep o.y o.x) = (o.x.sign, 0) ∧ ¬ o.InTangentGap :=
  ⟨Prod.ext_iff.mpr (axisSteps_of_level (level_of_lt horizontal) hx), not_or.mpr (not_tangentGap_of_lt horizontal)⟩

theorem axisSteps_of_vertical (hy : o.y ≠ 0) (vertical : o.manhattan ^ 2 < 2 * o.y.natAbs ^ 2) :
    (axisStep o.x o.y, axisStep o.y o.x) = (0, o.y.sign) ∧ ¬ o.InTangentGap := by
  rw [manhattan, Nat.add_comm] at vertical
  exact ⟨Prod.ext_iff.mpr (axisSteps_of_level (level_of_lt vertical) hy).symm,
    not_or.mpr (not_tangentGap_of_lt vertical).symm⟩

theorem InTangentGap.bearing_eq (inGap : o.InTangentGap) (ne : o ≠ origin) :
    o.x ≠ 0 ∧ o.y ≠ 0 ∧ o.bearing = (o.x.sign, o.y.sign) := by
  obtain ⟨hx, horizontal, -⟩ | ⟨hy, vertical, -⟩ | ⟨hx, hy, -, -, hbearing⟩ := bearing_cases ne
  · exact absurd inGap (axisSteps_of_horizontal hx horizontal).2
  · exact absurd inGap (axisSteps_of_vertical hy vertical).2
  · exact ⟨hx, hy, hbearing⟩

theorem InTangentGap.le_chebyshev (inGap : o.InTangentGap) (ne : o ≠ origin) : 1393 ≤ o.chebyshev := by
  obtain ⟨hx, hy, -⟩ := inGap.bearing_eq ne
  rcases inGap with gap | gap
  · exact Nat.le_trans (gap.le_long (Int.natAbs_pos.mpr hx)) (Nat.le_max_left ..)
  · exact Nat.le_trans (gap.le_long (Int.natAbs_pos.mpr hy)) (Nat.le_max_right ..)

theorem axisSteps_eq_bearing_iff (ne : o ≠ origin) :
    (axisStep o.x o.y, axisStep o.y o.x) = o.bearing ↔ ¬ o.InTangentGap := by
  obtain ⟨hx, horizontal, hbearing⟩ | ⟨hy, vertical, hbearing⟩ | ⟨hx, hy, steepX, steepY, hbearing⟩ :=
    bearing_cases ne
  · have hsteps := axisSteps_of_horizontal hx horizontal
    exact iff_of_true (hsteps.1.trans hbearing.symm) hsteps.2
  · have hsteps := axisSteps_of_vertical hy vertical
    exact iff_of_true (hsteps.1.trans hbearing.symm) hsteps.2
  · have hcomm : o.y.natAbs + o.x.natAbs = o.manhattan := Nat.add_comm ..
    rw [hbearing, Prod.mk.injEq, axisStep_eq_sign_iff hx, axisStep_eq_sign_iff hy]
    unfold InTangentGap TangentGap
    rw [hcomm, show o.x.natAbs + o.y.natAbs = o.manhattan from rfl, and_iff_right steepX, and_iff_right steepY,
      not_or, and_comm]

end Offset

section Plane

noncomputable def Offset.vector (o : Offset) : ℂ := ⟨o.x, o.y⟩

noncomputable def Direction.angle (d : Direction) (o : Offset) : ℝ :=
  InnerProductGeometry.angle (Offset.mk d.delta.1 d.delta.2).vector o.vector

/-- Every other compass direction makes a larger angle with the displacement. -/
def Direction.IsNearest (d : Direction) (o : Offset) : Prop :=
  d ≠ .center ∧ ∀ e, e ≠ .center → e ≠ d → d.angle o < e.angle o

theorem Direction.IsNearest.unique {d e : Direction} {o : Offset} (hd : d.IsNearest o) (he : e.IsNearest o) :
    d = e := by
  by_contra ne
  exact lt_asymm (hd.2 e he.1 (Ne.symm ne)) (he.2 d hd.1 ne)

/-- How far a displacement by `x` and `y` leads in the direction of `u` and `w`. -/
noncomputable def reach (u w x y : Int) : ℝ := (u * x + w * y) / √(u ^ 2 + w ^ 2)

theorem reach_swap (u w x y : Int) : reach u w x y = reach w u y x := by
  rw [reach, reach, add_comm, add_comm ((u : ℝ) ^ 2)]

theorem reach_axis {u : Int} (hu : u = 1 ∨ u = -1) (x y : Int) : reach u 0 x y = (u * x : Int) := by
  rcases hu with rfl | rfl <;> simp [reach]

theorem reach_diagonal {u w : Int} (hu : u = 1 ∨ u = -1) (hw : w = 1 ∨ w = -1) (x y : Int) :
    reach u w x y = (u * x + w * y : Int) / √2 := by
  have hsquares : (u : ℝ) ^ 2 + (w : ℝ) ^ 2 = 2 := by
    rcases hu with rfl | rfl <;> rcases hw with rfl | rfl <;> norm_num
  rw [reach, hsquares]
  push_cast
  rfl

theorem reach_div_norm (d : Direction) (o : Offset) :
    reach d.delta.1 d.delta.2 o.x o.y / ‖o.vector‖ =
      inner ℝ (Offset.mk d.delta.1 d.delta.2).vector o.vector /
        (‖(Offset.mk d.delta.1 d.delta.2).vector‖ * ‖o.vector‖) := by
  rw [reach, div_div, Complex.inner, Complex.norm_eq_sqrt_sq_add_sq (Offset.mk d.delta.1 d.delta.2).vector]
  simp [Offset.vector, mul_comm]

theorem Direction.angle_lt_angle {d e : Direction} {o : Offset} (ne : o ≠ Offset.origin)
    (h : reach e.delta.1 e.delta.2 o.x o.y < reach d.delta.1 d.delta.2 o.x o.y) : d.angle o < e.angle o := by
  have hnorm : 0 < ‖o.vector‖ := by
    rw [norm_pos_iff]
    intro hzero
    apply ne
    obtain ⟨hx, hy⟩ := Complex.mk.inj hzero
    exact Offset.mk.injEq .. |>.mpr ⟨Int.cast_eq_zero.mp hx, Int.cast_eq_zero.mp hy⟩
  have cosine (d : Direction) := abs_le.mp (abs_real_inner_div_norm_mul_norm_le_one
    (Offset.mk d.delta.1 d.delta.2).vector o.vector)
  -- Both cosines are a reach over the length of the displacement, and the arc cosine decreases.
  refine Real.strictAntiOn_arccos (cosine e) (cosine d) ?_
  rw [← reach_div_norm, ← reach_div_norm]
  exact div_lt_div_of_pos_right h hnorm

theorem lt_diagonal_iff {n side : Nat} : n < √2 * side ↔ n ^ 2 < 2 * side ^ 2 := by
  have hsquare : √2 * side = √(2 * side ^ 2) := by
    rw [Real.sqrt_mul (by norm_num), Real.sqrt_sq (Nat.cast_nonneg side)]
  rw [hsquare, Real.lt_sqrt (Nat.cast_nonneg n)]
  exact_mod_cast Iff.rfl

/-- The diagonal of a square with a whole side is never whole itself, so that there is no tie. -/
theorem diagonal_lt_iff {side n : Nat} (ne : side ≠ 0) : √2 * side < n ↔ 2 * side ^ 2 ≤ n ^ 2 := by
  rw [lt_iff_le_and_ne, and_iff_left ((irrational_sqrt_two.mul_natCast ne).ne_nat n), ← not_lt,
    lt_diagonal_iff, Nat.not_lt]

section Reach

variable {u w x y : Int}

theorem cast_le_cast {z : Int} {n : Nat} (h : z ≤ n) : (z : ℝ) ≤ n :=
  (Int.cast_le.mpr h).trans_eq (Int.cast_natCast n)

theorem cast_lt_cast {z : Int} {n : Nat} (h : z < n) : (z : ℝ) < n :=
  (Int.cast_lt.mpr h).trans_eq (Int.cast_natCast n)

theorem mul_le_natAbs (move : max u.natAbs w.natAbs = 1) (x y : Int) :
    u * x ≤ x.natAbs ∧ w * y ≤ y.natAbs := by
  have short {v : Int} (hv : v.natAbs ≤ 1) (z : Int) : v * z ≤ z.natAbs := by
    obtain rfl | rfl | rfl : v = -1 ∨ v = 0 ∨ v = 1 := by omega
    all_goals omega
  exact ⟨short (by omega) x, short (by omega) y⟩

theorem mul_nonpos_of_ne_sign (hu : u.natAbs ≤ 1) (ne : u ≠ x.sign) : u * x ≤ 0 := by
  obtain hx | rfl | hx := Int.lt_trichotomy x 0
  · rw [Int.sign_eq_neg_one_of_neg hx] at ne
    obtain rfl | rfl : u = 0 ∨ u = 1 := by omega
    all_goals omega
  · rw [Int.mul_zero]
  · rw [Int.sign_eq_one_of_pos hx] at ne
    obtain rfl | rfl : u = 0 ∨ u = -1 := by omega
    all_goals omega

theorem reach_lt {r : ℝ} (move : max u.natAbs w.natAbs = 1) (horizontal : w = 0 → (u * x : Int) < r)
    (vertical : u = 0 → (w * y : Int) < r)
    (diagonal : u ≠ 0 → w ≠ 0 → (u * x + w * y : Int) < √2 * r) : reach u w x y < r := by
  by_cases hw : w = 0
  · subst hw
    rw [reach_axis (by omega)]
    exact horizontal rfl
  by_cases hu : u = 0
  · subst hu
    rw [reach_swap, reach_axis (by omega)]
    exact vertical rfl
  · rw [reach_diagonal (by omega) (by omega), div_lt_iff₀ (by positivity), mul_comm r]
    exact diagonal hu hw

/-- The longer difference wins against an axis, and against a diagonal along which the displacement is short. -/
theorem reach_lt_longer (move : max u.natAbs w.natAbs = 1) (longer : y.natAbs < x.natAbs)
    (ne : (u, w) ≠ (x.sign, 0)) {n : Nat} (diagonal : u ≠ 0 → w ≠ 0 → u * x + w * y ≤ n)
    (short : n ^ 2 < 2 * x.natAbs ^ 2) : reach u w x y < x.natAbs := by
  refine reach_lt move (fun hw => ?_) (fun _ => ?_) fun hu hw => ?_
  · have hback : u * x ≤ 0 := mul_nonpos_of_ne_sign (by omega) fun hsign => ne (Prod.ext hsign hw)
    exact cast_lt_cast (by omega)
  · have hside := (mul_le_natAbs move x y).2
    exact cast_lt_cast (by omega)
  · exact (cast_le_cast (diagonal hu hw)).trans_lt (lt_diagonal_iff.mpr short)

theorem reach_lt_of_level (move : max u.natAbs w.natAbs = 1) (ne : (u, w) ≠ (x.sign, 0))
    (level : (x.natAbs + y.natAbs) ^ 2 < 2 * x.natAbs ^ 2) : reach u w x y < x.natAbs := by
  have longer : y.natAbs < x.natAbs := by
    by_contra hle
    have hdouble : (2 * x.natAbs) ^ 2 ≤ (x.natAbs + y.natAbs) ^ 2 := Nat.pow_le_pow_left (by omega) 2
    rw [Nat.mul_pow] at hdouble
    omega
  refine reach_lt_longer move longer ne (fun _ _ => ?_) level
  obtain ⟨hx, hy⟩ := mul_le_natAbs move x y
  omega

theorem mul_nonpos_of_ne_signs (move : max u.natAbs w.natAbs = 1) (ne : (u, w) ≠ (x.sign, y.sign)) :
    u * x ≤ 0 ∨ w * y ≤ 0 := by
  rw [Ne, Prod.mk.injEq, not_and_or] at ne
  exact ne.imp (mul_nonpos_of_ne_sign (by omega)) (mul_nonpos_of_ne_sign (by omega))

theorem reach_lt_of_ne_diagonal (move : max u.natAbs w.natAbs = 1) (longer : y.natAbs < x.natAbs)
    (ne : (u, w) ≠ (x.sign, 0)) (other : (u, w) ≠ (x.sign, y.sign)) : reach u w x y < x.natAbs := by
  have hside := Nat.pow_pos (n := 2) (Nat.zero_lt_of_lt longer)
  refine reach_lt_longer move longer ne (fun _ _ => ?_) (by omega : x.natAbs ^ 2 < 2 * x.natAbs ^ 2)
  obtain ⟨hx, hy⟩ := mul_le_natAbs move x y
  have hback := mul_nonpos_of_ne_signs move other
  omega

theorem reach_lt_of_steep (move : max u.natAbs w.natAbs = 1) (hx : x ≠ 0) (hy : y ≠ 0)
    (ne : (u, w) ≠ (x.sign, y.sign)) (steepX : 2 * x.natAbs ^ 2 ≤ (x.natAbs + y.natAbs) ^ 2)
    (steepY : 2 * y.natAbs ^ 2 ≤ (x.natAbs + y.natAbs) ^ 2) :
    reach u w x y < (x.natAbs + y.natAbs : Nat) / √2 := by
  obtain ⟨alongX, alongY⟩ := mul_le_natAbs move x y
  have shorter {side : Nat} (hside : side ≠ 0) (steep : 2 * side ^ 2 ≤ (x.natAbs + y.natAbs) ^ 2) :
      (side : ℝ) < (x.natAbs + y.natAbs : Nat) / √2 := by
    rw [lt_div_iff₀ (by positivity), mul_comm]
    exact (diagonal_lt_iff hside).mpr steep
  refine reach_lt move (fun _ => ?_) (fun _ => ?_) fun _ _ => ?_
  · exact (cast_le_cast alongX).trans_lt (shorter (Int.natAbs_ne_zero.mpr hx) steepX)
  · exact (cast_le_cast alongY).trans_lt (shorter (Int.natAbs_ne_zero.mpr hy) steepY)
  · have hback := mul_nonpos_of_ne_signs move ne
    rw [mul_div_cancel₀ _ (by positivity)]
    exact cast_lt_cast (by omega)

theorem sign_eq_or (hx : x ≠ 0) : x.sign = 1 ∨ x.sign = -1 := by
  rcases Int.sign_trichotomy x with h | h | h
  · exact .inl h
  · exact absurd (Int.sign_eq_zero_iff_zero.mp h) hx
  · exact .inr h

theorem reach_sign_zero (hx : x ≠ 0) (y : Int) : reach x.sign 0 x y = x.natAbs := by
  rw [reach_axis (sign_eq_or hx), Int.sign_mul_self_eq_natAbs, Int.cast_natCast]

theorem reach_sign_sign (hx : x ≠ 0) (hy : y ≠ 0) :
    reach x.sign y.sign x y = (x.natAbs + y.natAbs : Nat) / √2 := by
  rw [reach_diagonal (sign_eq_or hx) (sign_eq_or hy), Int.sign_mul_self_eq_natAbs, Int.sign_mul_self_eq_natAbs,
    ← Nat.cast_add, Int.cast_natCast]

theorem reach_lt_bearing {o : Offset} (apart : o ≠ Offset.origin) (move : max u.natAbs w.natAbs = 1)
    (ne : (u, w) ≠ o.bearing) : reach u w o.x o.y < reach o.bearing.1 o.bearing.2 o.x o.y := by
  obtain ⟨hx, horizontal, hbearing⟩ | ⟨hy, vertical, hbearing⟩ | ⟨hx, hy, steepX, steepY, hbearing⟩ :=
    Offset.bearing_cases apart
  · rw [hbearing] at ne ⊢
    rw [reach_sign_zero hx]
    exact reach_lt_of_level move ne horizontal
  · rw [hbearing] at ne ⊢
    rw [reach_swap, reach_swap 0, reach_sign_zero hy]
    refine reach_lt_of_level (by rwa [max_comm]) (fun heq => ne (congrArg Prod.swap heq)) ?_
    rwa [Nat.add_comm]
  · rw [hbearing] at ne ⊢
    rw [reach_sign_sign hx hy]
    exact reach_lt_of_steep move hx hy ne steepX steepY

end Reach

namespace Direction

variable {d e : Direction} {o : Offset}

theorem max_natAbs_delta (ne : d ≠ .center) : max d.delta.1.natAbs d.delta.2.natAbs = 1 := by
  revert ne
  cases d <;> decide

theorem isNearest_of_delta_eq (apart : o ≠ .origin) (h : d.delta = o.bearing) : d.IsNearest o := by
  refine ⟨fun hcenter => ?_, fun e moves ne => angle_lt_angle apart ?_⟩
  · rw [hcenter] at h
    exact Offset.bearing_ne_zero apart h.symm
  · rw [h]
    exact reach_lt_bearing apart (max_natAbs_delta moves) fun heq => ne (delta_injective (heq.trans h.symm))

theorem isNearest_iff (apart : o ≠ .origin) : d.IsNearest o ↔ d.delta = o.bearing := by
  refine ⟨fun h => ?_, isNearest_of_delta_eq apart⟩
  obtain ⟨e, he⟩ := o.exists_delta_eq_bearing
  rw [h.unique (isNearest_of_delta_eq apart he), he]

theorem angle_lt_of_inTangentGap (inGap : o.InTangentGap) (apart : o ≠ .origin)
    (h : d.delta = (Position.axisStep o.x o.y, Position.axisStep o.y o.x)) (moves : e ≠ .center) (ne : e ≠ d)
    (other : e.delta ≠ o.bearing) : d.angle o < e.angle o := by
  obtain ⟨hx, hy, hbearing⟩ := inGap.bearing_eq apart
  have hdelta : e.delta ≠ d.delta := fun heq => ne (delta_injective heq)
  have unit := max_natAbs_delta moves
  rw [hbearing] at other
  apply angle_lt_angle apart
  rcases inGap with gap | gap
  · obtain ⟨hstep, hlevel⟩ := Position.axisSteps_of_level gap.2 hx
    rw [hstep, hlevel] at h
    rw [h] at hdelta ⊢
    rw [reach_sign_zero hx]
    exact reach_lt_of_ne_diagonal unit (gap.short_lt (Int.natAbs_pos.mpr hx)) hdelta other
  · obtain ⟨hstep, hlevel⟩ := Position.axisSteps_of_level gap.2 hy
    rw [hstep, hlevel] at h
    rw [h] at hdelta ⊢
    rw [reach_swap, reach_swap 0, reach_sign_zero hy]
    exact reach_lt_of_ne_diagonal (by rwa [max_comm]) (gap.short_lt (Int.natAbs_pos.mpr hy))
      (fun heq => hdelta (congrArg Prod.swap heq)) fun heq => other (congrArg Prod.swap heq)

end Direction

end Plane

namespace Position

/-- The nearest direction is the bearing. The heading is that direction unless the displacement lies in the gap, and no
displacement there is shorter than 1393; there the heading comes second. -/
theorem headingTo_isNearest_iff {p q : Position} (ne : p ≠ q) :
    (∀ d : Direction, d.IsNearest (p.offsetTo q) ↔ d.delta = (p.offsetTo q).bearing) ∧
      ((p.headingTo q).IsNearest (p.offsetTo q) ↔ ¬ (p.offsetTo q).InTangentGap) ∧
      ((p.offsetTo q).InTangentGap → 1393 ≤ (p.offsetTo q).chebyshev ∧
        ∀ d : Direction, d ≠ .center → d ≠ p.headingTo q → ¬ d.IsNearest (p.offsetTo q) →
          (p.headingTo q).angle (p.offsetTo q) < d.angle (p.offsetTo q)) := by
  have apart : p.offsetTo q ≠ .origin := fun h => ne (offsetTo_eq_origin_iff.mp h).symm
  have hdelta : (p.headingTo q).delta =
      (axisStep (p.offsetTo q).x (p.offsetTo q).y, axisStep (p.offsetTo q).y (p.offsetTo q).x) := delta_headingTo p q
  refine ⟨fun d => Direction.isNearest_iff apart, ?_, fun inGap => ⟨inGap.le_chebyshev apart, ?_⟩⟩
  · rw [Direction.isNearest_iff apart, hdelta, Offset.axisSteps_eq_bearing_iff apart]
  · intro d moves other hfar
    rw [Direction.isNearest_iff apart] at hfar
    exact Direction.angle_lt_of_inTangentGap inGap apart hdelta moves other hfar

theorem headingTo_isNearest_iff_longest :
    (Position.mk (-2147483648) (-2147483648) ≠ ⟨2147483647, -368449945⟩ ∧
        Direction.east.IsNearest ((Position.mk (-2147483648) (-2147483648)).offsetTo ⟨2147483647, -368449945⟩)) ∧
      Position.mk (-2147483648) (-2147483648) ≠ ⟨2147483647, -368448064⟩ ∧
        Direction.northEast.IsNearest
          ((Position.mk (-2147483648) (-2147483648)).offsetTo ⟨2147483647, -368448064⟩) := by
  have hlevel : Position.mk (-2147483648) (-2147483648) ≠ ⟨2147483647, -368449945⟩ := by decide
  have hsteep : Position.mk (-2147483648) (-2147483648) ≠ ⟨2147483647, -368448064⟩ := by decide
  have heast : (Position.mk (-2147483648) (-2147483648)).headingTo ⟨2147483647, -368449945⟩ = .east := by
    decide +kernel
  have hdiagonal : (Position.mk (-2147483648) (-2147483648)).headingTo ⟨2147483647, -368448064⟩ = .northEast := by
    decide +kernel
  refine ⟨⟨hlevel, ?_⟩, hsteep, ?_⟩
  · rw [← heast]
    exact (headingTo_isNearest_iff hlevel).2.1.mpr (by decide +kernel)
  · rw [← hdiagonal]
    exact (headingTo_isNearest_iff hsteep).2.1.mpr (by decide +kernel)

/-- The shortest displacement in the gap. -/
theorem headingTo_not_isNearest :
    (Position.mk 0 0).Fits ∧ (Position.mk 1393 577).Fits ∧
      (Position.mk 0 0).headingTo ⟨1393, 577⟩ = .east ∧
      ¬ Direction.east.IsNearest ((Position.mk 0 0).offsetTo ⟨1393, 577⟩) ∧
      Direction.northEast.IsNearest ((Position.mk 0 0).offsetTo ⟨1393, 577⟩) ∧
      ((Position.mk 0 0).offsetTo ⟨1393, 577⟩).bearing = Direction.northEast.delta := by
  have apart : (Position.mk 0 0).offsetTo ⟨1393, 577⟩ ≠ .origin := by decide
  rw [Direction.isNearest_iff apart, Direction.isNearest_iff apart]
  decide +kernel

end Position

end GridRoute
