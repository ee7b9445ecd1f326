import GridRoute.Window.Schedule
import GridRoute.Proofs.Sequencing

/-!
Neighbouring offsets. Near enough to the origin no step faults, and every offset beyond the seeds has a
neighbour that is nearer.
-/

namespace GridRoute

namespace Direction

theorem delta_bounds (d : Direction) :
    -1 ≤ d.delta.1 ∧ d.delta.1 ≤ 1 ∧ -1 ≤ d.delta.2 ∧ d.delta.2 ≤ 1 := by
  cases d <;> decide

theorem exists_delta (dx dy : Int) (hx : -1 ≤ dx ∧ dx ≤ 1) (hy : -1 ≤ dy ∧ dy ≤ 1) :
    ∃ d : Direction, d.delta = (dx, dy) := by
  have hdx : dx = -1 ∨ dx = 0 ∨ dx = 1 := by omega
  have hdy : dy = -1 ∨ dy = 0 ∨ dy = 1 := by omega
  rcases hdx with rfl | rfl | rfl <;> rcases hdy with rfl | rfl | rfl
  · exact ⟨southWest, rfl⟩
  · exact ⟨west, rfl⟩
  · exact ⟨northWest, rfl⟩
  · exact ⟨south, rfl⟩
  · exact ⟨center, rfl⟩
  · exact ⟨north, rfl⟩
  · exact ⟨southEast, rfl⟩
  · exact ⟨east, rfl⟩
  · exact ⟨northEast, rfl⟩

theorem delta_eq_zero_iff {d : Direction} : d.delta = (0, 0) ↔ d = center := by
  cases d <;> decide

end Direction

namespace Offset

/-- The offset one unit move away, whatever its size. -/
def neighbor (o : Offset) (d : Direction) : Offset := ⟨o.x + d.delta.1, o.y + d.delta.2⟩

@[simp] theorem neighbor_x (o : Offset) (d : Direction) : (o.neighbor d).x = o.x + d.delta.1 := rfl

@[simp] theorem neighbor_y (o : Offset) (d : Direction) : (o.neighbor d).y = o.y + d.delta.2 := rfl

@[simp] theorem neighbor_center (o : Offset) : o.neighbor .center = o := by
  simp [neighbor, Direction.delta]

def neighborhood (o : Offset) : List Offset := Direction.scanOrder.map o.neighbor

def Adjacent (a b : Offset) : Prop :=
  a ≠ b ∧ (b.x - a.x).natAbs ≤ 1 ∧ (b.y - a.y).natAbs ≤ 1

instance (a b : Offset) : Decidable (Adjacent a b) := inferInstanceAs (Decidable (_ ∧ _))

theorem Adjacent.symm {a b : Offset} (h : Adjacent a b) : Adjacent b a := by
  obtain ⟨hne, hx, hy⟩ := h
  exact ⟨hne.symm, by omega, by omega⟩

theorem mem_neighborhood {o n : Offset} : n ∈ o.neighborhood ↔ o.Adjacent n := by
  unfold neighborhood
  rw [List.mem_map]
  constructor
  · rintro ⟨d, hd, rfl⟩
    have bounds := d.delta_bounds
    refine ⟨fun heq => Direction.mem_scanOrder.mp hd (Direction.delta_eq_zero_iff.mp ?_), ?_, ?_⟩
    · have hx := congrArg Offset.x heq
      have hy := congrArg Offset.y heq
      simp only [neighbor_x, neighbor_y] at hx hy
      exact Prod.ext (by dsimp only; omega) (by dsimp only; omega)
    · rw [neighbor_x]
      omega
    · rw [neighbor_y]
      omega
  · rintro ⟨hne, hx, hy⟩
    obtain ⟨d, hd⟩ := Direction.exists_delta (n.x - o.x) (n.y - o.y) (by omega) (by omega)
    have heq : o.neighbor d = n := by
      unfold neighbor
      rw [hd]
      cases n
      simp only [Offset.mk.injEq]
      omega
    refine ⟨d, Direction.mem_scanOrder.mpr ?_, heq⟩
    rintro rfl
    exact hne (o.neighbor_center.symm.trans heq)

/-- Near enough to the origin for all arithmetic on the offset and on its neighbours. -/
def Moderate (o : Offset) : Prop := o.x.natAbs ≤ 32768 ∧ o.y.natAbs ≤ 32768

instance (o : Offset) : Decidable o.Moderate := inferInstanceAs (Decidable (_ ∧ _))

theorem norm_lt_of_bounds {o : Offset} (hx : o.x.natAbs ≤ 32769) (hy : o.y.natAbs ≤ 32769) :
    o.norm < 4294967296 := by
  have := Nat.mul_le_mul hx hx
  have := Nat.mul_le_mul hy hy
  unfold norm
  omega

theorem Moderate.squaredDistance_eq {o : Offset} (h : o.Moderate) :
    o.squaredDistance = .ok o.norm :=
  Offset.squaredDistance_eq o (norm_lt_of_bounds (by have := h.1; omega) (by have := h.2; omega))

theorem Moderate.squaredDistance_neighbor {o : Offset} (h : o.Moderate) (d : Direction) :
    (o.neighbor d).squaredDistance = .ok (o.neighbor d).norm := by
  have bounds := d.delta_bounds
  obtain ⟨hx, hy⟩ := h
  apply Offset.squaredDistance_eq
  apply norm_lt_of_bounds
  · rw [neighbor_x]
    omega
  · rw [neighbor_y]
    omega

theorem isSeed_eq_of_squaredDistance {o : Offset} (h : o.squaredDistance = .ok o.norm) :
    o.isSeed = .ok (decide (o.norm ≤ seedDistance)) := by
  rw [isSeed, h]
  rfl

theorem Moderate.isSeed_eq {o : Offset} (h : o.Moderate) :
    o.isSeed = .ok (decide (o.norm ≤ seedDistance)) :=
  isSeed_eq_of_squaredDistance h.squaredDistance_eq

theorem Moderate.step_eq {o : Offset} (h : o.Moderate) (d : Direction) :
    o.step d = .ok (o.neighbor d) := by
  have bounds := d.delta_bounds
  obtain ⟨hx, hy⟩ := h
  rw [step, Bounded.add_of_fits (Bounded.fits_iff.mpr (by omega)),
    Bounded.add_of_fits (Bounded.fits_iff.mpr (by omega))]
  rfl

/-- The unit move between two offsets is found unless their difference is too long to be taken. -/
theorem directionTo_eq {o other : Offset} (hx : Bounded.Fits (other.x - o.x))
    (hy : Bounded.Fits (other.y - o.y)) :
    o.directionTo other = .ok (Direction.ofDelta? (other.x - o.x) (other.y - o.y)) := by
  rw [directionTo, Bounded.sub_of_fits hx, Bounded.sub_of_fits hy]
  rfl

theorem directionTo_neighbor (o : Offset) (d : Direction) :
    o.directionTo (o.neighbor d) = .ok (some d) := by
  have bounds := d.delta_bounds
  have hx : (o.neighbor d).x - o.x = d.delta.1 := by rw [neighbor_x]; omega
  have hy : (o.neighbor d).y - o.y = d.delta.2 := by rw [neighbor_y]; omega
  rw [directionTo_eq (by rw [hx, Bounded.fits_iff]; omega) (by rw [hy, Bounded.fits_iff]; omega),
    hx, hy, Direction.ofDelta?_delta]

theorem neighbor_of_directionTo {o other : Offset} {d : Direction}
    (h : o.directionTo other = .ok (some d)) : o.neighbor d = other := by
  unfold directionTo at h
  obtain ⟨dx, hdx, h⟩ := Sequencing.bind_eq_ok_iff.mp h
  obtain ⟨dy, hdy, h⟩ := Sequencing.bind_eq_ok_iff.mp h
  obtain ⟨-, rfl⟩ := Bounded.sub_eq_ok_iff.mp hdx
  obtain ⟨-, rfl⟩ := Bounded.sub_eq_ok_iff.mp hdy
  have hdelta := Direction.ofDelta?_eq_some_iff.mp (Except.ok.inj h)
  cases other
  simp only [neighbor, hdelta, Offset.mk.injEq]
  omega

theorem norm_eq_zero_iff {o : Offset} : o.norm = 0 ↔ o = origin := by
  cases o with
  | mk x y =>
    simp only [norm, origin, Offset.mk.injEq, Nat.add_eq_zero_iff, Nat.mul_eq_zero, or_self,
      Int.natAbs_eq_zero]

theorem natAbs_sub_sign (n : Int) : (n - n.sign).natAbs = n.natAbs - 1 := by
  rcases Int.sign_trichotomy n with hs | hs | hs
  · have := Int.sign_eq_one_iff_pos.mp hs
    omega
  · have := Int.sign_eq_zero_iff_zero.mp hs
    omega
  · have := Int.sign_eq_neg_one_iff_neg.mp hs
    omega

theorem sign_bounds (n : Int) : min 0 n ≤ n.sign ∧ n.sign ≤ max 0 n := by
  rcases Int.sign_trichotomy n with hs | hs | hs
  · have := Int.sign_eq_one_iff_pos.mp hs
    omega
  · omega
  · have := Int.sign_eq_neg_one_iff_neg.mp hs
    omega

/-- One unit nearer to the origin along both axes, where it is not level with the origin already. -/
def inward (o : Offset) : Offset := ⟨o.x - o.x.sign, o.y - o.y.sign⟩

theorem natAbs_inward_x (o : Offset) : o.inward.x.natAbs = o.x.natAbs - 1 := natAbs_sub_sign o.x

theorem natAbs_inward_y (o : Offset) : o.inward.y.natAbs = o.y.natAbs - 1 := natAbs_sub_sign o.y

theorem chebyshev_inward (o : Offset) : o.inward.chebyshev = o.chebyshev - 1 := by
  rw [chebyshev, natAbs_inward_x, natAbs_inward_y, Nat.sub_max_sub_right]
  rfl

theorem chebyshev_eq_zero_iff {o : Offset} : o.chebyshev = 0 ↔ o = origin := by
  cases o with
  | mk x y =>
    simp only [chebyshev, origin, Offset.mk.injEq]
    omega

theorem adjacent_inward {o : Offset} (h : o ≠ origin) : o.Adjacent o.inward := by
  have hx := Int.sign_trichotomy o.x
  have hy := Int.sign_trichotomy o.y
  refine ⟨fun heq => h (chebyshev_eq_zero_iff.mp ?_), ?_, ?_⟩
  · have hrank := o.chebyshev_inward
    rw [← heq] at hrank
    omega
  · unfold inward
    dsimp only
    omega
  · unfold inward
    dsimp only
    omega

theorem norm_inward_lt {o : Offset} (h : o ≠ origin) : o.inward.norm < o.norm := by
  have lessX := Nat.mul_le_mul (Nat.sub_le o.x.natAbs 1) (Nat.sub_le o.x.natAbs 1)
  have lessY := Nat.mul_le_mul (Nat.sub_le o.y.natAbs 1) (Nat.sub_le o.y.natAbs 1)
  have away : 0 < o.x.natAbs ∨ 0 < o.y.natAbs := by
    by_contra hzero
    apply h
    rw [← chebyshev_eq_zero_iff, chebyshev]
    omega
  unfold norm
  rw [natAbs_inward_x, natAbs_inward_y]
  rcases away with hpos | hpos
  · have := Nat.mul_self_lt_mul_self (show o.x.natAbs - 1 < o.x.natAbs by omega)
    omega
  · have := Nat.mul_self_lt_mul_self (show o.y.natAbs - 1 < o.y.natAbs by omega)
    omega

theorem norm_le_seedDistance_iff {o : Offset} : o.norm ≤ seedDistance ↔ o.chebyshev ≤ 1 := by
  unfold norm chebyshev seedDistance
  constructor
  · intro h
    have hx : o.x.natAbs < 2 := Nat.mul_self_lt_mul_self_iff.mp (by omega)
    have hy : o.y.natAbs < 2 := Nat.mul_self_lt_mul_self_iff.mp (by omega)
    omega
  · intro h
    have := Nat.mul_le_mul (show o.x.natAbs ≤ 1 by omega) (show o.x.natAbs ≤ 1 by omega)
    have := Nat.mul_le_mul (show o.y.natAbs ≤ 1 by omega) (show o.y.natAbs ≤ 1 by omega)
    omega

theorem inward_of_far {o : Offset} (h : seedDistance < o.norm) :
    o.Adjacent o.inward ∧ o.inward.norm < o.norm ∧ o.inward ≠ origin := by
  have hfar : ¬ o.chebyshev ≤ 1 := fun hnear => Nat.not_le.mpr h (norm_le_seedDistance_iff.mpr hnear)
  have hne : o ≠ origin := by
    intro heq
    rw [chebyshev_eq_zero_iff.mpr heq] at hfar
    omega
  refine ⟨adjacent_inward hne, norm_inward_lt hne, fun heq => hfar ?_⟩
  have := o.chebyshev_inward
  rw [chebyshev_eq_zero_iff.mpr heq] at this
  omega

theorem exists_closer_neighbor {o : Offset} (h : seedDistance < o.norm) :
    ∃ n ∈ o.neighborhood, n.norm < o.norm ∧ n ≠ origin := by
  obtain ⟨hadjacent, hless, hne⟩ := inward_of_far h
  exact ⟨o.inward, mem_neighborhood.mpr hadjacent, hless, hne⟩

theorem Moderate.firstCloser_eq {o : Offset} (h : o.Moderate) (limit : Nat) (ds : List Direction) :
    o.firstCloser limit ds = .ok ((ds.map o.neighbor).find? fun n => n.norm < limit) := by
  induction ds with
  | nil => rfl
  | cons d ds ih =>
    rw [firstCloser, h.step_eq, Sequencing.ok_bind, h.squaredDistance_neighbor, Sequencing.ok_bind,
      List.map_cons, List.find?_cons, ih]
    by_cases hd : (o.neighbor d).norm < limit
    · simp [hd]
      rfl
    · simp [hd]

end Offset

end GridRoute
