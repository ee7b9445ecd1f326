import GridRoute.Proofs.Approach
import GridRoute.Proofs.Convergence

/-!
Open ground. Where every step costs the same and nothing stands in the way inward, the first pass already finds
the length of every cell: one step for each ring of cells up to its own. No trail is shorter, so no round finds
anything better, and the trail of a cell comes nearer to it with every step.
-/

namespace GridRoute

open Position

theorem Radius.Sees.chebyshev_le {r : Radius} {o : Offset} (h : r.Sees o) : o.chebyshev ≤ 64 := by
  have := h.natAbs_le
  unfold Offset.chebyshev
  omega

theorem Offset.Adjacent.chebyshev_le_one {o n : Offset} (h : o.Adjacent n) (q : Position) :
    ((q.displaced o).offsetTo (q.displaced n)).chebyshev ≤ 1 := by
  obtain ⟨-, hx, hy⟩ := h
  unfold chebyshev offsetTo displaced
  dsimp only
  omega

namespace Terrain

/-- Every cell that can be entered costs the same, and the one inward of it can be entered too. The cost is low
enough for a route across the widest window. -/
structure Open (t : Terrain) (r : Radius) (cost : Int) : Prop where
  inRange : r.InRange t.agent
  nonneg : 0 ≤ cost
  affordable : 64 * cost + Cost.step < Cost.unreached
  enters_inward : ∀ o, t.Enters o → t.Enters o.inward
  costAt_eq : ∀ o, t.Enters o → t.costAt o = cost

variable {t : Terrain} {cost : Int} {r : Radius} {start o : Offset} {rest : List Offset}

theorem Open.regular (ground : t.Open r cost) : t.Regular r where
  inRange := ground.inRange
  rubble_bounds := by
    intro o _ enters
    have nonneg := ground.nonneg
    have affordable := ground.affordable
    have hcost := ground.costAt_eq o enters
    unfold costAt at hcost
    unfold Cost.step at hcost affordable
    unfold Cost.unreached at affordable
    omega

theorem Open.trailCost_eq (ground : t.Open r cost) {trail : List Offset}
    (h : t.Trail r start trail) : t.trailCost trail = trail.length * cost := by
  have hsum : (trail.map t.costAt).sum = (trail.map t.costAt).length • cost := by
    refine List.sum_eq_card_nsmul _ _ fun step hstep => ?_
    obtain ⟨o, ho, rfl⟩ := List.mem_map.mp hstep
    exact ground.costAt_eq o (h.enters o ho)
  rw [trailCost, hsum, List.length_map, Int.nsmul_eq_mul]

theorem Trail.chebyshev_le (h : t.Trail r start (o :: rest)) (q : Position) :
    ((q.displaced start).offsetTo (q.displaced o)).chebyshev ≤ rest.length := by
  generalize hsplit : o :: rest = trail at h
  induction h generalizing o rest with
  | seed =>
    obtain ⟨rfl, rfl⟩ := List.cons.inj hsplit
    simp
  | @enter previous next earlier _ hadjacent _ _ ih =>
    obtain ⟨rfl, rfl⟩ := List.cons.inj hsplit
    have hbefore := ih rfl
    have hstep := hadjacent.chebyshev_le_one q
    have hround := chebyshev_offsetTo_le (q.displaced start) (q.displaced previous) (q.displaced o)
    rw [List.length_cons]
    omega

theorem Trail.chebyshev_le_length (h : t.Trail r start (o :: rest)) :
    o.chebyshev ≤ (o :: rest).length := by
  have hway := h.chebyshev_le t.agent
  have hseed := Offset.norm_le_seedDistance_iff.mp h.start_norm_le
  have hround := chebyshev_offsetTo_le t.agent (t.agent.displaced start) (t.agent.displaced o)
  simp only [offsetTo_displaced] at hround
  rw [List.length_cons]
  omega

end Terrain

namespace Pathfinder.Serves

variable {p : Pathfinder} {radius : Radius} {t : Terrain} {cost : Int} {cell : Nat} {o : Offset}

theorem length_start_le_rings (h : p.Serves radius) (ground : t.Open radius cost)
    (hcell : p.window.offset? cell = some o) (enters : t.Enters o) :
    ((p.after t 0).record cell).length ≤ Cost.step + o.chebyshev * cost := by
  have regular := ground.regular
  induction hrings : o.chebyshev generalizing cell o with
  | zero => exact absurd (Offset.chebyshev_eq_zero_iff.mp hrings) (h.sees hcell).1
  | succ rings ih =>
    have hring : 0 ≤ (rings : Int) * cost :=
      Int.mul_nonneg (Int.natCast_nonneg rings) ground.nonneg
    rw [Int.natCast_succ, Int.add_mul, Int.one_mul]
    by_cases hseed : o.norm ≤ Offset.seedDistance
    · rw [h.length_after_seed regular hcell hseed enters, ground.costAt_eq o enters]
      omega
    · have hfar := Nat.lt_of_not_le hseed
      obtain ⟨hadjacent, hless, hne⟩ := Offset.inward_of_far hfar
      have hsees := h.sees hcell
      obtain ⟨source, hsource⟩ := h.exists_cell_iff.mpr
        (show radius.Sees o.inward from ⟨hne, Nat.le_trans (Nat.le_of_lt hless) hsees.2⟩)
      have hinward := ih hsource (ground.enters_inward o enters) (by
        rw [Offset.chebyshev_inward, hrings, Nat.add_sub_cancel])
      have hoffer := h.length_start_le regular hcell hsource hfar hadjacent hless enters
      rw [(h.sound_after regular 0 source _ hsource).add_cost regular hsees enters,
        ground.costAt_eq o enters] at hoffer
      omega

/-- On open ground every cell that can be entered is reached, by a trail with as many cells as there are rings up
to its own. -/
theorem exists_trail_of_open (h : p.Serves radius) (ground : t.Open radius cost)
    (hcell : p.window.offset? cell = some o) (enters : t.Enters o) (rounds : Nat) :
    ∃ start rest, t.Trail radius start (o :: rest) ∧
      ((p.after t rounds).record cell).length = Cost.step + (o :: rest).length * cost ∧
      ((p.after t rounds).record cell).length ≤ Cost.step + o.chebyshev * cost ∧
      start.neighbor ((p.after t rounds).record cell).best = Offset.origin := by
  have affordable := ground.affordable
  have hstart := h.length_start_le_rings ground hcell enters
  have hlater := length_after_le p t (Nat.zero_le rounds) cell
  have hwithin : (o.chebyshev : Int) * cost ≤ 64 * cost :=
    Int.mul_le_mul_of_nonneg_right (Int.ofNat_le.mpr (h.sees hcell).chebyshev_le) ground.nonneg
  obtain ⟨start, rest, htrail, hlength, hbest⟩ :=
    (h.sound_after ground.regular rounds cell o hcell).exists_trail (by omega)
  rw [ground.trailCost_eq htrail] at hlength
  exact ⟨start, rest, htrail, hlength.symm, by omega, hbest⟩

/-- Every cell that can be entered has the same length after any number of rounds: one step for each ring up to its
own. -/
theorem length_after_eq_rings (h : p.Serves radius) (ground : t.Open radius cost)
    (hcell : p.window.offset? cell = some o) (enters : t.Enters o) (rounds : Nat) :
    ((p.after t rounds).record cell).length = Cost.step + o.chebyshev * cost := by
  obtain ⟨start, rest, htrail, hlength, hle, -⟩ := h.exists_trail_of_open ground hcell enters rounds
  have hrings : (o.chebyshev : Int) * cost ≤ (o :: rest).length * cost :=
    Int.mul_le_mul_of_nonneg_right (Int.ofNat_le.mpr htrail.chebyshev_le_length) ground.nonneg
  omega

theorem exists_nearer_start (h : p.Serves radius) (ground : t.Open radius cost)
    (positive : 0 < cost) (hcell : p.window.offset? cell = some o) (enters : t.Enters o)
    (rounds : Nat) :
    ∃ s, radius.Sees s ∧ t.Enters s ∧ s.norm ≤ Offset.seedDistance ∧
      s.neighbor ((p.after t rounds).record cell).best = Offset.origin ∧
      ((t.agent.displaced s).offsetTo (t.agent.displaced o)).chebyshev < o.chebyshev := by
  obtain ⟨start, rest, htrail, hlength, hle, hbest⟩ :=
    h.exists_trail_of_open ground hcell enters rounds
  have hcount : ((o :: rest).length : Int) ≤ o.chebyshev :=
    Int.le_of_mul_le_mul_right (by omega) positive
  rw [List.length_cons] at hcount
  have hway := htrail.chebyshev_le t.agent
  exact ⟨start, htrail.sees start htrail.start_mem, htrail.enters start htrail.start_mem,
    htrail.start_norm_le, hbest, by omega⟩

end Pathfinder.Serves

end GridRoute
