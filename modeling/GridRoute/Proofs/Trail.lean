import GridRoute.Proofs.Sighting
import Mathlib.Algebra.Order.BigOperators.Group.List
import Mathlib.Algebra.Ring.Int.Defs
import Mathlib.Data.List.Perm.Subperm

/-!
Trails: ways over the cells in sight, from a seed to wherever they end. No cell costs less than nothing, so
a trail need enter no cell twice, and then it is no longer than the window has cells.
-/

namespace GridRoute

theorem Radius.Sees.natAbs_le {r : Radius} {o : Offset} (h : r.Sees o) :
    o.x.natAbs ≤ 64 ∧ o.y.natAbs ≤ 64 :=
  Offset.natAbs_le_of_norm_le (Nat.le_trans h.2 r.le_maximum)

def Radius.nine : Radius := ⟨9, by decide, by decide⟩

namespace Terrain

def Enters (t : Terrain) (o : Offset) : Prop := t.traversable (t.agent.displaced o) = true

instance (t : Terrain) (o : Offset) : Decidable (t.Enters o) := inferInstanceAs (Decidable (_ = _))

def costAt (t : Terrain) (o : Offset) : Int := t.rubble (t.agent.displaced o) + Cost.step

/-- Everything in sight has coordinates, and where the agent could stand there is neither so little
rubble that a step would pay nor so much that a route would run out of the range of costs. -/
structure Regular (t : Terrain) (r : Radius) : Prop where
  inRange : r.InRange t.agent
  rubble_bounds : ∀ o, r.Sees o → t.Enters o →
    -10 ≤ t.rubble (t.agent.displaced o) ∧ t.rubble (t.agent.displaced o) ≤ 999999990

theorem Regular.costAt_bounds {t : Terrain} {r : Radius} (h : t.Regular r) {o : Offset}
    (sees : r.Sees o) (enters : t.Enters o) : 0 ≤ t.costAt o ∧ t.costAt o ≤ 1000000000 := by
  have := h.rubble_bounds o sees enters
  unfold costAt Cost.step
  omega

/-- The cells entered on the way from a seed, the last one first; each is next to the one before. -/
inductive Trail (t : Terrain) (r : Radius) (start : Offset) : List Offset → Prop
  | seed : r.Sees start → t.Enters start → start.norm ≤ Offset.seedDistance → Trail t r start [start]
  | enter {o next : Offset} {rest : List Offset} : Trail t r start (o :: rest) → o.Adjacent next →
      r.Sees next → t.Enters next → Trail t r start (next :: o :: rest)

/-- A cheap way to the north leads round by the west, and a dear one straight past rubble. -/
def detour : Terrain where
  agent := ⟨5, 5⟩
  traversable q := q ∈ ([⟨4, 5⟩, ⟨4, 6⟩, ⟨3, 6⟩, ⟨4, 7⟩, ⟨6, 7⟩, ⟨5, 8⟩] : List Position)
  rubble q := if q = ⟨4, 6⟩ then 30 else 0

theorem detour_regular (r : Radius) : detour.Regular r where
  inRange := by
    intro o sees
    have hnear := sees.natAbs_le
    change Bounded.Fits (5 + o.x) ∧ Bounded.Fits (5 + o.y)
    rw [Bounded.fits_iff, Bounded.fits_iff]
    omega
  rubble_bounds := by
    intro o _ _
    change -10 ≤ (if _ then (30 : Int) else 0) ∧ (if _ then (30 : Int) else 0) ≤ 999999990
    split <;> decide

def trailCost (t : Terrain) (trail : List Offset) : Int := (trail.map t.costAt).sum

@[simp] theorem trailCost_nil (t : Terrain) : t.trailCost [] = 0 := rfl

@[simp] theorem trailCost_cons (t : Terrain) (o : Offset) (rest : List Offset) :
    t.trailCost (o :: rest) = t.costAt o + t.trailCost rest := by
  simp [trailCost]

@[simp] theorem trailCost_append (t : Terrain) (front rest : List Offset) :
    t.trailCost (front ++ rest) = t.trailCost front + t.trailCost rest := by
  simp [trailCost]

/-- What trails to a cell cost, together with the step from the agent to their start. -/
def routeLengths (t : Terrain) (r : Radius) (o : Offset) : Set Int :=
  {length | ∃ start rest, t.Trail r start (o :: rest) ∧
    length = Cost.step + t.trailCost (o :: rest)}

namespace Trail

variable {t : Terrain} {r : Radius} {start : Offset} {trail : List Offset}

theorem sees (h : t.Trail r start trail) : ∀ o ∈ trail, r.Sees o := by
  induction h with
  | seed hsees => simpa using hsees
  | enter _ _ hsees _ ih => exact List.forall_mem_cons.mpr ⟨hsees, ih⟩

theorem enters (h : t.Trail r start trail) : ∀ o ∈ trail, t.Enters o := by
  induction h with
  | seed _ henters => simpa using henters
  | enter _ _ _ henters ih => exact List.forall_mem_cons.mpr ⟨henters, ih⟩

theorem start_mem (h : t.Trail r start trail) : start ∈ trail := by
  induction h with
  | seed => simp
  | enter _ _ _ _ ih => exact List.mem_cons_of_mem _ ih

theorem start_norm_le (h : t.Trail r start trail) : start.norm ≤ Offset.seedDistance := by
  induction h with
  | seed _ _ hseed => exact hseed
  | enter _ _ _ _ ih => exact ih

theorem start_ne_origin (h : t.Trail r start trail) : start ≠ Offset.origin :=
  (h.sees start h.start_mem).1

theorem of_append {front rest : List Offset} {o : Offset}
    (h : t.Trail r start (front ++ o :: rest)) : t.Trail r start (o :: rest) := by
  induction front with
  | nil => exact h
  | cons n front ih =>
    cases front with
    | nil =>
      cases h with
      | enter before => exact before
    | cons n' front =>
      cases h with
      | enter before => exact ih before

theorem cost_nonneg (regular : t.Regular r) (hsees : ∀ o ∈ trail, r.Sees o)
    (henters : ∀ o ∈ trail, t.Enters o) : 0 ≤ t.trailCost trail := by
  refine List.sum_nonneg fun cost hcost => ?_
  obtain ⟨o, ho, rfl⟩ := List.mem_map.mp hcost
  exact (regular.costAt_bounds (hsees o ho) (henters o ho)).1

theorem exists_nodup (regular : t.Regular r) {o : Offset} {rest : List Offset}
    (h : t.Trail r start (o :: rest)) :
    ∃ fewer, t.Trail r start (o :: fewer) ∧ (o :: fewer).Nodup ∧
      t.trailCost (o :: fewer) ≤ t.trailCost (o :: rest) := by
  generalize hsplit : o :: rest = trail at h
  induction h generalizing o rest with
  | seed hsees henters hseed =>
    obtain ⟨rfl, rfl⟩ := List.cons.inj hsplit
    exact ⟨[], .seed hsees henters hseed, List.nodup_singleton o, Int.le_refl _⟩
  | @enter previous next earlier _ hadjacent hsees henters ih =>
    obtain ⟨rfl, rfl⟩ := List.cons.inj hsplit
    obtain ⟨fewer, htrail, hnodup, hcost⟩ := ih rfl
    -- A trail that comes back to a cell is cut off at its first visit.
    by_cases hagain : o ∈ previous :: fewer
    · obtain ⟨front, after, hvisit⟩ := List.append_of_mem hagain
      rw [hvisit] at htrail hnodup hcost
      have hfront : 0 ≤ t.trailCost front := cost_nonneg regular
        (fun n hn => htrail.sees n (List.mem_append_left _ hn))
        (fun n hn => htrail.enters n (List.mem_append_left _ hn))
      have hstep := (regular.costAt_bounds hsees henters).1
      refine ⟨after, htrail.of_append, hnodup.of_append_right, ?_⟩
      calc t.trailCost (o :: after)
          ≤ t.trailCost front + t.trailCost (o :: after) := by omega
        _ = t.trailCost (front ++ o :: after) := (trailCost_append ..).symm
        _ ≤ t.trailCost (previous :: earlier) := hcost
        _ ≤ t.trailCost (o :: previous :: earlier) := by rw [trailCost_cons t o]; omega
    · refine ⟨previous :: fewer, .enter htrail hadjacent hsees henters,
        List.nodup_cons.mpr ⟨hagain, hnodup⟩, ?_⟩
      rw [trailCost_cons, trailCost_cons t o]
      omega

end Trail

end Terrain

theorem Pathfinder.Serves.length_le_size {p : Pathfinder} {r : Radius} {t : Terrain}
    {start : Offset} {trail : List Offset} (h : p.Serves r) (htrail : t.Trail r start trail)
    (hnodup : trail.Nodup) : trail.length ≤ p.window.size := by
  have hsubset : trail ⊆ p.window.offsets.toList := by
    intro o ho
    rw [Array.mem_toList_iff, Window.mem_offsets_iff, h.exists_cell_iff]
    exact htrail.sees o ho
  exact (hnodup.subperm hsubset).length_le

end GridRoute
