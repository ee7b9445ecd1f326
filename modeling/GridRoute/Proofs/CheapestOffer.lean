import GridRoute.Proofs.Soundness
import Mathlib.Order.Bounds.Basic

/-!
Cheapest offers. A cell that is offered the routes of its sources one after the other keeps the first of the
cheapest. In the first pass every source is finished before it is read, so the estimates after that pass solve the
equations that say so, whatever the rubble.
-/

namespace GridRoute

namespace Estimate

/-- The estimate is made from the offers alone: it is the cheapest of the routes by way of a source, the first one
on a tie, and no route at all if each of them is too long. -/
structure Chosen (e : Estimate) (offers : List (Nat × Estimate)) : Prop where
  isLeast_length : IsLeast
    (insert Cost.unreached {length | ∃ offer ∈ offers, length = Cost.add offer.2.length e.cost}) e.length
  exists_first : e.length < Cost.unreached → ∃ before source via behind,
    offers = before ++ (source, via) :: behind ∧ Cost.add via.length e.cost = e.length ∧
      (∀ offer ∈ before, e.length < Cost.add offer.2.length e.cost) ∧
      e.predecessor = some (.cell source) ∧ e.best = via.best
  of_unreached : e.length = Cost.unreached → e.predecessor = none ∧ e.best = .center

namespace Chosen

variable {e : Estimate} {offers : List (Nat × Estimate)}

theorem length_le (h : e.Chosen offers) {offer : Nat × Estimate} (hoffer : offer ∈ offers) :
    e.length ≤ Cost.add offer.2.length e.cost :=
  h.isLeast_length.2 (.inr ⟨offer, hoffer, rfl⟩)

theorem length_le_unreached (h : e.Chosen offers) : e.length ≤ Cost.unreached :=
  h.isLeast_length.2 (.inl rfl)

theorem sense (t : Terrain) (q : Position) : (t.sense q).Chosen [] := by
  obtain ⟨hlength, hbest⟩ := t.sense_unstarted q
  refine ⟨⟨.inl hlength, ?_⟩, fun hless => absurd hless (by omega), fun _ => ⟨?_, hbest⟩⟩
  · rintro length (rfl | ⟨offer, hoffer, -⟩)
    · omega
    · cases hoffer
  · unfold Terrain.sense
    split <;> rfl

theorem isLeast_append (h : e.Chosen offers) (source : Nat) (via : Estimate) :
    IsLeast (insert Cost.unreached
        {length | ∃ offer ∈ offers ++ [(source, via)], length = Cost.add offer.2.length e.cost})
      (min e.length (Cost.add via.length e.cost)) := by
  constructor
  · rcases Int.le_total e.length (Cost.add via.length e.cost) with hle | hle
    · rw [Int.min_eq_left hle]
      rcases h.isLeast_length.1 with hunreached | ⟨offer, hoffer, hlength⟩
      · exact .inl hunreached
      · exact .inr ⟨offer, List.mem_append_left _ hoffer, hlength⟩
    · rw [Int.min_eq_right hle]
      exact .inr ⟨(source, via), by simp, rfl⟩
  · rintro length (rfl | ⟨offer, hoffer, rfl⟩)
    · have := h.length_le_unreached
      omega
    · rcases List.mem_append.mp hoffer with hoffer | hoffer
      · have := h.length_le hoffer
        omega
      · obtain rfl := List.mem_singleton.mp hoffer
        exact Int.min_le_right _ _

theorem improve (h : e.Chosen offers) (source : Nat) (via : Estimate) :
    (e.improve source via).Chosen (offers ++ [(source, via)]) := by
  have hleast := h.isLeast_append source via
  by_cases hless : Cost.add via.length e.cost < e.length
  · have hreached := h.length_le_unreached
    rw [Int.min_eq_right (Int.le_of_lt hless)] at hleast
    rw [improve_of_lt _ _ _ hless]
    refine ⟨hleast, fun _ => ⟨offers, source, via, [], rfl, rfl, fun offer hoffer => ?_, rfl, rfl⟩,
      fun hlength => absurd hlength (Int.ne_of_lt (Int.lt_of_lt_of_le hless hreached))⟩
    exact Int.lt_of_lt_of_le hless (h.length_le hoffer)
  · have hle := Int.not_lt.mp hless
    rw [Int.min_eq_left hle] at hleast
    rw [improve_of_le _ _ _ hle]
    refine ⟨hleast, fun hlength => ?_, h.of_unreached⟩
    obtain ⟨before, first, taken, behind, rfl, hrest⟩ := h.exists_first hlength
    exact ⟨before, first, taken, behind ++ [(source, via)], by simp, hrest⟩

theorem improveAll (h : e.Chosen []) (es : Estimates) (sources : List Nat) :
    (e.improveAll es sources).Chosen (sources.map fun source => (source, es.record source)) := by
  induction sources using List.reverseRecOn with
  | nil => exact h
  | append_singleton sources source ih =>
    rw [Estimate.improveAll, List.foldl_append, List.map_append]
    exact ih.improve source (es.record source)

end Chosen

end Estimate

namespace Terrain

def cliff : Terrain where
  agent := ⟨0, 0⟩
  traversable q := q.y < 2
  rubble q := if q.x < 0 then Bounded.lowest else Bounded.highest

theorem cliff_inRange (r : Radius) : r.InRange cliff.agent := by
  intro o sees
  have hnear := sees.natAbs_le
  change Bounded.Fits (0 + o.x) ∧ Bounded.Fits (0 + o.y)
  rw [Bounded.fits_iff, Bounded.fits_iff]
  omega

end Terrain

namespace Pathfinder

namespace Serves

variable {p : Pathfinder} {radius : Radius}

theorem forall₂_closerNeighbors (h : p.Serves radius) {es : Estimates}
    (hsize : es.size = p.window.size) {o : Offset} (sees : radius.Sees o)
    (hfar : Offset.seedDistance < o.norm) :
    List.Forall₂ (fun n offer => p.window.index? n = some offer.1 ∧ es.at? p.window n = some offer.2)
      o.closerNeighbors
      ((o.closerNeighbors.map p.window.cellAt).map fun source => (source, es.record source)) := by
  rw [List.map_map, List.forall₂_map_right_iff, List.forall₂_same]
  intro n hn
  obtain ⟨hadjacent, hcloser⟩ := Offset.mem_closerNeighbors.mp hn
  have hsees : radius.Sees n := ⟨Offset.ne_origin_of_adjacent hfar hadjacent, by have := sees.2; omega⟩
  obtain ⟨cell, hcell, hat⟩ := h.exists_at? hsize hsees
  rw [Function.comp_apply, Window.cellAt_eq hcell]
  exact ⟨Window.index?_eq_some_iff.mpr hcell, hat⟩

end Serves

/-- After the first pass a seed that can be entered has the one step from the origin. Every other cell that can be
entered has the cheapest of the finished routes of its nearer neighbours, the first in scan order on a tie, and with
it the move that goes with that route. -/
theorem first_pass_chooses (radius : Radius) (t : Terrain) (inRange : radius.InRange t.agent) :
    ∃ p es, compile radius.value = .ok p ∧ p.estimates t 0 = .ok es ∧ es.size = p.window.size ∧
      ∀ o, radius.Sees o → t.Enters o → ∃ e, es.at? p.window o = some e ∧
        e.position = some (t.agent.displaced o) ∧
        e.cost = Cost.add (t.rubble (t.agent.displaced o)) Cost.step ∧
        (o.norm ≤ Offset.seedDistance → e.length = Cost.add e.cost Cost.step ∧
          o.neighbor e.best = Offset.origin ∧ e.predecessor = some .origin) ∧
        (Offset.seedDistance < o.norm → ∃ offers,
          List.Forall₂ (fun n offer => p.window.index? n = some offer.1 ∧
            es.at? p.window n = some offer.2) o.closerNeighbors offers ∧ e.Chosen offers) := by
  obtain ⟨p, hcompile, h⟩ := exists_compile_eq_ok radius
  refine ⟨p, p.start t, hcompile, h.estimates_eq_ok inRange 0, p.size_start t, fun o sees enters => ?_⟩
  obtain ⟨cell, hcell, hat⟩ := h.exists_at? (p.size_start t) sees
  have hsense := Terrain.sense_eq enters
  have hopen : (t.sense (t.agent.displaced o)).position.isSome := by rw [hsense]; rfl
  refine ⟨_, hat, ?_⟩
  by_cases hseed : o.norm ≤ Offset.seedDistance
  · obtain ⟨d, hd, hrecord⟩ := h.record_start_of_seed hcell hseed hopen
    rw [hrecord, hsense]
    exact ⟨rfl, rfl, fun _ => ⟨rfl, hd, rfl⟩, fun hfar => absurd hseed (Nat.not_le.mpr hfar)⟩
  · have hfar := Nat.lt_of_not_le hseed
    have hrecord := h.record_start_of_far hcell hfar hopen
    have hoffers := h.forall₂_closerNeighbors (p.size_start t) sees hfar
    have hchosen := (Estimate.Chosen.sense t (t.agent.displaced o)).improveAll (p.start t)
      (o.closerNeighbors.map p.window.cellAt)
    rw [← hrecord] at hchosen
    refine ⟨?_, ?_, fun hnear => absurd hnear hseed, fun _ => ⟨_, hoffers, hchosen⟩⟩
    · rw [hrecord, Estimate.position_improveAll, hsense]
    · rw [hrecord, Estimate.cost_improveAll, hsense]

theorem first_pass_chooses_cliff :
    Radius.nine.InRange Terrain.cliff.agent ∧
    ∃ p es, compile 9 = .ok p ∧ p.estimates Terrain.cliff 0 = .ok es ∧ es.size = p.window.size ∧
      ∀ o, Radius.nine.Sees o → Terrain.cliff.Enters o → ∃ e, es.at? p.window o = some e ∧
        e.position = some (Terrain.cliff.agent.displaced o) ∧
        e.cost = Cost.add (Terrain.cliff.rubble (Terrain.cliff.agent.displaced o)) Cost.step ∧
        (o.norm ≤ Offset.seedDistance → e.length = Cost.add e.cost Cost.step ∧
          o.neighbor e.best = Offset.origin ∧ e.predecessor = some .origin) ∧
        (Offset.seedDistance < o.norm → ∃ offers,
          List.Forall₂ (fun n offer => p.window.index? n = some offer.1 ∧
            es.at? p.window n = some offer.2) o.closerNeighbors offers ∧ e.Chosen offers) :=
  ⟨Terrain.cliff_inRange .nine,
    first_pass_chooses .nine Terrain.cliff (Terrain.cliff_inRange .nine)⟩

end Pathfinder

end GridRoute
