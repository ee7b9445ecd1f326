import GridRoute.Proofs.Clamp
import GridRoute.Proofs.Soundness

/-!
The chosen move. A search ends with the move of a cell, which some route has copied from a seed that can be
entered: the agent is never sent anywhere else, whatever the ground is like. It is told to stay only on its
target, or where no route to the target is known.
-/

namespace GridRoute

open Sequencing Position

/-- The move of the estimate, if it has one, leads to the origin from a cell that can be entered; and only a
cell that can be entered has a place. -/
structure Estimate.Legal (e : Estimate) (t : Terrain) (r : Radius) (o : Offset) : Prop where
  enters : e.position.isSome → t.Enters o
  start : e.best = .center ∨
    ∃ s, r.Sees s ∧ t.Enters s ∧ s.neighbor e.best = Offset.origin

def Estimate.Settled (e : Estimate) : Prop :=
  e.length < Cost.unreached ∨ e.best = .center ∧ e.predecessor = none

namespace Estimate

variable {e via : Estimate} {t : Terrain} {r : Radius} {o n : Offset}

theorem legal_sense (t : Terrain) (r : Radius) (o : Offset) :
    (t.sense (t.agent.displaced o)).Legal t r o where
  enters := by
    intro hopen
    by_contra blocked
    rw [sense_of_not_enters blocked] at hopen
    exact absurd hopen (by decide)
  start := .inl (t.sense_unstarted _).2

theorem Legal.seeded (h : e.Legal t r o) (sees : r.Sees o) {d : Direction}
    (hd : o.neighbor d = Offset.origin) (hopen : e.position.isSome) : (e.seeded d).Legal t r o where
  enters := h.enters
  start := .inr ⟨o, sees, h.enters hopen, hd⟩

theorem Legal.improve (h : e.Legal t r o) (hvia : via.Legal t r n) (source : Nat) :
    (e.improve source via).Legal t r o := by
  by_cases hless : Cost.add via.length e.cost < e.length
  · rw [improve_of_lt _ _ _ hless]
    exact ⟨h.enters, hvia.start⟩
  · rw [improve_of_le _ _ _ (Int.not_lt.mp hless)]
    exact h

theorem settled_sense (t : Terrain) (q : Position) : (t.sense q).Settled := by
  unfold Terrain.sense
  split
  · exact .inr ⟨rfl, rfl⟩
  · exact .inr ⟨rfl, rfl⟩

theorem Settled.improve (h : e.Settled) (hle : e.length ≤ Cost.unreached) (source : Nat)
    (via : Estimate) : (e.improve source via).Settled := by
  by_cases hless : Cost.add via.length e.cost < e.length
  · rw [improve_of_lt _ _ _ hless]
    exact .inl (Int.lt_of_lt_of_le hless hle)
  · rw [improve_of_le _ _ _ (Int.not_lt.mp hless)]
    exact h

/-- Just the estimates without a route have no move. -/
theorem Sound.best_eq_center_iff (sound : e.Sound t r o) (settled : e.Settled) :
    e.best = .center ↔ e.length = Cost.unreached := by
  constructor
  · intro hcenter
    apply Int.le_antisymm sound.length_le
    by_contra reached
    obtain ⟨start, rest, htrail, -, hstart⟩ := sound.exists_trail (Int.not_le.mp reached)
    rw [hcenter, Offset.neighbor_center] at hstart
    exact htrail.start_ne_origin hstart
  · intro hfar
    rcases settled with reached | blank
    · omega
    · exact blank.1

end Estimate

theorem Direction.opposite_eq_center_iff {d : Direction} : d.opposite = center ↔ d = center := by
  cases d <;> decide

theorem Position.step_opposite_eq_ok {r : Radius} {agent : Position} (inRange : r.InRange agent)
    {s : Offset} (sees : r.Sees s) {d : Direction} (hd : s.neighbor d = Offset.origin) :
    agent.step d.opposite = .ok (agent.displaced s) := by
  have hback := Offset.origin_neighbor_opposite hd
  apply step_eq_ok
  · rw [← hback]
    simp [displaced, Offset.origin]
  · rw [← hback]
    simp [displaced, Offset.origin]
  · exact inRange s sees

namespace Pathfinder

variable {p : Pathfinder} {radius : Radius} {t : Terrain} {goal : Position}

theorem moveTowards_self (p : Pathfinder) (t : Terrain) (rounds : Nat) :
    p.moveTowards t t.agent rounds = .ok .center := by
  rw [moveTowards, if_pos rfl]
  rfl

namespace Serves

theorem legal_after (h : p.Serves radius) (t : Terrain) (rounds : Nat) :
    ∀ cell o, p.window.offset? cell = some o →
      ((p.after t rounds).record cell).Legal t radius o := by
  refine h.record_induction (Q := fun o e => e.Legal t radius o) ?_ ?_ ?_ rounds
  · intro o _
    exact Estimate.legal_sense t radius o
  · intro o e d sees _ hd hopen legal
    exact legal.seeded sees hd hopen
  · intro o n e via source _ _ _ legal hvia
    exact legal.improve hvia source

theorem settled_after (h : p.Serves radius) (regular : t.Regular radius) (rounds : Nat) :
    ∀ cell o, p.window.offset? cell = some o → ((p.after t rounds).record cell).Settled := by
  suffices both : ∀ cell o, p.window.offset? cell = some o →
      ((p.after t rounds).record cell).Sound t radius o ∧ ((p.after t rounds).record cell).Settled from
    fun cell o hcell => (both cell o hcell).2
  refine h.record_induction (Q := fun o e => e.Sound t radius o ∧ e.Settled) ?_ ?_ ?_ rounds
  · intro o sees
    exact ⟨Estimate.sound_sense regular sees, Estimate.settled_sense t _⟩
  · rintro o e d sees hseed hd hopen ⟨sound, -⟩
    have enters := sound.enters hopen
    have hcost := regular.costAt_bounds sees enters
    refine ⟨sound.seeded regular sees hseed hd hopen, .inl ?_⟩
    rw [sound.length_seeded regular sees enters d]
    unfold Cost.step Cost.unreached
    omega
  · rintro o n e via source sees hadjacent hopen ⟨sound, settled⟩ ⟨hvia, -⟩
    exact ⟨sound.improve hvia regular sees hadjacent hopen source,
      settled.improve sound.length_le source via⟩

theorem moveTowards_eq_ok (h : p.Serves radius) (inRange : radius.InRange t.agent)
    (apart : Apart t.agent goal) (rounds : Nat) {cell : Nat}
    (hcell : p.window.offset? cell =
      some (t.agent.offsetTo (clamped t.agent goal radius.value p.clampSteps))) :
    p.moveTowards t goal rounds = .ok ((p.after t rounds).record cell).best.opposite := by
  obtain ⟨hx, hy⟩ := (h.sees hcell).natAbs_le
  have hoffset : (clamped t.agent goal radius.value p.clampSteps).offsetFrom t.agent =
      .ok (t.agent.offsetTo (clamped t.agent goal radius.value p.clampSteps)) := by
    apply offsetFrom_eq_ok
    · rw [Bounded.fits_iff]
      omega
    · rw [Bounded.fits_iff]
      omega
  rw [moveTowards, if_neg apart.ne, h.clampTarget_eq_ok apart, h.estimates_eq_ok inRange rounds]
  rw [SearchError.lift_ok, ok_bind, SearchError.lift_ok, ok_bind, hoffset, SearchError.lift_ok,
    ok_bind, (h.lookup_iff _ _).mpr hcell]
  exact congrArg (fun d : Direction => Except.ok d.opposite) (Estimates.best_eq ..)

end Serves

/-- A search always chooses a move, and the move leads to a place that the agent can enter, or nowhere. Unless
the rubble runs out of the range of costs, it leads nowhere just on the target itself and where no route to the
pulled target is known. -/
theorem move_legal (radius : Radius) (t : Terrain) (inRange : radius.InRange t.agent)
    (goal : Position) (inReach : t.agent.InReach goal) (rounds : Nat) :
    ∃ p d, compile radius.value = .ok p ∧ p.moveTowards t goal rounds = .ok d ∧
      (d = .center ∨ ∃ q, t.agent.step d = .ok q ∧ t.traversable q = true) ∧
      (t.Regular radius → (d = .center ↔ t.agent = goal ∨
        ∃ seen es e, p.clampTarget t.agent goal = .ok seen ∧ p.estimates t rounds = .ok es ∧
          es.at? p.window (t.agent.offsetTo seen) = some e ∧ e.length = Cost.unreached)) := by
  obtain ⟨p, hcompile, h⟩ := exists_compile_eq_ok radius
  by_cases hhere : t.agent = goal
  · subst hhere
    exact ⟨p, .center, hcompile, p.moveTowards_self t rounds, .inl rfl, fun _ => by simp⟩
  · have apart := inReach.apart inRange.agent_fits hhere
    have hclamp := h.clampTarget_eq_ok apart
    obtain ⟨cell, hcell, hat⟩ := h.exists_at? (p.size_after t rounds)
      (sees_clamped radius hhere p.clampSteps)
    refine ⟨p, _, hcompile, h.moveTowards_eq_ok inRange apart rounds hcell, ?_, fun regular => ?_⟩
    · rcases (h.legal_after t rounds cell _ hcell).start with hstay | ⟨s, sees, enters, hs⟩
      · exact .inl (Direction.opposite_eq_center_iff.mpr hstay)
      · exact .inr ⟨t.agent.displaced s, step_opposite_eq_ok inRange sees hs, enters⟩
    · rw [Direction.opposite_eq_center_iff,
        (h.sound_after regular rounds cell _ hcell).best_eq_center_iff
          (h.settled_after regular rounds cell _ hcell)]
      constructor
      · intro hfar
        exact .inr ⟨_, _, _, hclamp, h.estimates_eq_ok inRange rounds, hat, hfar⟩
      · rintro (here | ⟨seen, es, e, hseen, hes, he, hfar⟩)
        · exact absurd here hhere
        · obtain rfl := Except.ok.inj (hclamp.symm.trans hseen)
          obtain rfl := Except.ok.inj ((h.estimates_eq_ok inRange rounds).symm.trans hes)
          obtain rfl := Option.some.inj (hat.symm.trans he)
          exact hfar

theorem move_legal_detour :
    Radius.nine.InRange Terrain.detour.agent ∧ Terrain.detour.agent.InReach ⟨5, 90⟩ ∧
    Terrain.detour.Regular .nine ∧
    ∃ p d, compile 9 = .ok p ∧ p.moveTowards Terrain.detour ⟨5, 90⟩ 1 = .ok d ∧
      (d = .center ∨ ∃ q, Terrain.detour.agent.step d = .ok q ∧
        Terrain.detour.traversable q = true) ∧
      (d = .center ↔ Terrain.detour.agent = ⟨5, 90⟩ ∨
        ∃ seen es e, p.clampTarget Terrain.detour.agent ⟨5, 90⟩ = .ok seen ∧
          p.estimates Terrain.detour 1 = .ok es ∧
          es.at? p.window (Terrain.detour.agent.offsetTo seen) = some e ∧
          e.length = Cost.unreached) := by
  have regular := Terrain.detour_regular .nine
  have inReach : Terrain.detour.agent.InReach ⟨5, 90⟩ := ⟨by decide, by decide, by decide⟩
  obtain ⟨p, d, hcompile, hmove, hlegal, hstay⟩ :=
    move_legal .nine Terrain.detour regular.inRange ⟨5, 90⟩ inReach 1
  exact ⟨regular.inRange, inReach, regular, p, d, hcompile, hmove, hlegal, hstay regular⟩

end Pathfinder

end GridRoute
