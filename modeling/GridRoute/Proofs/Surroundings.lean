import GridRoute.Proofs.Move

/-!
Surroundings. A search asks of a place in sight only whether it can be entered and what it costs then, and of no
other place anything at all. Agents whose surroundings look alike get the same estimates, except that the places
lie around each of them, and move alike to targets that lie alike.
-/

namespace GridRoute

open Sequencing Position

namespace Position

theorem displaced_displaced_offsetTo (start finish : Position) (o : Offset) :
    (start.displaced o).displaced (start.offsetTo finish) = finish.displaced o := by
  simp only [displaced, offsetTo, mk.injEq]
  omega

theorem offsetTo_displaced_displaced (p q : Position) (v : Offset) :
    (p.displaced v).offsetTo (q.displaced v) = p.offsetTo q := by
  simp only [displaced, offsetTo, Offset.mk.injEq]
  omega

theorem headingTo_displaced (p q : Position) (v : Offset) :
    (p.displaced v).headingTo (q.displaced v) = p.headingTo q := by
  have hx : q.x + v.x - (p.x + v.x) = q.x - p.x := by omega
  have hy : q.y + v.y - (p.y + v.y) = q.y - p.y := by omega
  simp only [headingTo, displaced, hx, hy]

theorem towards_displaced (q goal : Position) (v : Offset) :
    (q.displaced v).towards (goal.displaced v) = (q.towards goal).displaced v := by
  rw [towards, headingTo_displaced]
  simp only [towards, displaced, mk.injEq]
  omega

theorem pulled_displaced (start goal : Position) (v : Offset) (radius steps : Nat)
    (safe next : Position) :
    pulled (start.displaced v) (goal.displaced v) radius steps (safe.displaced v)
        (next.displaced v) =
      (pulled start goal radius steps safe next).displaced v := by
  induction steps generalizing safe next with
  | zero => rfl
  | succ steps ih =>
    rw [pulled, pulled, offsetTo_displaced_displaced, towards_displaced, ih]
    split <;> rfl

theorem clamped_displaced (start goal : Position) (v : Offset) (radius steps : Nat) :
    clamped (start.displaced v) (goal.displaced v) radius steps =
      (clamped start goal radius steps).displaced v := by
  rw [clamped, clamped, offsetTo_displaced_displaced, towards_displaced, pulled_displaced]
  split <;> rfl

theorem offsetTo_clamped_eq {start start' goal goal' : Position}
    (h : start.offsetTo goal = start'.offsetTo goal') (radius steps : Nat) :
    start.offsetTo (clamped start goal radius steps) =
      start'.offsetTo (clamped start' goal' radius steps) := by
  obtain ⟨v, rfl⟩ : ∃ v, start' = start.displaced v :=
    ⟨start.offsetTo start', (displaced_offsetTo ..).symm⟩
  obtain rfl : goal' = goal.displaced v := by
    rw [← displaced_offsetTo (start.displaced v) goal', ← h]
    simp only [displaced, offsetTo, mk.injEq]
    omega
  rw [clamped_displaced, offsetTo_displaced_displaced]

end Position

/-- The estimate as it is for an agent that stands elsewhere. -/
def Estimate.displaced (e : Estimate) (v : Offset) : Estimate :=
  { e with position := e.position.map fun q => q.displaced v }

theorem Estimate.displaced_improve (e via : Estimate) (source : Nat) (v : Offset) :
    (e.displaced v).improve source (via.displaced v) = (e.improve source via).displaced v := by
  by_cases hless : Cost.add via.length e.cost < e.length
  · rw [improve_of_lt e source via hless, improve_of_lt (e.displaced v) source (via.displaced v) hless]
    rfl
  · have hle := Int.not_lt.mp hless
    rw [improve_of_le e source via hle, improve_of_le (e.displaced v) source (via.displaced v) hle]

namespace Estimates

def displaced (es : Estimates) (v : Offset) : Estimates :=
  ⟨es.cells.map fun e => e.displaced v⟩

theorem record_displaced (es : Estimates) (v : Offset) (cell : Nat) :
    (es.displaced v).record cell = (es.record cell).displaced v := by
  unfold record displaced
  rw [Array.getElem?_map]
  cases es.cells[cell]? <;> rfl

theorem set_displaced (es : Estimates) (v : Offset) (cell : Nat) (e : Estimate) :
    (es.displaced v).set cell (e.displaced v) = (es.set cell e).displaced v := by
  unfold set displaced
  rw [Array.map_setIfInBounds]

theorem isNone_position_displaced (es : Estimates) (v : Offset) (cell : Nat) :
    ((es.displaced v).record cell).position.isNone = (es.record cell).position.isNone := by
  rw [record_displaced]
  exact Option.isNone_map

theorem offered_displaced (cell : Nat) (es : Estimates) (v : Offset) (source : Nat) :
    offered cell (es.displaced v) source = (offered cell es source).displaced v := by
  rw [offered, record_displaced, record_displaced, Estimate.displaced_improve, set_displaced]
  rfl

theorem relaxed_displaced (es : Estimates) (v : Offset) (r : Relaxation) :
    (es.displaced v).relaxed r = (es.relaxed r).displaced v := by
  unfold relaxed
  rw [isNone_position_displaced]
  split
  · rfl
  · exact List.foldl_hom (fun es => displaced es v) fun es source => offered_displaced r.cell es v source

theorem started_displaced (es : Estimates) (v : Offset) (step : InitialStep) :
    (es.displaced v).started step = (es.started step).displaced v := by
  cases step with
  | seed cell towardOrigin =>
    rw [started, started, isNone_position_displaced]
    split
    · rfl
    · rw [record_displaced, ← set_displaced]
      rfl
  | relax r => exact relaxed_displaced es v r

theorem swept_displaced (es : Estimates) (v : Offset) (rs : List Relaxation) :
    (es.displaced v).swept rs = (es.swept rs).displaced v :=
  List.foldl_hom (fun es => displaced es v) fun es r => relaxed_displaced es v r

end Estimates

/-- Whatever is in sight of both agents can be entered by both or by neither, and costs both the same. -/
structure Terrain.Alike (here there : Terrain) (r : Radius) : Prop where
  enters_iff : ∀ o, r.Sees o → (here.Enters o ↔ there.Enters o)
  rubble_eq : ∀ o, r.Sees o → here.Enters o →
    here.rubble (here.agent.displaced o) = there.rubble (there.agent.displaced o)

section Alike

variable {here there : Terrain} {r : Radius}

theorem Terrain.Alike.sense_eq (alike : here.Alike there r) {o : Offset} (sees : r.Sees o) :
    there.sense (there.agent.displaced o) =
      (here.sense (here.agent.displaced o)).displaced (here.agent.offsetTo there.agent) := by
  by_cases enters : here.Enters o
  · have hrubble := alike.rubble_eq o sees enters
    have htraversable : here.traversable (here.agent.displaced o) = true := enters
    have htraversable' : there.traversable (there.agent.displaced o) = true :=
      (alike.enters_iff o sees).mp enters
    rw [sense, sense, if_pos htraversable, if_pos htraversable', ← hrubble, Estimate.displaced,
      Option.map_some, displaced_displaced_offsetTo]
  · rw [Estimate.sense_of_not_enters enters,
      Estimate.sense_of_not_enters (mt (alike.enters_iff o sees).mpr enters)]
    rfl

namespace Pathfinder.Serves

variable {p : Pathfinder}

theorem after_eq_displaced (h : p.Serves r) (alike : here.Alike there r) (rounds : Nat) :
    p.after there rounds =
      (p.after here rounds).displaced (here.agent.offsetTo there.agent) := by
  have hsensed : there.sensed p.window =
      (here.sensed p.window).displaced (here.agent.offsetTo there.agent) := by
    unfold Terrain.sensed Estimates.displaced
    rw [Array.map_map]
    refine congrArg Estimates.mk (Array.map_congr_left fun o ho => ?_)
    exact alike.sense_eq (h.exists_cell_iff.mp (Window.mem_offsets_iff.mp ho))
  have hstart : p.start there =
      (p.start here).displaced (here.agent.offsetTo there.agent) := by
    rw [start, hsensed]
    exact List.foldl_hom (fun es => Estimates.displaced es _) fun es step =>
      Estimates.started_displaced es _ step
  rw [after, hstart]
  have hswept : Function.Semiconj
      (fun es => Estimates.displaced es (here.agent.offsetTo there.agent))
      (Estimates.swept p.schedule.extraRound) (Estimates.swept p.schedule.extraRound) :=
    fun es => (Estimates.swept_displaced es _ _).symm
  exact (hswept.iterate_right rounds (p.start here)).symm

theorem moveTowards_eq_of_alike (h : p.Serves r) (inRange : r.InRange here.agent)
    (inRange' : r.InRange there.agent) (alike : here.Alike there r) {goal goal' : Position}
    (inReach : here.agent.InReach goal) (inReach' : there.agent.InReach goal')
    (hgoal : here.agent.offsetTo goal = there.agent.offsetTo goal') (rounds : Nat) :
    ∃ d, p.moveTowards here goal rounds = .ok d ∧ p.moveTowards there goal' rounds = .ok d := by
  have hiff : here.agent = goal ↔ there.agent = goal' := by
    rw [eq_comm, ← offsetTo_eq_origin_iff, hgoal, offsetTo_eq_origin_iff, eq_comm]
  by_cases hhere : here.agent = goal
  · have hthere := hiff.mp hhere
    subst hhere hthere
    exact ⟨.center, p.moveTowards_self here rounds, p.moveTowards_self there rounds⟩
  · have apart := inReach.apart inRange.agent_fits hhere
    have apart' := inReach'.apart inRange'.agent_fits (mt hiff.mpr hhere)
    obtain ⟨cell, hcell⟩ := h.exists_cell_iff.mpr (sees_clamped r hhere p.clampSteps)
    refine ⟨_, h.moveTowards_eq_ok inRange apart rounds hcell, ?_⟩
    rw [offsetTo_clamped_eq hgoal] at hcell
    rw [h.moveTowards_eq_ok inRange' apart' rounds hcell, h.after_eq_displaced alike,
      Estimates.record_displaced]
    rfl

end Pathfinder.Serves

end Alike

namespace Terrain

/-- The detour around an agent that stands elsewhere. It differs where nothing can be entered, where the agent
stands and out of sight. -/
def detourElsewhere : Terrain where
  agent := ⟨-40, 95⟩
  traversable q := detour.traversable (q.displaced ⟨45, -90⟩) || q = ⟨-40, 95⟩ || 99 ≤ q.y
  rubble q :=
    if detour.traversable (q.displaced ⟨45, -90⟩) then detour.rubble (q.displaced ⟨45, -90⟩) else 500

theorem detourElsewhere_inRange (r : Radius) : r.InRange detourElsewhere.agent := by
  intro o sees
  have hnear := sees.natAbs_le
  change Bounded.Fits (-40 + o.x) ∧ Bounded.Fits (95 + o.y)
  rw [Bounded.fits_iff, Bounded.fits_iff]
  omega

theorem detour_alike : detour.Alike detourElsewhere .nine := by
  have hback (o : Offset) :
      (detourElsewhere.agent.displaced o).displaced ⟨45, -90⟩ = detour.agent.displaced o :=
    displaced_displaced_offsetTo detourElsewhere.agent detour.agent o
  refine ⟨fun o sees => ?_, fun o _ enters => ?_⟩
  · have hnear : o.x.natAbs ≤ 3 ∧ o.y.natAbs ≤ 3 := Offset.natAbs_le_of_norm_le (k := 3) sees.2
    have hagent : detourElsewhere.agent.displaced o ≠ ⟨-40, 95⟩ := by
      intro heq
      apply sees.1
      rw [← offsetTo_displaced detourElsewhere.agent o, heq]
      rfl
    have hsight : ¬ 99 ≤ (detourElsewhere.agent.displaced o).y := by
      change ¬ 99 ≤ 95 + o.y
      omega
    change _ ↔ (_ || decide (detourElsewhere.agent.displaced o = ⟨-40, 95⟩) ||
      decide (99 ≤ (detourElsewhere.agent.displaced o).y)) = true
    rw [hback, decide_eq_false hagent, decide_eq_false hsight, Bool.or_false, Bool.or_false]
    exact Iff.rfl
  · change _ = if _ then _ else _
    rw [hback]
    exact (if_pos enters).symm

end Terrain

namespace Pathfinder

/-- Two searches with surroundings that look alike return the same lengths, costs, moves and predecessors for
all cells, and places as far apart as the agents; they choose the same move to targets that lie alike. -/
theorem search_eq_of_alike (radius : Radius) {here there : Terrain}
    (inRange : radius.InRange here.agent) (inRange' : radius.InRange there.agent)
    (alike : here.Alike there radius) (rounds : Nat) :
    ∃ p es es', compile radius.value = .ok p ∧ p.estimates here rounds = .ok es ∧
      p.estimates there rounds = .ok es' ∧ es.size = p.window.size ∧ es'.size = p.window.size ∧
      (∀ o, radius.Sees o → ∃ e e', es.at? p.window o = some e ∧ es'.at? p.window o = some e' ∧
        e'.length = e.length ∧ e'.cost = e.cost ∧ e'.best = e.best ∧
        e'.predecessor = e.predecessor ∧
        e'.position = e.position.map fun q => q.displaced (here.agent.offsetTo there.agent)) ∧
      ∀ goal goal', here.agent.InReach goal → there.agent.InReach goal' →
        here.agent.offsetTo goal = there.agent.offsetTo goal' →
        ∃ d, p.moveTowards here goal rounds = .ok d ∧ p.moveTowards there goal' rounds = .ok d := by
  obtain ⟨p, hcompile, h⟩ := exists_compile_eq_ok radius
  refine ⟨p, p.after here rounds, p.after there rounds, hcompile, h.estimates_eq_ok inRange rounds,
    h.estimates_eq_ok inRange' rounds, p.size_after here rounds, p.size_after there rounds,
    fun o sees => ?_, fun goal goal' inReach inReach' hgoal =>
      h.moveTowards_eq_of_alike inRange inRange' alike inReach inReach' hgoal rounds⟩
  obtain ⟨cell, hcell, hat⟩ := h.exists_at? (p.size_after here rounds) sees
  obtain ⟨cell', hcell', hat'⟩ := h.exists_at? (p.size_after there rounds) sees
  obtain rfl := Window.offset?_injective hcell hcell'
  refine ⟨_, _, hat, hat', ?_⟩
  rw [h.after_eq_displaced alike, Estimates.record_displaced]
  exact ⟨rfl, rfl, rfl, rfl, rfl⟩

theorem search_eq_of_alike_detour :
    Radius.nine.InRange Terrain.detour.agent ∧ Radius.nine.InRange Terrain.detourElsewhere.agent ∧
    Terrain.detour.Alike Terrain.detourElsewhere .nine ∧
    ∃ p es es', compile 9 = .ok p ∧ p.estimates Terrain.detour 1 = .ok es ∧
      p.estimates Terrain.detourElsewhere 1 = .ok es' ∧ es.size = p.window.size ∧
      es'.size = p.window.size ∧
      (∀ o, Radius.nine.Sees o → ∃ e e', es.at? p.window o = some e ∧
        es'.at? p.window o = some e' ∧ e'.length = e.length ∧ e'.cost = e.cost ∧
        e'.best = e.best ∧ e'.predecessor = e.predecessor ∧
        e'.position = e.position.map fun q => q.displaced ⟨-45, 90⟩) ∧
      ∃ d, p.moveTowards Terrain.detour ⟨5, 90⟩ 1 = .ok d ∧
        p.moveTowards Terrain.detourElsewhere ⟨-40, 180⟩ 1 = .ok d := by
  have inRange := (Terrain.detour_regular .nine).inRange
  have inRange' := Terrain.detourElsewhere_inRange .nine
  have alike := Terrain.detour_alike
  obtain ⟨p, es, es', hcompile, hes, hes', hsize, hsize', hrecords, hmove⟩ :=
    search_eq_of_alike .nine inRange inRange' alike 1
  exact ⟨inRange, inRange', alike, p, es, es', hcompile, hes, hes', hsize, hsize', hrecords,
    hmove ⟨5, 90⟩ ⟨-40, 180⟩ ⟨by decide, by decide, by decide⟩ ⟨by decide, by decide, by decide⟩ rfl⟩

end Pathfinder

end GridRoute
