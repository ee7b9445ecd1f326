import GridRoute.Proofs.SearchRun
import GridRoute.Proofs.Trail

/-!
Soundness of the estimates. Whatever an estimate says of its cell is true after every single offer, so it
is true after any number of rounds: a length below that of an unreached cell is what some trail costs, and
the move that goes with it is the one from the start of that trail. The chain of predecessors need not be
that trail, for a predecessor may have found a shorter way since.
-/

namespace GridRoute

theorem Terrain.sense_eq {t : Terrain} {o : Offset} (enters : t.Enters o) :
    t.sense (t.agent.displaced o) = { Estimate.closed with
      position := some (t.agent.displaced o),
      cost := Cost.add (t.rubble (t.agent.displaced o)) Cost.step } :=
  if_pos enters

structure Estimate.Sound (e : Estimate) (t : Terrain) (r : Radius) (o : Offset) : Prop where
  eq_closed : ¬ t.Enters o → e = Estimate.closed
  position_eq : t.Enters o → e.position = some (t.agent.displaced o)
  cost_eq : t.Enters o → e.cost = t.costAt o
  length_nonneg : 0 ≤ e.length
  length_le : e.length ≤ Cost.unreached
  exists_trail : e.length < Cost.unreached → ∃ start rest, t.Trail r start (o :: rest) ∧
    Cost.step + t.trailCost (o :: rest) = e.length ∧ start.neighbor e.best = Offset.origin

namespace Estimate

variable {e via : Estimate} {t : Terrain} {r : Radius} {o n : Offset}

theorem sense_of_enters (regular : t.Regular r) (sees : r.Sees o) (enters : t.Enters o) :
    t.sense (t.agent.displaced o) =
      ⟨some (t.agent.displaced o), Cost.unreached, t.costAt o, .center, none⟩ := by
  have hbounds := regular.rubble_bounds o sees enters
  rw [Terrain.sense_eq enters, Terrain.costAt, Cost.add_of_fits]
  · rfl
  · rw [Bounded.fits_iff, Cost.step]
    omega

theorem sense_of_not_enters (blocked : ¬ t.Enters o) : t.sense (t.agent.displaced o) = closed :=
  if_neg blocked

theorem sound_sense (regular : t.Regular r) (sees : r.Sees o) :
    (t.sense (t.agent.displaced o)).Sound t r o := by
  by_cases enters : t.Enters o
  · rw [sense_of_enters regular sees enters]
    exact {
      eq_closed := fun blocked => absurd enters blocked
      position_eq := fun _ => rfl
      cost_eq := fun _ => rfl
      length_nonneg := show 0 ≤ Cost.unreached by decide
      length_le := Int.le_refl _
      exists_trail := fun reached => absurd reached (Int.lt_irrefl _) }
  · rw [sense_of_not_enters enters]
    exact {
      eq_closed := fun _ => rfl
      position_eq := fun entered => absurd entered enters
      cost_eq := fun entered => absurd entered enters
      length_nonneg := by decide
      length_le := Int.le_refl _
      exists_trail := fun reached => absurd reached (Int.lt_irrefl _) }

namespace Sound

theorem enters (h : e.Sound t r o) (hopen : e.position.isSome) : t.Enters o := by
  by_contra blocked
  rw [h.eq_closed blocked] at hopen
  exact absurd hopen (by decide)

theorem isSome_position (h : e.Sound t r o) (enters : t.Enters o) : e.position.isSome := by
  rw [h.position_eq enters]
  rfl

/-- No route is so long that a step into another cell would run out of the range. -/
theorem add_cost (h : via.Sound t r n) (regular : t.Regular r) (sees : r.Sees o)
    (enters : t.Enters o) :
    Cost.add via.length (t.costAt o) = via.length + t.costAt o := by
  have hvia := h.length_nonneg
  have hlimit := h.length_le
  have hcost := regular.costAt_bounds sees enters
  apply Cost.add_of_fits
  rw [Bounded.fits_iff]
  unfold Cost.unreached at hlimit
  omega

theorem length_seeded (h : e.Sound t r o) (regular : t.Regular r) (sees : r.Sees o)
    (enters : t.Enters o) (d : Direction) : (e.seeded d).length = Cost.step + t.costAt o := by
  have hcost := regular.costAt_bounds sees enters
  change Cost.add e.cost Cost.step = _
  rw [h.cost_eq enters, Cost.add_of_fits, Int.add_comm]
  rw [Bounded.fits_iff, Cost.step]
  omega

theorem seeded (h : e.Sound t r o) (regular : t.Regular r) (sees : r.Sees o)
    (hseed : o.norm ≤ Offset.seedDistance) {d : Direction} (hd : o.neighbor d = Offset.origin)
    (hopen : e.position.isSome) : (e.seeded d).Sound t r o := by
  have enters := h.enters hopen
  have hcost := regular.costAt_bounds sees enters
  have hlength := h.length_seeded regular sees enters d
  refine ⟨fun blocked => absurd enters blocked, h.position_eq, h.cost_eq, ?_, ?_, fun _ => ?_⟩
  · rw [hlength, Cost.step]
    omega
  · rw [hlength, Cost.step, Cost.unreached]
    omega
  · refine ⟨o, [], .seed sees enters hseed, ?_, hd⟩
    rw [hlength, Terrain.trailCost_cons, Terrain.trailCost_nil, Int.add_zero]

theorem improve (h : e.Sound t r o) (hvia : via.Sound t r n) (regular : t.Regular r)
    (sees : r.Sees o) (hadjacent : o.Adjacent n) (hopen : e.position.isSome) (source : Nat) :
    (e.improve source via).Sound t r o := by
  have enters := h.enters hopen
  have hcost := regular.costAt_bounds sees enters
  by_cases hless : Cost.add via.length e.cost < e.length
  · rw [Estimate.improve_of_lt _ _ _ hless]
    rw [h.cost_eq enters, hvia.add_cost regular sees enters] at hless ⊢
    have hnonneg := hvia.length_nonneg
    have hlimit := h.length_le
    refine ⟨fun blocked => absurd enters blocked, h.position_eq, fun _ => rfl, ?_, ?_, fun _ => ?_⟩
    · exact Int.add_nonneg hnonneg hcost.1
    · exact Int.le_trans (Int.le_of_lt hless) hlimit
    · obtain ⟨start, rest, htrail, hlength, hbest⟩ := hvia.exists_trail (by omega)
      refine ⟨start, n :: rest, .enter htrail hadjacent.symm sees enters, ?_, hbest⟩
      change _ = via.length + t.costAt o
      rw [Terrain.trailCost_cons, ← hlength]
      omega
  · rw [Estimate.improve_of_le _ _ _ (Int.not_lt.mp hless)]
    exact h

end Sound

end Estimate

def Estimates.Sound (es : Estimates) (t : Terrain) (r : Radius) (w : Window) : Prop :=
  ∀ cell o, w.offset? cell = some o → (es.record cell).Sound t r o

theorem Estimates.Sound.set {es : Estimates} {t : Terrain} {r : Radius} {w : Window}
    (h : es.Sound t r w) {cell : Nat} {o : Offset} (hcell : w.offset? cell = some o)
    (hlt : cell < es.size) {e : Estimate} (he : e.Sound t r o) : (es.set cell e).Sound t r w :=
  Estimates.forall_record_set (Q := fun o e => e.Sound t r o) h hcell hlt he

namespace Pathfinder

namespace Serves

variable {p : Pathfinder} {radius : Radius} {t : Terrain}

theorem sound_sensed (h : p.Serves radius) (regular : t.Regular radius) :
    (t.sensed p.window).Sound t radius p.window := by
  intro cell o hcell
  rw [t.record_sensed hcell]
  exact Estimate.sound_sense regular (h.sees hcell)

theorem sound_seeded (h : p.Serves radius) (regular : t.Regular radius) {es : Estimates}
    {cell : Nat} {o : Offset} {d : Direction} (hsize : es.size = p.window.size)
    (hcell : p.window.offset? cell = some o) (hseed : o.norm ≤ Offset.seedDistance)
    (hd : o.neighbor d = Offset.origin) (hopen : (es.record cell).position.isSome)
    (sound : es.Sound t radius p.window) :
    (es.set cell ((es.record cell).seeded d)).Sound t radius p.window :=
  sound.set hcell (hsize ▸ Window.offset?_lt_size hcell)
    ((sound cell o hcell).seeded regular (h.sees hcell) hseed hd hopen)

theorem sound_offered (h : p.Serves radius) (regular : t.Regular radius) {es : Estimates}
    {cell source : Nat} {o n : Offset} (hsize : es.size = p.window.size)
    (hcell : p.window.offset? cell = some o) (hsource : p.window.offset? source = some n)
    (hadjacent : o.Adjacent n) (hopen : (es.record cell).position.isSome)
    (sound : es.Sound t radius p.window) :
    (Estimates.offered cell es source).Sound t radius p.window :=
  sound.set hcell (hsize ▸ Window.offset?_lt_size hcell)
    ((sound cell o hcell).improve (sound source n hsource) regular (h.sees hcell) hadjacent hopen
      source)

theorem sound_after (h : p.Serves radius) (regular : t.Regular radius) (rounds : Nat) :
    (p.after t rounds).Sound t radius p.window := by
  refine h.record_induction (Q := fun o e => e.Sound t radius o) ?_ ?_ ?_ rounds
  · intro o sees
    exact Estimate.sound_sense regular sees
  · intro o e d sees hseed hd hopen sound
    exact sound.seeded regular sees hseed hd hopen
  · intro o n e via source sees hadjacent hopen sound hvia
    exact sound.improve hvia regular sees hadjacent hopen source

theorem exists_at? (h : p.Serves radius) {es : Estimates} (hsize : es.size = p.window.size)
    {o : Offset} (sees : radius.Sees o) :
    ∃ cell, p.window.offset? cell = some o ∧ es.at? p.window o = some (es.record cell) := by
  obtain ⟨cell, hcell⟩ := h.exists_cell_iff.mpr sees
  refine ⟨cell, hcell, ?_⟩
  rw [Estimates.at?, Window.index?_eq_some_iff.mpr hcell]
  exact Estimates.getElem?_eq_some_record (hsize ▸ Window.offset?_lt_size hcell)

end Serves

/-- At every number of rounds, a length is what some trail costs, and the move that goes with it is the
one from the start of this trail to the agent. A cell that cannot be entered stays closed. -/
theorem estimates_sound (radius : Radius) (t : Terrain) (regular : t.Regular radius)
    (rounds : Nat) :
    ∃ p es, compile radius.value = .ok p ∧ p.estimates t rounds = .ok es ∧
      es.size = p.window.size ∧
      ∀ o, radius.Sees o → ∃ e, es.at? p.window o = some e ∧
        (e.length < Cost.unreached → ∃ start rest, t.Trail radius start (o :: rest) ∧
          t.trailCost (o :: rest) = e.length - Cost.step ∧
          start.neighbor e.best = Offset.origin) ∧
        (¬ t.Enters o → e = {
          position := none, length := Cost.unreached, cost := Cost.unsensed, best := .center,
          predecessor := none }) := by
  obtain ⟨p, hcompile, h⟩ := exists_compile_eq_ok radius
  refine ⟨p, p.after t rounds, hcompile, h.estimates_eq_ok regular.inRange rounds,
    p.size_after t rounds, fun o sees => ?_⟩
  obtain ⟨cell, hcell, hat⟩ := h.exists_at? (p.size_after t rounds) sees
  have sound := h.sound_after regular rounds cell o hcell
  refine ⟨_, hat, fun reached => ?_, sound.eq_closed⟩
  obtain ⟨start, rest, htrail, hlength, hbest⟩ := sound.exists_trail reached
  exact ⟨start, rest, htrail, by omega, hbest⟩

theorem estimates_sound_detour :
    Terrain.detour.Regular .nine ∧
    ∃ p es, compile 9 = .ok p ∧ p.estimates Terrain.detour 1 = .ok es ∧
      es.size = p.window.size ∧
      ∀ o, Radius.nine.Sees o → ∃ e, es.at? p.window o = some e ∧
        (e.length < Cost.unreached → ∃ start rest,
          Terrain.detour.Trail .nine start (o :: rest) ∧
          Terrain.detour.trailCost (o :: rest) = e.length - Cost.step ∧
          start.neighbor e.best = Offset.origin) ∧
        (¬ Terrain.detour.Enters o → e = {
          position := none, length := Cost.unreached, cost := Cost.unsensed, best := .center,
          predecessor := none }) :=
  ⟨Terrain.detour_regular .nine,
    estimates_sound .nine Terrain.detour (Terrain.detour_regular .nine) 1⟩

end Pathfinder

end GridRoute
