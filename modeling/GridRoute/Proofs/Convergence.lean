import GridRoute.Proofs.Soundness
import Mathlib.Order.Bounds.Basic

/-!
Convergence. The first pass and every round are given cell by cell, by the estimates a cell reads. Round
after round the lengths come down to what trails cost: a trail of so many steps is accounted for after as
many rounds. A cheapest trail enters no cell twice, so once there were as many
rounds as cells no estimate changes any more.
-/

namespace GridRoute.Pathfinder

namespace Serves

variable {p : Pathfinder} {radius : Radius} {t : Terrain}

theorem record_start_seed (h : p.Serves radius) (regular : t.Regular radius) {cell : Nat}
    {o : Offset} (hcell : p.window.offset? cell = some o) (hseed : o.norm ≤ Offset.seedDistance)
    (enters : t.Enters o) : ∃ d, o.neighbor d = Offset.origin ∧
      (p.after t 0).record cell =
        ⟨some (t.agent.displaced o), Cost.step + t.costAt o, t.costAt o, d, some .origin⟩ := by
  have sensed := Estimate.sound_sense regular (h.sees hcell)
  obtain ⟨d, hd, hrecord⟩ := h.record_start_of_seed hcell hseed (sensed.isSome_position enters)
  have hlength := sensed.length_seeded regular (h.sees hcell) enters d
  refine ⟨d, hd, ?_⟩
  rw [after_zero, hrecord, ← hlength, Estimate.sense_of_enters regular (h.sees hcell) enters]
  rfl

theorem record_start_relax (h : p.Serves radius) (regular : t.Regular radius) {cell : Nat}
    {o : Offset} (hcell : p.window.offset? cell = some o) (hfar : Offset.seedDistance < o.norm)
    (enters : t.Enters o) : (p.after t 0).record cell = Estimate.improveAll
      ⟨some (t.agent.displaced o), Cost.unreached, t.costAt o, .center, none⟩
      (p.after t 0) (o.closerNeighbors.map p.window.cellAt) := by
  have sensed := Estimate.sound_sense regular (h.sees hcell)
  rw [after_zero, h.record_start_of_far hcell hfar (sensed.isSome_position enters),
    Estimate.sense_of_enters regular (h.sees hcell) enters]

/-- A round improves a cell by its neighbours that are no seeds: by the new estimates of those that come
before it and by the old ones of those behind it. -/
theorem record_after_succ (h : p.Serves radius) (regular : t.Regular radius) {cell : Nat}
    {o : Offset} (hcell : p.window.offset? cell = some o) (hfar : Offset.seedDistance < o.norm)
    (enters : t.Enters o) (hsome : p.window.outerNeighbors o ≠ []) (rounds : Nat) :
    ∃ middle, (p.after t (rounds + 1)).record cell =
        ((p.after t rounds).record cell).improveAll middle
          ((p.window.outerNeighbors o).map p.window.cellAt) ∧
      (∀ other, other < cell → middle.record other = (p.after t (rounds + 1)).record other) ∧
      ∀ other, cell ≤ other → middle.record other = (p.after t rounds).record other := by
  have hopen := (h.sound_after regular rounds cell o hcell).isSome_position enters
  obtain ⟨r, hr, rfl, -, hnumbers⟩ := h.schedule.exists_refines cell o hcell hfar hsome
  obtain ⟨middle, hrecord, hearlier, hlater⟩ :=
    h.schedule.record_swept (p.size_after t rounds) hr hopen
  rw [← after_succ] at hrecord hearlier
  exact ⟨middle, hnumbers.eq_map ▸ hrecord, hearlier, hlater⟩

theorem record_after_seed (h : p.Serves radius) {cell : Nat} {o : Offset}
    (hcell : p.window.offset? cell = some o) (hseed : o.norm ≤ Offset.seedDistance) (rounds : Nat) :
    (p.after t rounds).record cell = (p.after t 0).record cell := by
  induction rounds with
  | zero => rfl
  | succ rounds ih =>
    rw [after_succ, ← ih]
    refine Estimates.record_foldl_of_ne Estimates.record_relaxed_of_ne _ fun r hr hself => ?_
    obtain ⟨n, hn, -, hfar, -⟩ := h.schedule.refines_of_mem r hr
    obtain rfl : o = n := Option.some.inj (hcell.symm.trans (hself ▸ hn))
    exact Nat.not_le.mpr hfar hseed

theorem length_start_le (h : p.Serves radius) (regular : t.Regular radius) {cell source : Nat}
    {o n : Offset} (hcell : p.window.offset? cell = some o)
    (hsource : p.window.offset? source = some n) (hfar : Offset.seedDistance < o.norm)
    (hadjacent : o.Adjacent n) (hless : n.norm < o.norm) (enters : t.Enters o) :
    ((p.after t 0).record cell).length ≤
      Cost.add ((p.after t 0).record source).length (t.costAt o) := by
  rw [h.record_start_relax regular hcell hfar enters]
  exact Estimate.length_improveAll_le _ _ (List.mem_map.mpr
    ⟨n, Offset.mem_closerNeighbors.mpr ⟨hadjacent, hless⟩, Window.cellAt_eq hsource⟩)

/-- A round brings every cell that is no seed to at most the way by any neighbour that is none. -/
theorem length_after_succ_le (h : p.Serves radius) (regular : t.Regular radius)
    {cell source : Nat} {o n : Offset} (hcell : p.window.offset? cell = some o)
    (hsource : p.window.offset? source = some n) (hfar : Offset.seedDistance < o.norm)
    (hadjacent : o.Adjacent n) (hfar' : Offset.seedDistance < n.norm) (enters : t.Enters o)
    (rounds : Nat) :
    ((p.after t (rounds + 1)).record cell).length ≤
      Cost.add ((p.after t rounds).record source).length (t.costAt o) := by
  have hneighbor : n ∈ p.window.outerNeighbors o := Window.mem_outerNeighbors.mpr
    ⟨hadjacent, hfar', h.window_radius ▸ (h.sees hsource).2⟩
  obtain ⟨middle, hrecord, hearlier, hlater⟩ :=
    h.record_after_succ regular hcell hfar enters (List.ne_nil_of_mem hneighbor) rounds
  have hmiddle : (middle.record source).length ≤ ((p.after t rounds).record source).length := by
    rcases Nat.lt_or_ge source cell with hlt | hge
    · rw [hearlier source hlt, after_succ]
      exact (Estimates.shortens_swept _ _).length_le source
    · rw [hlater source hge]
  have himprove := Estimate.length_improveAll_le ((p.after t rounds).record cell) middle
    (List.mem_map.mpr ⟨n, hneighbor, Window.cellAt_eq hsource⟩)
  rw [(h.sound_after regular rounds cell o hcell).cost_eq enters] at himprove
  rw [hrecord]
  exact Int.le_trans himprove (Cost.add_le_add_right hmiddle _)

theorem length_after_seed (h : p.Serves radius) (regular : t.Regular radius) {cell : Nat}
    {o : Offset} (hcell : p.window.offset? cell = some o) (hseed : o.norm ≤ Offset.seedDistance)
    (enters : t.Enters o) (rounds : Nat) :
    ((p.after t rounds).record cell).length = Cost.step + t.costAt o := by
  obtain ⟨d, -, hrecord⟩ := h.record_start_seed regular hcell hseed enters
  rw [h.record_after_seed hcell hseed, hrecord]

theorem length_after_le (p : Pathfinder) (t : Terrain) {m n : Nat} (hmn : m ≤ n) (cell : Nat) :
    ((p.after t n).record cell).length ≤ ((p.after t m).record cell).length :=
  Estimates.length_iterate_swept_le _ _ hmn cell

/-- After as many rounds as a trail has steps, its last cell is no farther than the trail. -/
theorem length_le_of_trail (h : p.Serves radius) (regular : t.Regular radius) {start o : Offset}
    {rest : List Offset} (htrail : t.Trail radius start (o :: rest)) {cell : Nat}
    (hcell : p.window.offset? cell = some o) :
    ((p.after t rest.length).record cell).length ≤ Cost.step + t.trailCost (o :: rest) := by
  generalize hsplit : o :: rest = trail at htrail
  induction htrail generalizing o rest cell with
  | seed _ henters hseed =>
    obtain ⟨rfl, rfl⟩ := List.cons.inj hsplit
    rw [h.length_after_seed regular hcell hseed henters]
    simp
  | @enter previous next earlier before hadjacent hsees henters ih =>
    obtain ⟨rfl, rfl⟩ := List.cons.inj hsplit
    obtain ⟨source, hsource⟩ := h.exists_cell_iff.mpr (before.sees previous List.mem_cons_self)
    have hprevious := ih hsource rfl
    have hbefore := Terrain.Trail.cost_nonneg regular before.sees before.enters
    have hearlier : 0 ≤ t.trailCost earlier := Terrain.Trail.cost_nonneg regular
      (fun n hn => before.sees n (List.mem_cons_of_mem _ hn))
      (fun n hn => before.enters n (List.mem_cons_of_mem _ hn))
    have hadd (rounds : Nat) := (h.sound_after regular rounds source previous hsource).add_cost
      regular hsees henters
    rw [List.length_cons]
    by_cases hseed : o.norm ≤ Offset.seedDistance
    · -- A trail that comes back to a seed costs more than its one step.
      rw [h.length_after_seed regular hcell hseed henters, Terrain.trailCost_cons]
      omega
    · have hfar := Nat.lt_of_not_le hseed
      by_cases hfirst : previous.norm ≤ Offset.seedDistance
      · -- No round offers the route of a seed, but the first pass has done so.
        have hmono := length_after_le p t (Nat.zero_le (earlier.length + 1)) cell
        have hstart := h.length_start_le regular hcell hsource hfar hadjacent.symm (by omega)
          henters
        have hseeded := h.length_after_seed regular hsource hfirst
          (before.enters previous List.mem_cons_self) 0
        rw [hadd, hseeded] at hstart
        rw [Terrain.trailCost_cons, Terrain.trailCost_cons]
        omega
      · have hround := h.length_after_succ_le regular hcell hsource hfar hadjacent.symm
          (Nat.lt_of_not_le hfirst) henters earlier.length
        rw [hadd] at hround
        rw [Terrain.trailCost_cons]
        omega

theorem length_le_of_size_le (h : p.Serves radius) (regular : t.Regular radius) {rounds : Nat}
    (hrounds : p.window.size ≤ rounds) {start o : Offset} {rest : List Offset}
    (htrail : t.Trail radius start (o :: rest)) {cell : Nat}
    (hcell : p.window.offset? cell = some o) :
    ((p.after t rounds).record cell).length ≤ Cost.step + t.trailCost (o :: rest) := by
  obtain ⟨fewer, hfewer, hnodup, hcost⟩ := htrail.exists_nodup regular
  have hsize := h.length_le_size hfewer hnodup
  rw [List.length_cons] at hsize
  have hmono := length_after_le p t (show fewer.length ≤ rounds by omega) cell
  have hshort := h.length_le_of_trail regular hfewer hcell
  omega

theorem isLeast_length (h : p.Serves radius) (regular : t.Regular radius) {rounds : Nat}
    (hrounds : p.window.size ≤ rounds) {cell : Nat} {o : Offset}
    (hcell : p.window.offset? cell = some o) :
    IsLeast (insert Cost.unreached (t.routeLengths radius o))
      ((p.after t rounds).record cell).length := by
  have sound := h.sound_after regular rounds cell o hcell
  constructor
  · rcases Int.lt_or_eq_of_le sound.length_le with reached | unreached
    · obtain ⟨start, rest, htrail, hlength, -⟩ := sound.exists_trail reached
      exact .inr ⟨start, rest, htrail, hlength.symm⟩
    · exact .inl unreached
  · rintro length (rfl | ⟨start, rest, htrail, rfl⟩)
    · exact sound.length_le
    · exact h.length_le_of_size_le regular hrounds htrail hcell

theorem after_eq_of_size_le (h : p.Serves radius) (regular : t.Regular radius) {rounds : Nat}
    (hrounds : p.window.size ≤ rounds) : p.after t rounds = p.after t p.window.size := by
  refine after_eq_of_sameLengths (sameLengths_of_cells fun cell o hcell => ?_) hrounds
  exact (h.isLeast_length regular (Nat.le_succ _) hcell).unique
    (h.isLeast_length regular (Nat.le_refl _) hcell)

end Serves

/-- Every search of at least as many rounds as the window has cells returns the same estimates, and in them
every cell that can be entered has the least length of all trails to it. -/
theorem estimates_converge (radius : Radius) (t : Terrain) (regular : t.Regular radius) :
    ∃ p es, compile radius.value = .ok p ∧
      (∀ rounds, p.window.size ≤ rounds → p.estimates t rounds = .ok es) ∧
      es.size = p.window.size ∧
      ∀ o, radius.Sees o → ∃ e, es.at? p.window o = some e ∧
        (t.Enters o → IsLeast (insert Cost.unreached (t.routeLengths radius o)) e.length) ∧
        (¬ t.Enters o → e.length = Cost.unreached) := by
  obtain ⟨p, hcompile, h⟩ := exists_compile_eq_ok radius
  refine ⟨p, p.after t p.window.size, hcompile, fun rounds hrounds => ?_, p.size_after t _,
    fun o sees => ?_⟩
  · rw [h.estimates_eq_ok regular.inRange, h.after_eq_of_size_le regular hrounds]
  · obtain ⟨cell, hcell, hat⟩ := h.exists_at? (p.size_after t p.window.size) sees
    refine ⟨_, hat, fun _ => h.isLeast_length regular (Nat.le_refl _) hcell, fun blocked => ?_⟩
    rw [(h.sound_after regular _ cell o hcell).eq_closed blocked]
    rfl

theorem estimates_converge_detour :
    Terrain.detour.Regular .nine ∧
    ∃ p es, compile 9 = .ok p ∧
      (∀ rounds, p.window.size ≤ rounds → p.estimates Terrain.detour rounds = .ok es) ∧
      es.size = p.window.size ∧
      ∀ o, Radius.nine.Sees o → ∃ e, es.at? p.window o = some e ∧
        (Terrain.detour.Enters o →
          IsLeast (insert Cost.unreached (Terrain.detour.routeLengths .nine o)) e.length) ∧
        (¬ Terrain.detour.Enters o → e.length = Cost.unreached) :=
  ⟨Terrain.detour_regular .nine,
    estimates_converge .nine Terrain.detour (Terrain.detour_regular .nine)⟩

end GridRoute.Pathfinder
