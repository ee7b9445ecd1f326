import GridRoute.Proofs.FirstPass
import GridRoute.Proofs.Improvement

/-!
A search as a run. The estimates of a compiled program are its first pass and a number of rounds after it;
what sensing establishes and every seeding and every single offer keeps holds of them all.
-/

namespace GridRoute

open Sequencing

namespace Estimates

theorem relaxed_induction {P : Estimates → Prop} {es : Estimates} {r : Relaxation} (start : P es)
    (offer : ∀ next source, source ∈ r.sources → next.size = es.size →
      (next.record r.cell).position.isSome → P next → P (offered r.cell next source)) :
    P (es.relaxed r) := by
  unfold relaxed
  split
  · exact start
  · rename_i hopen
    have hopen : (es.record r.cell).position.isSome := by
      simpa [Option.isNone_iff_eq_none, Option.isSome_iff_ne_none] using hopen
    refine (List.foldlRecOn (motive := fun next => Shortens es next ∧ P next) r.sources _
      ⟨.refl es, start⟩ ?_).2
    rintro next ⟨hshort, hnext⟩ source hsource
    exact ⟨hshort.trans (shortens_offered r.cell next source),
      offer next source hsource hshort.size_eq (by rwa [hshort.position_eq]) hnext⟩

theorem forall_record_set {Q : Offset → Estimate → Prop} {es : Estimates} {w : Window}
    (h : ∀ cell o, w.offset? cell = some o → Q o (es.record cell)) {cell : Nat} {o : Offset}
    (hcell : w.offset? cell = some o) (hlt : cell < es.size) {e : Estimate} (he : Q o e) :
    ∀ other n, w.offset? other = some n → Q n ((es.set cell e).record other) := by
  intro other n hother
  by_cases heq : other = cell
  · subst heq
    rw [record_set_self hlt]
    obtain rfl : o = n := Option.some.inj (hcell.symm.trans hother)
    exact he
  · rw [record_set_of_ne _ heq]
    exact h other n hother

end Estimates

namespace Pathfinder

def start (p : Pathfinder) (t : Terrain) : Estimates :=
  p.schedule.initialSteps.foldl Estimates.started (t.sensed p.window)

def after (p : Pathfinder) (t : Terrain) (rounds : Nat) : Estimates :=
  (Estimates.swept p.schedule.extraRound)^[rounds] (p.start t)

@[simp] theorem after_zero (p : Pathfinder) (t : Terrain) : p.after t 0 = p.start t := rfl

theorem after_succ (p : Pathfinder) (t : Terrain) (rounds : Nat) :
    p.after t (rounds + 1) = (p.after t rounds).swept p.schedule.extraRound :=
  Function.iterate_succ_apply' ..

theorem shortens_after (p : Pathfinder) (t : Terrain) (rounds : Nat) :
    (p.start t).Shortens (p.after t rounds) :=
  Estimates.shortens_iterate_swept ..

@[simp] theorem size_start (p : Pathfinder) (t : Terrain) : (p.start t).size = p.window.size :=
  (Estimates.size_foldl_started ..).trans (t.size_sensed _)

@[simp] theorem size_after (p : Pathfinder) (t : Terrain) (rounds : Nat) :
    (p.after t rounds).size = p.window.size :=
  (p.shortens_after t rounds).size_eq.trans (p.size_start t)

theorem sameLengths_of_cells {p : Pathfinder} {t : Terrain} {m n : Nat}
    (h : ∀ cell o, p.window.offset? cell = some o →
      ((p.after t n).record cell).length = ((p.after t m).record cell).length) :
    (p.after t m).SameLengths (p.after t n) := by
  intro cell
  by_cases hlt : cell < p.window.size
  · obtain ⟨o, hcell⟩ := Window.exists_offset? hlt
    exact h cell o hcell
  · rw [Estimates.record, Estimates.record, Array.getElem?_eq_none, Array.getElem?_eq_none]
    · exact Nat.le_trans (Nat.le_of_eq (p.size_after t m)) (Nat.le_of_not_lt hlt)
    · exact Nat.le_trans (Nat.le_of_eq (p.size_after t n)) (Nat.le_of_not_lt hlt)

theorem after_eq_of_sameLengths {p : Pathfinder} {t : Terrain} {n : Nat}
    (h : (p.after t n).SameLengths (p.after t (n + 1))) {m : Nat} (hm : n ≤ m) :
    p.after t m = p.after t n :=
  Estimates.iterate_swept_eq_of_sameLengths h hm

namespace Serves

variable {p : Pathfinder} {radius : Radius} {t : Terrain}

theorem positions_eq_ok (h : p.Serves radius) (inRange : radius.InRange t.agent) :
    p.positions t.agent = .ok (p.window.offsets.map t.agent.displaced) :=
  h.schedule.placedBy.positions_eq_ok fun o ho =>
    inRange o (h.exists_cell_iff.mp (Window.mem_offsets_iff.mp ho))

theorem start_eq_ok (h : p.Serves radius) (inRange : radius.InRange t.agent) :
    p.firstPass t = .ok (p.start t) := by
  rw [firstPass, h.positions_eq_ok inRange, ok_bind, t.map_sense]
  refine Estimates.firstPass_eq_ok (t.sensed p.window) fun step hstep => ?_
  rw [t.size_sensed]
  exact h.schedule.initialStep_within hstep

theorem record_start_of_seed (h : p.Serves radius) {cell : Nat} {o : Offset}
    (hcell : p.window.offset? cell = some o) (hseed : o.norm ≤ Offset.seedDistance)
    (hopen : (t.sense (t.agent.displaced o)).position.isSome) :
    ∃ d, o.neighbor d = Offset.origin ∧
      (p.start t).record cell = (t.sense (t.agent.displaced o)).seeded d := by
  obtain ⟨step, hstep, starts⟩ := h.schedule.initialSteps_starts cell o hcell
  rw [start, h.schedule.record_start (t.size_sensed _) hstep, t.record_sensed hcell]
  cases step with
  | seed named d => exact ⟨d, starts.2.2, InitialStep.result_seed hopen named d⟩
  | relax r => exact absurd hseed (Nat.not_le.mpr starts.2.1)

theorem record_start_of_far (h : p.Serves radius) {cell : Nat} {o : Offset}
    (hcell : p.window.offset? cell = some o) (hfar : Offset.seedDistance < o.norm)
    (hopen : (t.sense (t.agent.displaced o)).position.isSome) :
    (p.start t).record cell = (t.sense (t.agent.displaced o)).improveAll (p.start t)
      (o.closerNeighbors.map p.window.cellAt) := by
  obtain ⟨step, hstep, starts⟩ := h.schedule.initialSteps_starts cell o hcell
  cases step with
  | seed named d => exact absurd starts.2.1 (Nat.not_le.mpr hfar)
  | relax r =>
    rw [start, h.schedule.record_start (t.size_sensed _) hstep, t.record_sensed hcell,
      InitialStep.result_relax hopen, starts.2.2.eq_map]

theorem estimates_eq_ok (h : p.Serves radius) (inRange : radius.InRange t.agent) (rounds : Nat) :
    p.estimates t rounds = .ok (p.after t rounds) := by
  rw [estimates, h.start_eq_ok inRange, ok_bind]
  refine Estimates.rounds_eq_ok (fun r hr => ?_) rounds
  rw [size_start]
  exact h.schedule.relaxation_within hr

section Induction

variable {P : Estimates → Prop}
  (seed : ∀ es cell o d, es.size = p.window.size → p.window.offset? cell = some o →
    o.norm ≤ Offset.seedDistance → o.neighbor d = Offset.origin →
    (es.record cell).position.isSome → P es → P (es.set cell ((es.record cell).seeded d)))
  (offer : ∀ es cell source o n, es.size = p.window.size → p.window.offset? cell = some o →
    p.window.offset? source = some n → o.Adjacent n → Offset.seedDistance < o.norm →
    (es.record cell).position.isSome → P es → P (Estimates.offered cell es source))

include seed offer

/-- What sensing establishes and every seeding and every offer of a neighbour keeps, holds after the
first pass. -/
theorem start_induction (h : p.Serves radius) (sensed : P (t.sensed p.window)) : P (p.start t) := by
  refine (List.foldlRecOn (motive := fun es => es.size = p.window.size ∧ P es)
    p.schedule.initialSteps _ ⟨t.size_sensed _, sensed⟩ ?_).2
  rintro es ⟨hsize, hes⟩ step hstep
  refine ⟨by rw [Estimates.size_started, hsize], ?_⟩
  obtain ⟨cell, hget⟩ := List.mem_iff_getElem?.mp hstep
  obtain ⟨o, hcell, starts⟩ := h.schedule.exists_offset_of_initialStep hget
  cases step with
  | seed named towardOrigin =>
    obtain ⟨rfl, hseed, hd⟩ := starts
    rw [Estimates.started]
    split
    · exact hes
    · rename_i hopen
      exact seed es named o towardOrigin hsize hcell hseed hd
        (by simpa [Option.isSome_iff_ne_none] using hopen) hes
  | relax r =>
    obtain ⟨rfl, hfar, hnumbers⟩ := starts
    refine Estimates.relaxed_induction hes fun next source hsource hnextSize hopen hnext => ?_
    obtain ⟨n, hn, hfound⟩ := hnumbers.exists_offset hsource
    exact offer next r.cell source o n (hnextSize.trans hsize) hcell hfound
      (Offset.mem_closerNeighbors.mp hn).1 hfar hopen hnext

omit seed in
theorem swept_induction (h : p.Serves radius) {es : Estimates} (hsize : es.size = p.window.size)
    (hes : P es) : P (es.swept p.schedule.extraRound) := by
  refine (List.foldlRecOn (motive := fun es => es.size = p.window.size ∧ P es)
    p.schedule.extraRound _ ⟨hsize, hes⟩ ?_).2
  rintro es ⟨hsize, hes⟩ r hr
  refine ⟨by rw [Estimates.size_relaxed, hsize], ?_⟩
  obtain ⟨o, hcell, -, hfar, hnumbers⟩ := h.schedule.refines_of_mem r hr
  refine Estimates.relaxed_induction hes fun next source hsource hnextSize hopen hnext => ?_
  obtain ⟨n, hn, hfound⟩ := hnumbers.exists_offset hsource
  exact offer next r.cell source o n (hnextSize.trans hsize) hcell hfound
    (Window.mem_outerNeighbors.mp hn).1 hfar hopen hnext

theorem after_induction (h : p.Serves radius) (sensed : P (t.sensed p.window)) (rounds : Nat) :
    P (p.after t rounds) := by
  induction rounds with
  | zero => exact h.start_induction seed offer sensed
  | succ rounds ih =>
    rw [after_succ]
    exact h.swept_induction offer (p.size_after t rounds) ih

end Induction

/-- What sensing establishes of a single estimate, and every seeding and every offer of a neighbour keeps of it,
holds of each estimate after any number of rounds. -/
theorem record_induction (h : p.Serves radius) {Q : Offset → Estimate → Prop}
    (sensed : ∀ o, radius.Sees o → Q o (t.sense (t.agent.displaced o)))
    (seed : ∀ o e d, radius.Sees o → o.norm ≤ Offset.seedDistance →
      o.neighbor d = Offset.origin → e.position.isSome → Q o e → Q o (e.seeded d))
    (offer : ∀ o n e via source, radius.Sees o → o.Adjacent n → e.position.isSome → Q o e →
      Q n via → Q o (e.improve source via))
    (rounds : Nat) : ∀ cell o, p.window.offset? cell = some o →
      Q o ((p.after t rounds).record cell) := by
  refine h.after_induction
    (P := fun es => ∀ cell o, p.window.offset? cell = some o → Q o (es.record cell)) ?_ ?_ ?_ rounds
  · intro es cell o d hsize hcell hseed hd hopen hes
    exact Estimates.forall_record_set hes hcell (hsize ▸ Window.offset?_lt_size hcell)
      (seed o _ d (h.sees hcell) hseed hd hopen (hes cell o hcell))
  · intro es cell source o n hsize hcell hsource hadjacent _ hopen hes
    exact Estimates.forall_record_set hes hcell (hsize ▸ Window.offset?_lt_size hcell)
      (offer o n _ _ source (h.sees hcell) hadjacent hopen (hes cell o hcell)
        (hes source n hsource))
  · intro cell o hcell
    rw [t.record_sensed hcell]
    exact sensed o (h.sees hcell)

end Serves

end Pathfinder

end GridRoute
