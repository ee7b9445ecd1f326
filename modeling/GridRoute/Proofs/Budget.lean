import GridRoute.Proofs.Ledger
import GridRoute.Proofs.WiderWindow
import Mathlib.Algebra.Group.Action.Defs
import Mathlib.Algebra.Order.BigOperators.Group.List
import Mathlib.Algebra.Order.Ring.Nat

/-!
The budget of a search. The size of a schedule says how many routes a run compares at most: each relaxation compares
those of all its sources or, if its cell cannot be entered, none. What can be entered is sensed once and never changes,
so the count is the same in every round.
-/

namespace GridRoute

open Sequencing

/-- The product and the sum stop at the end of the range exactly where the number itself lies beyond it. -/
theorem ScheduleSize.checksFor_eq (size : ScheduleSize) (rounds : Nat) :
    size.checksFor rounds = min (2 ^ 64 - 1) (size.initialChecks + rounds * size.roundChecks) := by
  rw [checksFor, Bounded.countAdd, Bounded.countMul, Bounded.countLimit, Nat.mul_comm rounds]
  omega

def Entry.isOffer : Entry → Bool
  | .sum .offer _ _ => true
  | .sum .sense _ _ | .sum .seed _ _ | .length _ => false

def comparisons (ledger : List Entry) : Nat := ledger.countP Entry.isOffer

/-- Wherever it starts, the computation has the result after so many comparisons. -/
def Compares {α : Type} (x : Booked α) (a : α) (count : Nat) : Prop :=
  ∀ ledger, ∃ entries, x.run ledger = .ok (a, ledger ++ entries) ∧ comparisons entries = count

namespace Compares

variable {α β σ : Type}

theorem pure (a : α) : Compares (pure a) a 0 := fun ledger => by
  refine ⟨[], ?_, rfl⟩
  rw [List.append_nil]
  rfl

theorem lift {y : Except Fault α} {a : α} (h : y = .ok a) : Compares (liftM y) a 0 := fun ledger => by
  refine ⟨[], ?_, rfl⟩
  rw [h, List.append_nil]
  rfl

theorem bind {x : Booked α} {f : α → Booked β} {a : α} {b : β} {first second : Nat} (h : Compares x a first)
    (hf : Compares (f a) b second) : Compares (x >>= f) b (first + second) := by
  intro ledger
  obtain ⟨front, hfront, rfl⟩ := h ledger
  obtain ⟨rest, hrest, rfl⟩ := hf (ledger ++ front)
  refine ⟨front ++ rest, ?_, List.countP_append⟩
  rw [StateT.run_bind, hfront, ← List.append_assoc]
  exact hrest

theorem andThen {x : Booked α} {f : α → Booked β} {a : α} {b : β} {count : Nat} (h : Compares x a 0)
    (hf : Compares (f a) b count) : Compares (x >>= f) b count :=
  Nat.zero_add count ▸ h.bind hf

theorem finish {x : Booked α} {f : α → Booked β} {a : α} {b : β} {count : Nat} (h : Compares x a count)
    (hf : Compares (f a) b 0) : Compares (x >>= f) b count :=
  h.bind hf

/-- Where what an item compares does not depend on what was done before, the items add up. -/
theorem foldlM {I : σ → Prop} {f : σ → α → Booked σ} {g : σ → α → σ} {count : α → Nat} {xs : List α}
    (h : ∀ x ∈ xs, ∀ s, I s → Compares (f s x) (g s x) (count x) ∧ I (g s x)) {s : σ} (hs : I s) :
    Compares (xs.foldlM f s) (xs.foldl g s) (xs.map count).sum := by
  induction xs generalizing s with
  | nil => exact .pure s
  | cons x xs ih =>
    obtain ⟨hx, hxs⟩ := List.forall_mem_cons.mp h
    obtain ⟨hfirst, hnext⟩ := hx s hs
    rw [List.foldlM_cons, List.foldl_cons, List.map_cons, List.sum_cons]
    exact hfirst.bind (ih hxs hnext)

theorem mapM {f : α → Booked β} {g : α → β} {xs : List α} (h : ∀ x ∈ xs, Compares (f x) (g x) 0) :
    Compares (xs.mapM f) (xs.map g) 0 := by
  induction xs with
  | nil => exact .pure []
  | cons x xs ih =>
    obtain ⟨hx, hxs⟩ := List.forall_mem_cons.mp h
    rw [List.mapM_cons]
    exact hx.andThen ((ih hxs).andThen (.pure _))

theorem book (entry : Entry) : Compares (Booked.book entry) () (comparisons [entry]) :=
  fun _ => ⟨[entry], rfl, rfl⟩

theorem keep (e : Estimate) : Compares (Booked.keep e) e 0 :=
  (book (.length e.length)).andThen (.pure e)

theorem add {purpose : Purpose} (h : purpose ≠ .offer) (left right : Int) :
    Compares (Booked.add Cost.add purpose left right) (Cost.add left right) 0 := by
  have hsum : comparisons [.sum purpose left right] = 0 := by
    cases purpose <;> first | rfl | exact absurd rfl h
  exact (hsum ▸ book (.sum purpose left right)).andThen (.pure _)

theorem sense (t : Terrain) (p : Position) : Compares (Booked.sense Cost.add t p) (t.sense p) 0 := by
  unfold Booked.sense Terrain.sense
  split
  · exact (add (by decide) _ _).andThen (keep _)
  · exact keep _

theorem seeded (e : Estimate) (d : Direction) : Compares (Booked.seeded Cost.add e d) (e.seeded d) 0 :=
  (add (by decide) _ _).andThen (keep _)

theorem improve (e : Estimate) (source : Nat) (via : Estimate) :
    Compares (Booked.improve Cost.add e source via) (e.improve source via) 1 := by
  have hsum : Compares (Booked.add Cost.add .offer via.length e.cost) (Cost.add via.length e.cost) 1 :=
    (book (.sum .offer via.length e.cost)).finish (.pure _)
  refine hsum.finish ?_
  unfold Estimate.improve
  dsimp only
  split
  · exact keep _
  · exact .pure e

end Compares

structure Estimates.SamePlaces (es next : Estimates) : Prop where
  size_eq : next.size = es.size
  position_eq : ∀ cell, (next.record cell).position = (es.record cell).position

namespace Estimates

variable {es next last : Estimates}

theorem SamePlaces.refl (es : Estimates) : es.SamePlaces es := ⟨rfl, fun _ => rfl⟩

theorem SamePlaces.trans (h : es.SamePlaces next) (h' : next.SamePlaces last) : es.SamePlaces last :=
  ⟨h'.size_eq.trans h.size_eq, fun cell => (h'.position_eq cell).trans (h.position_eq cell)⟩

theorem samePlaces_set {cell : Nat} {e : Estimate} (h : e.position = (es.record cell).position) :
    es.SamePlaces (es.set cell e) := by
  refine ⟨size_set .., fun other => ?_⟩
  rw [record_set]
  split
  · rename_i hself
    rw [h, hself.1]
  · rfl

theorem samePlaces_foldl {α : Type} {g : Estimates → α → Estimates}
    (h : ∀ (es : Estimates) (x : α), es.SamePlaces (g es x)) (xs : List α) (es : Estimates) :
    es.SamePlaces (xs.foldl g es) :=
  List.foldlRecOn xs g (.refl es) fun _ hnext x _ => hnext.trans (h _ x)

theorem samePlaces_offered (cell : Nat) (es : Estimates) (source : Nat) : es.SamePlaces (offered cell es source) :=
  samePlaces_set (Estimate.position_improve ..)

theorem samePlaces_relaxed (es : Estimates) (r : Relaxation) : es.SamePlaces (es.relaxed r) := by
  unfold relaxed
  split
  · exact .refl es
  · exact samePlaces_foldl (samePlaces_offered r.cell) r.sources es

theorem samePlaces_started (es : Estimates) (step : InitialStep) : es.SamePlaces (es.started step) := by
  cases step with
  | seed cell d =>
    rw [started]
    split
    · exact .refl es
    · exact samePlaces_set rfl
  | relax r => exact samePlaces_relaxed es r

theorem samePlaces_swept (rs : List Relaxation) (es : Estimates) : es.SamePlaces (es.swept rs) :=
  samePlaces_foldl samePlaces_relaxed rs es

end Estimates

def Relaxation.compared (es : Estimates) (r : Relaxation) : Nat :=
  if (es.record r.cell).position.isSome then r.sources.length else 0

def InitialStep.compared (es : Estimates) : InitialStep → Nat
  | .seed _ _ => 0
  | .relax r => r.compared es

theorem Estimates.SamePlaces.compared_eq {es next : Estimates} (h : es.SamePlaces next) (r : Relaxation) :
    r.compared next = r.compared es := by
  rw [Relaxation.compared, h.position_eq, Relaxation.compared]

theorem Estimates.SamePlaces.compared_eq_of_step {es next : Estimates} (h : es.SamePlaces next)
    (step : InitialStep) : step.compared next = step.compared es := by
  cases step with
  | seed cell d => rfl
  | relax r => exact h.compared_eq r

namespace Compares

variable {es next : Estimates}

theorem offer {cell source : Nat} (hcell : cell < es.size) (hsource : source < es.size) :
    Compares (Booked.offer Cost.add cell es source) (Estimates.offered cell es source) 1 :=
  (lift (Estimates.get_eq_ok hsource)).andThen ((lift (Estimates.get_eq_ok hcell)).andThen
    ((improve _ source _).finish (.pure _)))

theorem relax {r : Relaxation} (h : r.Within es.size) :
    Compares (Booked.relax Cost.add es r) (es.relaxed r) (r.compared es) := by
  have hoffers : Compares (r.sources.foldlM (Booked.offer Cost.add r.cell) es)
      (r.sources.foldl (Estimates.offered r.cell) es) (r.sources.map fun _ => 1).sum := by
    refine .foldlM (I := fun next => next.size = es.size) (fun source hsource next hnext => ?_) rfl
    exact ⟨offer (hnext ▸ h.1) (hnext ▸ h.2 source hsource), by rw [Estimates.size_offered, hnext]⟩
  rw [List.map_const', List.sum_replicate_nat, Nat.mul_one] at hoffers
  refine (lift (Estimates.get_eq_ok h.1)).andThen ?_
  unfold Estimates.relaxed Relaxation.compared
  cases hplace : (es.record r.cell).position with
  | none => exact .pure es
  | some place => exact hoffers

theorem initialStep {step : InitialStep} (h : step.Within es.size) :
    Compares (Booked.initialStep Cost.add es step) (es.started step) (step.compared es) := by
  cases step with
  | seed cell d =>
    refine (lift (Estimates.get_eq_ok h)).andThen ?_
    rw [Estimates.started]
    split
    · exact .pure es
    · exact (seeded _ d).andThen (.pure _)
  | relax r => exact relax h

theorem sweep {rs : List Relaxation} (h : ∀ r ∈ rs, r.Within es.size) (same : es.SamePlaces next) :
    Compares (rs.foldlM (Booked.relax Cost.add) next) (next.swept rs) (rs.map (Relaxation.compared es)).sum := by
  refine .foldlM (I := es.SamePlaces) (fun r hr last hlast => ⟨?_, hlast.trans (last.samePlaces_relaxed r)⟩) same
  rw [← hlast.compared_eq]
  exact relax (hlast.size_eq ▸ h r hr)

theorem rounds {rs : List Relaxation} (h : ∀ r ∈ rs, r.Within es.size) (same : es.SamePlaces next) (n : Nat) :
    Compares (Booked.rounds Cost.add rs n next) ((Estimates.swept rs)^[n] next)
      (n * (rs.map (Relaxation.compared es)).sum) := by
  induction n generalizing next with
  | zero =>
    rw [Nat.zero_mul]
    exact .pure next
  | succ n ih =>
    rw [Function.iterate_succ_apply, Nat.succ_mul, Nat.add_comm (n * _)]
    exact (sweep h same).bind (ih (same.trans (next.samePlaces_swept rs)))

theorem initialSteps {steps : List InitialStep} (h : ∀ step ∈ steps, step.Within es.size) :
    Compares (steps.foldlM (Booked.initialStep Cost.add) es) (steps.foldl Estimates.started es)
      (steps.map (InitialStep.compared es)).sum := by
  refine .foldlM (I := es.SamePlaces)
    (fun step hstep last hlast => ⟨?_, hlast.trans (last.samePlaces_started step)⟩) (.refl es)
  rw [← hlast.compared_eq_of_step]
  exact initialStep (hlast.size_eq ▸ h step hstep)

end Compares

namespace Pathfinder

def compared (p : Pathfinder) (t : Terrain) (rounds : Nat) : Nat :=
  (p.schedule.initialSteps.map (InitialStep.compared (t.sensed p.window))).sum +
    rounds * (p.schedule.extraRound.map (Relaxation.compared (t.sensed p.window))).sum

namespace Serves

variable {p : Pathfinder} {radius : Radius} {t : Terrain}

theorem compares_firstPass (h : p.Serves radius) (inRange : radius.InRange t.agent) :
    Compares (Booked.firstPass Cost.add p t) (p.start t)
      (p.schedule.initialSteps.map (InitialStep.compared (t.sensed p.window))).sum := by
  have hwithin : ∀ step ∈ p.schedule.initialSteps, step.Within (t.sensed p.window).size := by
    intro step hstep
    rw [t.size_sensed]
    exact h.schedule.initialStep_within hstep
  refine (Compares.lift (h.positions_eq_ok inRange)).andThen ?_
  refine (Compares.mapM (g := t.sense) fun q _ => .sense t q).andThen ?_
  rw [← Array.toList_map, Array.toArray_toList, t.map_sense]
  exact .initialSteps hwithin

theorem compares_estimates (h : p.Serves radius) (inRange : radius.InRange t.agent) (rounds : Nat) :
    Compares (Booked.estimates Cost.add p t rounds) (p.after t rounds) (p.compared t rounds) := by
  have hwithin : ∀ r ∈ p.schedule.extraRound, r.Within (t.sensed p.window).size := by
    intro r hr
    rw [t.size_sensed]
    exact h.schedule.relaxation_within hr
  have same : (t.sensed p.window).SamePlaces (p.start t) :=
    Estimates.samePlaces_foldl Estimates.samePlaces_started _ _
  exact (h.compares_firstPass inRange).bind (.rounds hwithin same rounds)

end Serves

end Pathfinder

theorem Terrain.isSome_position_sense {t : Terrain} {o : Offset} :
    (t.sense (t.agent.displaced o)).position.isSome ↔ t.Enters o := by
  by_cases enters : t.Enters o
  · simp [Terrain.sense_eq enters, enters]
  · simp [Estimate.sense_of_not_enters enters, enters, Estimate.closed]

theorem sum_map_eq_iff_of_le {α : Type} {f g : α → Nat} {xs : List α} (h : ∀ x ∈ xs, f x ≤ g x) :
    (xs.map f).sum = (xs.map g).sum ↔ ∀ x ∈ xs, f x = g x := by
  induction xs with
  | nil => simp
  | cons x xs ih =>
    obtain ⟨hx, hxs⟩ := List.forall_mem_cons.mp h
    have hsum := List.sum_le_sum hxs
    rw [List.map_cons, List.map_cons, List.sum_cons, List.sum_cons, List.forall_mem_cons, ← ih hxs]
    omega

section Sizes

variable {es : Estimates} {r : Relaxation} {step : InitialStep}

theorem Relaxation.compared_le : r.compared es ≤ r.sources.length := by
  unfold compared
  split
  · exact Nat.le_refl _
  · exact Nat.zero_le _

theorem Relaxation.compared_of_isSome (h : (es.record r.cell).position.isSome) :
    r.compared es = r.sources.length :=
  if_pos h

theorem Relaxation.compared_eq_iff (h : r.sources ≠ []) :
    r.compared es = r.sources.length ↔ (es.record r.cell).position.isSome := by
  have hpositive := List.length_pos_iff.mpr h
  unfold compared
  split
  · simp [*]
  · simp [*]
    omega

theorem InitialStep.compared_le : step.compared es ≤ step.sources.length := by
  cases step with
  | seed cell d => exact Nat.le_refl 0
  | relax r => exact r.compared_le

end Sizes

namespace Window

variable {w : Window}

theorem Numbers.length_le {offsets : List Offset} {cells : List Nat} (h : w.Numbers offsets cells) {o : Offset}
    (hsublist : offsets.Sublist o.neighborhood) : cells.length ≤ 8 := by
  rw [← h.length_eq]
  exact hsublist.length_le

theorem Numbers.ne_nil_of_far {o : Offset} {cells : List Nat} (h : w.Numbers o.closerNeighbors cells)
    (hfar : Offset.seedDistance < o.norm) : cells ≠ [] := by
  obtain ⟨n, hn, hcloser, -⟩ := Offset.exists_closer_neighbor hfar
  have hne : o.closerNeighbors ≠ [] := List.ne_nil_of_mem (List.mem_filter.mpr ⟨hn, decide_eq_true hcloser⟩)
  exact List.isEmpty_eq_false_iff.mp (h.isEmpty_eq_false hne)

theorem IsDisc.size_le (h : w.IsDisc) (hradius : w.radius ≤ 4096) : w.size ≤ 129 * 129 := by
  have hsubset : w.offsets.toList ⊆ Offset.square 64 := by
    intro o ho
    have hin := (h.mem_iff o).mp (Array.mem_toList_iff.mp ho)
    exact Offset.mem_square.mpr (Offset.natAbs_le_of_norm_le (Nat.le_trans hin.2 hradius))
  have hlength := (List.subperm_of_subset w.nodup_offsets hsubset).length_le
  have hsquare : (Offset.square 64).length = 129 * 129 := by
    simp [Offset.square]
  rwa [hsquare] at hlength

end Window

theorem Schedule.initialChecks_eq (s : Schedule) :
    s.measure.initialChecks = (s.initialSteps.map fun step => step.sources.length).sum :=
  List.length_flatMap

theorem Schedule.roundChecks_eq (s : Schedule) :
    s.measure.roundChecks = (s.extraRound.map fun r => r.sources.length).sum :=
  List.length_flatMap

namespace Schedule.Serves

variable {s : Schedule} {w : Window}

theorem length_extraRound_le (h : s.Serves w) : s.extraRound.length ≤ w.size := by
  have hnodup : (s.extraRound.map Relaxation.cell).Nodup :=
    List.pairwise_map.mpr (h.extraRound_sorted.imp Nat.ne_of_lt)
  have hsubset : s.extraRound.map Relaxation.cell ⊆ List.range w.size := by
    intro cell hcell
    obtain ⟨r, hr, rfl⟩ := List.mem_map.mp hcell
    exact List.mem_range.mpr (h.relaxation_within hr).1
  simpa using (List.subperm_of_subset hnodup hsubset).length_le

theorem length_sources_le_of_step (h : s.Serves w) {step : InitialStep} (hstep : step ∈ s.initialSteps) :
    step.sources.length ≤ 8 := by
  obtain ⟨cell, hget⟩ := List.mem_iff_getElem?.mp hstep
  obtain ⟨o, -, starts⟩ := h.exists_offset_of_initialStep hget
  cases step with
  | seed named d => exact Nat.zero_le 8
  | relax r => exact starts.2.2.length_le (List.filter_sublist)

theorem length_sources_le (h : s.Serves w) {r : Relaxation} (hr : r ∈ s.extraRound) : r.sources.length ≤ 8 := by
  obtain ⟨o, -, refines⟩ := h.refines_of_mem r hr
  exact refines.2.2.length_le (List.filter_sublist)

/-- A schedule offers each cell at most the routes of eight neighbours. -/
theorem measure_le (h : s.Serves w) :
    s.measure.initialChecks ≤ 8 * w.size ∧ s.measure.roundChecks ≤ 8 * w.size := by
  constructor
  · have hsum := List.sum_le_card_nsmul (s.initialSteps.map fun step => step.sources.length) 8
      (List.forall_mem_map.mpr fun step hstep => h.length_sources_le_of_step hstep)
    rw [List.length_map, h.initialSteps_length, smul_eq_mul, Nat.mul_comm] at hsum
    rwa [initialChecks_eq]
  · have hsum := List.sum_le_card_nsmul (s.extraRound.map fun r => r.sources.length) 8
      (List.forall_mem_map.mpr fun r hr => h.length_sources_le hr)
    have hlength := h.length_extraRound_le
    rw [List.length_map, smul_eq_mul] at hsum
    rw [roundChecks_eq]
    omega

end Schedule.Serves

namespace Pathfinder

variable {p : Pathfinder} {radius : Radius} {t : Terrain}

theorem compared_le (p : Pathfinder) (t : Terrain) (rounds : Nat) : p.compared t rounds ≤
    p.schedule.measure.initialChecks + rounds * p.schedule.measure.roundChecks := by
  rw [Schedule.initialChecks_eq, Schedule.roundChecks_eq]
  exact Nat.add_le_add (List.sum_le_sum fun step _ => step.compared_le)
    (Nat.mul_le_mul_left rounds (List.sum_le_sum fun r _ => r.compared_le))

namespace Serves

theorem checksFor_eq (h : p.Serves radius) {rounds : Nat} (hrounds : rounds < 2 ^ 32) :
    p.schedule.measure.checksFor rounds =
      p.schedule.measure.initialChecks + rounds * p.schedule.measure.roundChecks := by
  obtain ⟨hinitial, hround⟩ := h.schedule.measure_le
  have hsize := h.disc.size_le (h.window_radius ▸ radius.le_maximum)
  have hproduct := Nat.mul_le_mul (Nat.le_of_lt hrounds) (Nat.le_trans hround (Nat.mul_le_mul_left 8 hsize))
  rw [ScheduleSize.checksFor_eq]
  omega

theorem compared_eq_iff (h : p.Serves radius) (rounds : Nat) :
    p.compared t rounds = p.schedule.measure.initialChecks + rounds * p.schedule.measure.roundChecks ↔
      ∀ o, radius.Sees o → Offset.seedDistance < o.norm → t.Enters o := by
  rw [compared, Schedule.initialChecks_eq, Schedule.roundChecks_eq]
  constructor
  · intro heq o sees hfar
    have hround : ∀ r ∈ p.schedule.extraRound, r.compared (t.sensed p.window) ≤ r.sources.length :=
      fun r _ => r.compared_le
    have hfirst : ∀ step ∈ p.schedule.initialSteps, step.compared (t.sensed p.window) ≤ step.sources.length :=
      fun step _ => step.compared_le
    have hrounds := Nat.mul_le_mul_left rounds (List.sum_le_sum hround)
    have hsum := List.sum_le_sum hfirst
    -- Neither sum exceeds its bound, so the first one attains it, term by term.
    have hinitial := (sum_map_eq_iff_of_le hfirst).mp (by omega)
    have hcell := h.offset?_cellAt sees
    obtain ⟨step, hget, starts⟩ := h.schedule.initialSteps_starts _ o hcell
    cases step with
    | seed named d => exact absurd starts.2.1 (Nat.not_le.mpr hfar)
    | relax r =>
      obtain ⟨hnamed, -, hnumbers⟩ := starts
      have hopen := (Relaxation.compared_eq_iff (hnumbers.ne_nil_of_far hfar)).mp
        (hinitial (.relax r) (List.mem_of_getElem? hget))
      rwa [hnamed, t.record_sensed hcell, Terrain.isSome_position_sense] at hopen
  · intro enters
    have hopen {r : Relaxation} {o : Offset} (hcell : p.window.offset? r.cell = some o)
        (hfar : Offset.seedDistance < o.norm) : r.compared (t.sensed p.window) = r.sources.length := by
      refine Relaxation.compared_of_isSome ?_
      rw [t.record_sensed hcell, Terrain.isSome_position_sense]
      exact enters o (h.sees hcell) hfar
    have hinitial : ∀ step ∈ p.schedule.initialSteps, step.compared (t.sensed p.window) = step.sources.length := by
      intro step hstep
      obtain ⟨cell, hget⟩ := List.mem_iff_getElem?.mp hstep
      obtain ⟨o, hcell, starts⟩ := h.schedule.exists_offset_of_initialStep hget
      cases step with
      | seed named d => rfl
      | relax r =>
        obtain ⟨rfl, hfar, -⟩ := starts
        exact hopen hcell hfar
    have hround : ∀ r ∈ p.schedule.extraRound, r.compared (t.sensed p.window) = r.sources.length := by
      intro r hr
      obtain ⟨o, hcell, -, hfar, -⟩ := h.schedule.refines_of_mem r hr
      exact hopen hcell hfar
    rw [List.map_congr_left hinitial, List.map_congr_left hround]

end Serves

/-- The number of routes that a schedule is said to compare is the exact one, cut off at the end of its range. A search
compares no more than that, and as many only if everything in sight beyond the seeds can be entered. -/
theorem comparisons_within_budget :
    (∀ (size : ScheduleSize) (rounds : Nat),
      size.checksFor rounds = min (2 ^ 64 - 1) (size.initialChecks + rounds * size.roundChecks)) ∧
    ∀ (radius : Radius) (t : Terrain), radius.InRange t.agent → ∀ rounds < 2 ^ 32,
      ∃ p es ledger, compile radius.value = .ok p ∧ p.estimates t rounds = .ok es ∧
        (Booked.estimates Cost.add p t rounds).run [] = .ok (es, ledger) ∧
        comparisons ledger ≤ p.schedule.measure.checksFor rounds ∧
        (comparisons ledger = p.schedule.measure.checksFor rounds ↔
          ∀ o, radius.Sees o → Offset.seedDistance < o.norm → t.Enters o) := by
  refine ⟨ScheduleSize.checksFor_eq, fun radius t inRange rounds hrounds => ?_⟩
  obtain ⟨p, hcompile, h⟩ := exists_compile_eq_ok radius
  obtain ⟨ledger, hrun, hcount⟩ := h.compares_estimates inRange rounds []
  refine ⟨p, p.after t rounds, ledger, hcompile, h.estimates_eq_ok inRange rounds, hrun, ?_, ?_⟩
  · rw [hcount, h.checksFor_eq hrounds]
    exact p.compared_le t rounds
  · rw [hcount, h.checksFor_eq hrounds]
    exact h.compared_eq_iff rounds

theorem comparisons_within_budget_detour :
    Radius.nine.InRange Terrain.detour.agent ∧ 1 < 2 ^ 32 ∧
    ∃ p es ledger, compile 9 = .ok p ∧ p.estimates Terrain.detour 1 = .ok es ∧
      (Booked.estimates Cost.add p Terrain.detour 1).run [] = .ok (es, ledger) ∧
      comparisons ledger < p.schedule.measure.checksFor 1 := by
  have inRange := (Terrain.detour_regular .nine).inRange
  obtain ⟨p, es, ledger, hcompile, hes, hrun, hle, hiff⟩ :=
    comparisons_within_budget.2 .nine Terrain.detour inRange 1 (by decide)
  refine ⟨inRange, by decide, p, es, ledger, hcompile, hes, hrun, Nat.lt_of_le_of_ne hle fun heq => ?_⟩
  exact absurd (hiff.mp heq ⟨0, 2⟩ (by decide) (by decide)) (by decide)

end Pathfinder

end GridRoute
