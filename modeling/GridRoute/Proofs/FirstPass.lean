import GridRoute.Proofs.Sighting
import Mathlib.Data.List.Induction

/-!
Passes in place. A pass touches the cells in their order and each of them once, so a cell reads the new
estimates of earlier cells and the old ones of later cells. The first pass reads earlier cells alone: an
estimate is what the step of its cell makes of the finished estimates of the sources.
-/

namespace GridRoute

open Sequencing

namespace Estimate

/-- The cheapest of the own route and those by way of the sources, the first of them on a tie. -/
def improveAll (e : Estimate) (es : Estimates) (sources : List Nat) : Estimate :=
  sources.foldl (fun e source => e.improve source (es.record source)) e

@[simp] theorem position_improveAll (e : Estimate) (es : Estimates) (sources : List Nat) :
    (e.improveAll es sources).position = e.position := by
  unfold improveAll
  induction sources generalizing e with
  | nil => rfl
  | cons source sources ih => rw [List.foldl_cons, ih, position_improve]

@[simp] theorem cost_improveAll (e : Estimate) (es : Estimates) (sources : List Nat) :
    (e.improveAll es sources).cost = e.cost := by
  unfold improveAll
  induction sources generalizing e with
  | nil => rfl
  | cons source sources ih => rw [List.foldl_cons, ih, cost_improve]

theorem length_improveAll_le_self (e : Estimate) (es : Estimates) (sources : List Nat) :
    (e.improveAll es sources).length ≤ e.length := by
  unfold improveAll
  induction sources generalizing e with
  | nil => exact Int.le_refl _
  | cons source sources ih =>
    rw [List.foldl_cons]
    refine Int.le_trans (ih _) ?_
    rw [length_improve]
    exact Int.min_le_left _ _

theorem length_improveAll_le (e : Estimate) (es : Estimates) {sources : List Nat} {source : Nat}
    (h : source ∈ sources) :
    (e.improveAll es sources).length ≤ Cost.add (es.record source).length e.cost := by
  obtain ⟨before, after, rfl⟩ := List.append_of_mem h
  unfold improveAll
  rw [List.foldl_append, List.foldl_cons]
  refine Int.le_trans (length_improveAll_le_self _ es after) ?_
  rw [length_improve]
  have hcost := cost_improveAll e es before
  unfold improveAll at hcost
  rw [hcost]
  exact Int.min_le_right _ _

theorem improveAll_eq (e : Estimate) (es : Estimates) (sources : List Nat) :
    e.improveAll es sources = e ∨ ∃ source ∈ sources,
      e.improveAll es sources = e.improve source (es.record source) ∧
        Cost.add (es.record source).length e.cost < e.length := by
  induction sources using List.reverseRecOn with
  | nil => exact .inl rfl
  | append_singleton sources source ih =>
    have hsnoc : e.improveAll es (sources ++ [source]) =
        (e.improveAll es sources).improve source (es.record source) := by
      unfold improveAll
      rw [List.foldl_append]
      rfl
    rw [hsnoc]
    by_cases hless : Cost.add (es.record source).length e.cost < (e.improveAll es sources).length
    · have hfirst := length_improveAll_le_self e es sources
      refine .inr ⟨source, by simp, ?_, by omega⟩
      rw [improve_of_lt _ _ _ (by rwa [cost_improveAll]), improve_of_lt _ _ _ (by omega)]
      simp only [cost_improveAll, position_improveAll]
    · rw [improve_of_le _ _ _ (by rw [cost_improveAll]; omega)]
      rcases ih with hkeep | ⟨earlier, hmem, heq, hlt⟩
      · exact .inl hkeep
      · exact .inr ⟨earlier, List.mem_append_left _ hmem, heq, hlt⟩

end Estimate

/-- What the step makes of a sensed cell, given the estimates of the others. -/
def InitialStep.result (es : Estimates) (sensed : Estimate) : InitialStep → Estimate
  | .seed _ towardOrigin =>
    if sensed.position.isNone then sensed else sensed.seeded towardOrigin
  | .relax r => if sensed.position.isNone then sensed else sensed.improveAll es r.sources

namespace Estimates

section InPlace

variable {α : Type} {g : Estimates → α → Estimates} {touched : α → Nat}
  (keep : ∀ es x {other}, other ≠ touched x → (g es x).record other = es.record other)

include keep

theorem record_foldl_of_ne (es : Estimates) {xs : List α} {other : Nat}
    (h : ∀ x ∈ xs, other ≠ touched x) : (xs.foldl g es).record other = es.record other := by
  induction xs generalizing es with
  | nil => rfl
  | cons x xs ih =>
    rw [List.foldl_cons, ih _ fun y hy => h y (List.mem_cons_of_mem x hy), keep es x (h x (by simp))]

/-- Where the pass comes to a cell, earlier cells are finished and the others as they were at first. -/
theorem exists_record_foldl (es : Estimates) {xs : List α}
    (sorted : xs.Pairwise fun x y => touched x < touched y) {x : α} (hx : x ∈ xs) :
    ∃ before : List α, (xs.foldl g es).record (touched x) =
        (g (before.foldl g es) x).record (touched x) ∧
      (∀ other, other < touched x →
        (before.foldl g es).record other = (xs.foldl g es).record other) ∧
      ∀ other, touched x ≤ other → (before.foldl g es).record other = es.record other := by
  obtain ⟨before, after, rfl⟩ := List.append_of_mem hx
  obtain ⟨-, hrest, hacross⟩ := List.pairwise_append.mp sorted
  have hbefore : ∀ y ∈ before, touched y < touched x := fun y hy => hacross y hy x (by simp)
  have hafter : ∀ y ∈ after, touched x < touched y := (List.pairwise_cons.mp hrest).1
  refine ⟨before, ?_, fun other hother => ?_, fun other hother => ?_⟩
  · rw [List.foldl_append, List.foldl_cons]
    exact record_foldl_of_ne keep _ fun y hy => Nat.ne_of_lt (hafter y hy)
  · rw [List.foldl_append]
    refine (record_foldl_of_ne keep _ fun y hy => ?_).symm
    rcases List.mem_cons.mp hy with rfl | hy
    · exact Nat.ne_of_lt hother
    · exact Nat.ne_of_lt (Nat.lt_trans hother (hafter y hy))
  · exact record_foldl_of_ne keep _ fun y hy => Nat.ne_of_gt (Nat.lt_of_lt_of_le (hbefore y hy) hother)

end InPlace

theorem record_offered_of_ne (cell : Nat) (es : Estimates) (source : Nat) {other : Nat}
    (h : other ≠ cell) : (offered cell es source).record other = es.record other :=
  record_set_of_ne _ h _

theorem record_relaxed_of_ne (es : Estimates) (r : Relaxation) {other : Nat} (h : other ≠ r.cell) :
    (es.relaxed r).record other = es.record other := by
  unfold relaxed
  split
  · rfl
  · exact record_foldl_of_ne (record_offered_of_ne r.cell) es fun _ _ => h

theorem record_relaxed_self {es : Estimates} {r : Relaxation} (hcell : r.cell < es.size)
    (hsources : r.cell ∉ r.sources) :
    (es.relaxed r).record r.cell =
      if (es.record r.cell).position.isNone then es.record r.cell
      else (es.record r.cell).improveAll es r.sources := by
  unfold relaxed
  split
  · rfl
  · unfold Estimate.improveAll
    -- The other cells keep the estimates they have at the start, which the offers therefore read.
    suffices h : ∀ (sources : List Nat) (next : Estimates), r.cell ∉ sources →
        r.cell < next.size → (∀ other, other ≠ r.cell → next.record other = es.record other) →
        (sources.foldl (offered r.cell) next).record r.cell =
          sources.foldl (fun e source => e.improve source (es.record source)) (next.record r.cell) from
      h r.sources es hsources hcell fun _ _ => rfl
    intro sources
    induction sources with
    | nil => exact fun _ _ _ _ => rfl
    | cons source sources ih =>
      intro next hnotMem hlt hkeep
      rw [List.mem_cons, not_or] at hnotMem
      rw [List.foldl_cons, List.foldl_cons, ih _ hnotMem.2 (by rwa [size_offered]) (by
          intro other hother
          rw [offered, record_set_of_ne _ hother, hkeep other hother]),
        offered, record_set_self hlt, hkeep source (Ne.symm hnotMem.1)]

theorem record_started_of_ne (es : Estimates) (step : InitialStep) {other : Nat}
    (h : other ≠ step.cell) : (es.started step).record other = es.record other := by
  cases step with
  | seed cell towardOrigin =>
    rw [started]
    split
    · rfl
    · exact record_set_of_ne _ h _
  | relax r => exact record_relaxed_of_ne es r h

theorem record_started_self {es : Estimates} {step : InitialStep} (hcell : step.cell < es.size)
    (hsources : step.cell ∉ step.sources) :
    (es.started step).record step.cell = step.result es (es.record step.cell) := by
  cases step with
  | seed cell towardOrigin =>
    rw [started, InitialStep.result, InitialStep.cell]
    split
    · rfl
    · exact record_set_self hcell _
  | relax r => exact record_relaxed_self hcell hsources

end Estimates

theorem InitialStep.result_seed {es : Estimates} {e : Estimate} (hopen : e.position.isSome)
    (cell : Nat) (d : Direction) : (seed cell d).result es e = e.seeded d :=
  if_neg (by simp [Option.isSome_iff_ne_none.mp hopen])

theorem InitialStep.result_relax {es : Estimates} {e : Estimate} (hopen : e.position.isSome)
    (r : Relaxation) : (relax r).result es e = e.improveAll es r.sources :=
  if_neg (by simp [Option.isSome_iff_ne_none.mp hopen])

theorem InitialStep.result_of_closed {es : Estimates} {e : Estimate} {step : InitialStep}
    (hclosed : e.position = none) : step.result es e = e := by
  cases step <;> simp [result, hclosed]

theorem InitialStep.result_congr {es next : Estimates} {sensed : Estimate} {step : InitialStep}
    (h : ∀ source ∈ step.sources, next.record source = es.record source) :
    step.result next sensed = step.result es sensed := by
  cases step with
  | seed cell towardOrigin => rfl
  | relax r =>
    rw [result, result]
    split
    · rfl
    · exact List.foldl_ext _ _ _ fun e source hsource => by rw [h source hsource]

namespace Schedule.Serves

variable {s : Schedule} {w : Window}

theorem cell_eq (h : s.Serves w) {cell : Nat} {step : InitialStep}
    (hstep : s.initialSteps[cell]? = some step) : step.cell = cell := by
  obtain ⟨o, -, starts⟩ := h.exists_offset_of_initialStep hstep
  cases step with
  | seed named towardOrigin => exact starts.1
  | relax r => exact starts.1

theorem source_lt (h : s.Serves w) {cell : Nat} {step : InitialStep}
    (hstep : s.initialSteps[cell]? = some step) {source : Nat} (hsource : source ∈ step.sources) :
    source < cell := by
  obtain ⟨o, hcell, starts⟩ := h.exists_offset_of_initialStep hstep
  cases step with
  | seed named towardOrigin => cases hsource
  | relax r =>
    obtain ⟨n, hn, hfound⟩ := starts.2.2.exists_offset hsource
    exact Window.lt_of_norm_lt hfound hcell (Offset.mem_closerNeighbors.mp hn).2

theorem initialStep_within (h : s.Serves w) {step : InitialStep} (hstep : step ∈ s.initialSteps) :
    step.Within w.size := by
  obtain ⟨cell, hget⟩ := List.mem_iff_getElem?.mp hstep
  obtain ⟨o, hcell, -⟩ := h.exists_offset_of_initialStep hget
  have hlt : step.cell < w.size := (h.cell_eq hget).symm ▸ Window.offset?_lt_size hcell
  cases step with
  | seed named towardOrigin => exact hlt
  | relax r =>
    exact ⟨hlt, fun source hsource =>
      Nat.lt_trans (h.source_lt hget hsource) (Window.offset?_lt_size hcell)⟩

theorem relaxation_within (h : s.Serves w) {r : Relaxation} (hr : r ∈ s.extraRound) :
    r.Within w.size := by
  obtain ⟨o, hcell, -, -, hnumbers⟩ := h.refines_of_mem r hr
  refine ⟨Window.offset?_lt_size hcell, fun source hsource => ?_⟩
  obtain ⟨n, -, hn⟩ := hnumbers.exists_offset hsource
  exact Window.offset?_lt_size hn

theorem initialSteps_sorted (h : s.Serves w) :
    s.initialSteps.Pairwise fun a b => a.cell < b.cell := by
  refine List.pairwise_iff_getElem.mpr fun i j hi hj hij => ?_
  rw [h.cell_eq (List.getElem?_eq_getElem hi), h.cell_eq (List.getElem?_eq_getElem hj)]
  exact hij

theorem cell_induction (h : s.Serves w) {P : Nat → Prop}
    (next : ∀ cell o step, w.offset? cell = some o → s.initialSteps[cell]? = some step →
      (∀ source ∈ step.sources, P source) → P cell) {cell : Nat} (hcell : cell < w.size) : P cell := by
  induction cell using Nat.strongRecOn with
  | ind cell ih =>
    obtain ⟨o, ho⟩ := Window.exists_offset? hcell
    obtain ⟨step, hstep, -⟩ := h.initialSteps_starts cell o ho
    refine next cell o step ho hstep fun source hsource => ?_
    have hlt := h.source_lt hstep hsource
    exact ih source hlt (Nat.lt_trans hlt hcell)

theorem record_start (h : s.Serves w) {es : Estimates} (hsize : es.size = w.size) {cell : Nat}
    {step : InitialStep} (hstep : s.initialSteps[cell]? = some step) :
    (s.initialSteps.foldl Estimates.started es).record cell =
      step.result (s.initialSteps.foldl Estimates.started es) (es.record cell) := by
  obtain rfl := h.cell_eq hstep
  have hlt : step.cell < w.size := by
    obtain ⟨o, hcell, -⟩ := h.exists_offset_of_initialStep hstep
    exact Window.offset?_lt_size hcell
  obtain ⟨before, hself, hearlier, hlater⟩ := Estimates.exists_record_foldl
    Estimates.record_started_of_ne es h.initialSteps_sorted (List.mem_of_getElem? hstep)
  rw [hself, Estimates.record_started_self, hlater step.cell (Nat.le_refl _)]
  · refine (InitialStep.result_congr fun source hsource => ?_).symm
    exact (hearlier source (h.source_lt hstep hsource)).symm
  · rwa [Estimates.size_foldl_started, hsize]
  · exact fun hself => Nat.lt_irrefl _ (h.source_lt hstep hself)

/-- In a round a cell that can be entered is improved by the new estimates of the sources before it and by
the old ones of those behind it. -/
theorem record_swept (h : s.Serves w) {es : Estimates} (hsize : es.size = w.size) {r : Relaxation}
    (hr : r ∈ s.extraRound) (hopen : (es.record r.cell).position.isSome) :
    ∃ middle, (es.swept s.extraRound).record r.cell =
        (es.record r.cell).improveAll middle r.sources ∧
      (∀ other, other < r.cell → middle.record other = (es.swept s.extraRound).record other) ∧
      ∀ other, r.cell ≤ other → middle.record other = es.record other := by
  obtain ⟨o, hcell, -, -, hnumbers⟩ := h.refines_of_mem r hr
  have hsources : r.cell ∉ r.sources := by
    intro hself
    obtain ⟨n, hn, hnamed⟩ := hnumbers.exists_offset hself
    exact (Window.mem_outerNeighbors.mp hn).1.1 (Option.some.inj (hcell.symm.trans hnamed))
  obtain ⟨before, hself, hearlier, hlater⟩ := Estimates.exists_record_foldl
    Estimates.record_relaxed_of_ne es h.extraRound_sorted hr
  refine ⟨before.foldl Estimates.relaxed es, ?_, hearlier, hlater⟩
  rw [Estimates.swept, hself, Estimates.record_relaxed_self, hlater r.cell (Nat.le_refl _), if_neg]
  · simp [Option.isSome_iff_ne_none.mp hopen]
  · exact ((Estimates.size_swept before es).trans hsize).symm ▸ Window.offset?_lt_size hcell
  · exact hsources

end Schedule.Serves

end GridRoute
