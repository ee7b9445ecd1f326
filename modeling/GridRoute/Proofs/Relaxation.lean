import GridRoute.Estimate
import GridRoute.Proofs.Sequencing
import Mathlib.Logic.Function.Iterate

/-!
Relaxation without faults. When a schedule names cells that are there, its steps are plain functions of the
estimates. They keep places and costs and never lengthen a route, and a round that shortens none changes
nothing at all.
-/

namespace GridRoute

open Sequencing

theorem Cost.add_le_add_right {a b : Int} (h : a ≤ b) (c : Int) : Cost.add a c ≤ Cost.add b c := by
  unfold Cost.add Bounded.saturatingAdd
  omega

theorem Cost.add_of_fits {a b : Int} (h : Bounded.Fits (a + b)) : Cost.add a b = a + b :=
  Bounded.saturatingAdd_of_fits h

namespace Estimate

variable (e : Estimate) (source : Nat) (via : Estimate)

@[simp] theorem position_improve : (e.improve source via).position = e.position := by
  unfold improve
  dsimp only
  split <;> rfl

@[simp] theorem cost_improve : (e.improve source via).cost = e.cost := by
  unfold improve
  dsimp only
  split <;> rfl

theorem length_improve :
    (e.improve source via).length = min e.length (Cost.add via.length e.cost) := by
  unfold improve
  dsimp only
  split
  · dsimp only
    omega
  · omega

theorem improve_of_lt (h : Cost.add via.length e.cost < e.length) :
    e.improve source via =
      { e with
        length := Cost.add via.length e.cost, best := via.best,
        predecessor := some (.cell source) } :=
  if_pos h

theorem improve_of_le (h : e.length ≤ Cost.add via.length e.cost) : e.improve source via = e :=
  if_neg (Int.not_lt.mpr h)

end Estimate

def Relaxation.Within (r : Relaxation) (size : Nat) : Prop :=
  r.cell < size ∧ ∀ source ∈ r.sources, source < size

def InitialStep.Within (size : Nat) : InitialStep → Prop
  | .seed cell _ => cell < size
  | .relax r => r.Within size

namespace Estimates

/-- The estimate of a cell; one that is not there is closed. -/
def record (es : Estimates) (cell : Nat) : Estimate := es.cells[cell]?.getD Estimate.closed

@[simp] theorem size_set (es : Estimates) (cell : Nat) (e : Estimate) :
    (es.set cell e).size = es.size := by
  simp [set, size]

theorem record_set (es : Estimates) (cell other : Nat) (e : Estimate) :
    (es.set cell e).record other =
      if other = cell ∧ other < es.size then e else es.record other := by
  unfold record set size
  rw [Array.getElem?_setIfInBounds]
  by_cases heq : cell = other
  · subst heq
    by_cases hlt : cell < es.cells.size
    · simp [hlt]
    · simp [hlt]
  · simp [heq, Ne.symm heq]

theorem record_set_self {es : Estimates} {cell : Nat} (h : cell < es.size) (e : Estimate) :
    (es.set cell e).record cell = e := by
  rw [record_set, if_pos ⟨rfl, h⟩]

theorem record_set_of_ne (es : Estimates) {cell other : Nat} (h : other ≠ cell) (e : Estimate) :
    (es.set cell e).record other = es.record other := by
  rw [record_set, if_neg fun hand => h hand.1]

theorem best_eq (es : Estimates) (cell : Nat) : es.best cell = (es.record cell).best := by
  unfold best record
  cases es.cells[cell]? with
  | none => rfl
  | some e => rfl

theorem set_record (es : Estimates) (cell : Nat) : es.set cell (es.record cell) = es := by
  unfold set record
  congr 1
  apply Array.ext_getElem?
  intro other
  rw [Array.getElem?_setIfInBounds]
  by_cases heq : cell = other
  · subst heq
    by_cases hlt : cell < es.cells.size
    · simp [hlt]
    · simp [hlt]
  · simp [heq]

theorem get_eq_ok {es : Estimates} {cell : Nat} (h : cell < es.size) :
    es.get cell = .ok (es.record cell) := by
  unfold get record
  rw [Array.getElem?_eq_getElem h]
  rfl

theorem get_eq_ok_iff {es : Estimates} {cell : Nat} {e : Estimate} :
    es.get cell = .ok e ↔ cell < es.size ∧ es.record cell = e := by
  by_cases h : cell < es.size
  · rw [get_eq_ok h, Except.ok.injEq]
    exact ⟨fun he => ⟨h, he⟩, And.right⟩
  · have hget : es.cells[cell]? = none := Array.getElem?_eq_none (Nat.le_of_not_lt h)
    simp [get, hget, h]

theorem getElem?_eq_some_record {es : Estimates} {cell : Nat} (h : cell < es.size) :
    es.cells[cell]? = some (es.record cell) := by
  unfold record
  rw [Array.getElem?_eq_getElem h, Option.getD_some]

def offered (cell : Nat) (es : Estimates) (source : Nat) : Estimates :=
  es.set cell ((es.record cell).improve source (es.record source))

def relaxed (es : Estimates) (r : Relaxation) : Estimates :=
  if (es.record r.cell).position.isNone then es else r.sources.foldl (offered r.cell) es

def started (es : Estimates) : InitialStep → Estimates
  | .seed cell towardOrigin =>
    if (es.record cell).position.isNone then es
    else es.set cell ((es.record cell).seeded towardOrigin)
  | .relax r => es.relaxed r

def swept (rs : List Relaxation) (es : Estimates) : Estimates := rs.foldl relaxed es

@[simp] theorem size_offered (cell : Nat) (es : Estimates) (source : Nat) :
    (offered cell es source).size = es.size := size_set ..

theorem size_foldl {α : Type} {g : Estimates → α → Estimates} (h : ∀ es x, (g es x).size = es.size)
    (xs : List α) (es : Estimates) : (xs.foldl g es).size = es.size := by
  induction xs generalizing es with
  | nil => rfl
  | cons x xs ih => rw [List.foldl_cons, ih, h]

@[simp] theorem size_relaxed (es : Estimates) (r : Relaxation) : (es.relaxed r).size = es.size := by
  unfold relaxed
  split
  · rfl
  · exact size_foldl (size_offered r.cell) r.sources es

@[simp] theorem size_started (es : Estimates) (step : InitialStep) :
    (es.started step).size = es.size := by
  cases step with
  | seed cell towardOrigin =>
    rw [started]
    split
    · rfl
    · exact size_set ..
  | relax r => exact size_relaxed es r

@[simp] theorem size_swept (rs : List Relaxation) (es : Estimates) : (es.swept rs).size = es.size :=
  size_foldl size_relaxed rs es

@[simp] theorem size_foldl_started (es : Estimates) (steps : List InitialStep) :
    (steps.foldl started es).size = es.size :=
  size_foldl size_started steps es

theorem offer_eq_ok {es : Estimates} {cell source : Nat} (hcell : cell < es.size)
    (hsource : source < es.size) : es.offer cell source = .ok (offered cell es source) := by
  rw [offer, get_eq_ok hsource, ok_bind, get_eq_ok hcell, ok_bind]
  rfl

theorem relax_eq_ok {es : Estimates} {r : Relaxation} (h : r.Within es.size) :
    es.relax r = .ok (es.relaxed r) := by
  rw [relax, get_eq_ok h.1, ok_bind, relaxed]
  split
  · rfl
  · refine foldlM_eq_ok_foldl (fun (next : Estimates) => next.size = es.size) rfl ?_
    intro source hsource next hsize
    exact ⟨offer_eq_ok (hsize ▸ h.1) (hsize ▸ h.2 source hsource), by rw [size_offered, hsize]⟩

theorem initialStep_eq_ok {es : Estimates} {step : InitialStep} (h : step.Within es.size) :
    es.initialStep step = .ok (es.started step) := by
  cases step with
  | seed cell towardOrigin =>
    rw [initialStep, seed, get_eq_ok h, ok_bind, started]
    split <;> rfl
  | relax r => exact relax_eq_ok h

theorem firstPass_eq_ok (es : Estimates) {steps : List InitialStep}
    (h : ∀ step ∈ steps, step.Within es.size) :
    steps.foldlM initialStep es = .ok (steps.foldl started es) := by
  refine foldlM_eq_ok_foldl (fun (next : Estimates) => next.size = es.size) rfl ?_
  intro step hstep next hsize
  exact ⟨initialStep_eq_ok (hsize ▸ h step hstep), by rw [size_started, hsize]⟩

theorem round_eq_ok {es : Estimates} {rs : List Relaxation} (h : ∀ r ∈ rs, r.Within es.size) :
    es.round rs = .ok (es.swept rs) := by
  refine foldlM_eq_ok_foldl (fun (next : Estimates) => next.size = es.size) rfl ?_
  intro r hr next hsize
  exact ⟨relax_eq_ok (hsize ▸ h r hr), by rw [size_relaxed, hsize]⟩

theorem rounds_eq_ok {es : Estimates} {rs : List Relaxation} (h : ∀ r ∈ rs, r.Within es.size)
    (n : Nat) : rounds rs n es = .ok ((swept rs)^[n] es) := by
  induction n generalizing es with
  | zero => rfl
  | succ n ih =>
    rw [rounds, round_eq_ok h, ok_bind, Function.iterate_succ_apply]
    refine ih fun r hr => ?_
    rw [size_swept]
    exact h r hr

end Estimates

end GridRoute
