import GridRoute.Proofs.Improvement
import GridRoute.Proofs.Trail

/-!
Standstill. A program need not come from a compiler for its rounds to be harmless: as long as it names cells of its
window only, whatever it repeats and even if it offers cells to themselves, more rounds never lengthen a route, and
the first round that shortens none is the last that matters.
-/

namespace GridRoute

open Sequencing

/-- The computation has a result with the property, unless it overflows. -/
def Fitting {α : Type} (x : Except Fault α) (P : α → Prop) : Prop :=
  (∃ a, x = .ok a ∧ P a) ∨ x = .error .addOverflow

namespace Fitting

variable {α β σ : Type} {P : α → Prop} {Q : β → Prop}

theorem ok {a : α} (h : P a) : Fitting (.ok a) P := .inl ⟨a, rfl, h⟩

theorem exists_eq_ok {x : Except Fault α} (h : Fitting x P) (fits : x ≠ .error .addOverflow) :
    ∃ a, x = .ok a ∧ P a :=
  h.resolve_right fits

theorem bind {x : Except Fault α} {f : α → Except Fault β} (h : Fitting x P)
    (hf : ∀ a, P a → Fitting (f a) Q) : Fitting (x >>= f) Q := by
  rcases h with ⟨a, rfl, ha⟩ | rfl
  · exact hf a ha
  · exact .inr rfl

theorem foldlM {f : σ → α → Except Fault σ} {xs : List α} {s : σ} (invariant : σ → Prop)
    (start : invariant s) (step : ∀ x ∈ xs, ∀ s, invariant s → Fitting (f s x) invariant) :
    Fitting (xs.foldlM f s) invariant := by
  induction xs generalizing s with
  | nil => exact ok start
  | cons x xs ih =>
    rw [List.foldlM_cons]
    refine (step x (by simp) s start).bind fun next hnext => ?_
    exact ih hnext fun y hy => step y (List.mem_cons_of_mem x hy)

theorem add (a b : Int) : Fitting (Bounded.add a b) fun _ => True := by
  unfold Bounded.add
  split
  · exact ok trivial
  · exact .inr rfl

theorem step (p : Position) (d : Direction) : Fitting (p.step d) fun _ => True :=
  (add p.x d.delta.1).bind fun _ _ => (add p.y d.delta.2).bind fun _ _ => ok trivial

end Fitting

def Placement.Within (p : Placement) (size : Nat) : Prop :=
  p.cell < size ∧ match p.anchor with
    | .origin => True
    | .cell index => index < size

structure Schedule.Within (s : Schedule) (size : Nat) : Prop where
  placements : ∀ p ∈ s.placements, p.Within size
  initialSteps : ∀ step ∈ s.initialSteps, step.Within size
  extraRound : ∀ r ∈ s.extraRound, r.Within size

/-- Two cells placed more than once, offered to themselves and relaxed again within a round; the second is the seed. -/
def Schedule.tangled : Schedule where
  placements := [⟨1, .origin, .north⟩, ⟨0, .cell 1, .west⟩, ⟨1, .cell 0, .northEast⟩]
  initialSteps := [.relax ⟨0, [1, 0]⟩, .seed 1 .south, .relax ⟨0, [0, 1, 0]⟩]
  extraRound := [⟨1, [1, 0]⟩, ⟨0, [1]⟩, ⟨1, [1]⟩]

theorem Schedule.tangled_within : tangled.Within 2 := by
  constructor <;> simp [tangled, Placement.Within, InitialStep.Within, Relaxation.Within]

def Terrain.tailwind : Terrain where
  agent := ⟨0, 0⟩
  traversable _ := true
  rubble _ := Bounded.lowest

theorem Placement.Within.fitting_place {p : Placement} {size : Nat} (h : p.Within size)
    (origin : Position) {positions : Array Position} (hsize : positions.size = size) :
    Fitting (place origin positions p) fun next => next.size = size := by
  obtain ⟨hcell, hanchor⟩ := h
  have hput (q : Position) : Fitting
      (if p.cell < positions.size then .ok (positions.setIfInBounds p.cell q)
        else .error (.indexOutOfBounds positions.size p.cell)) fun next => next.size = size := by
    rw [if_pos (hsize ▸ hcell)]
    exact .ok (Array.size_setIfInBounds.trans hsize)
  unfold place
  cases hp : p.anchor with
  | origin => exact (Fitting.step origin p.step).bind fun q _ => hput q
  | cell index =>
    rw [hp] at hanchor
    dsimp only at hanchor ⊢
    rw [Array.getElem?_eq_getElem (hsize ▸ hanchor)]
    exact (Fitting.step positions[index] p.step).bind fun q _ => hput q

namespace Pathfinder

variable {p : Pathfinder}

theorem fitting_firstPass (within : p.schedule.Within p.window.size) (t : Terrain) :
    Fitting (p.firstPass t) fun es => es.size = p.window.size := by
  unfold firstPass positions
  refine (Fitting.foldlM (fun positions => positions.size = p.window.size) Array.size_replicate
    ?_).bind fun positions hsize => ?_
  · intro placement hplacement positions hsize
    exact (within.placements placement hplacement).fitting_place t.agent hsize
  · have hsensed : (⟨positions.map t.sense⟩ : Estimates).size = p.window.size :=
      Array.size_map.trans hsize
    rw [Estimates.firstPass_eq_ok _ fun step hstep => hsensed ▸ within.initialSteps step hstep]
    exact .ok ((Estimates.size_foldl_started ..).trans hsensed)

/-- Unless places overflow, every number of rounds has estimates. Their routes never get longer, and all of them are
the same from the first round on that shortens none. -/
theorem rounds_settle (p : Pathfinder) (within : p.schedule.Within p.window.size) (t : Terrain)
    (fits : p.estimates t 0 ≠ .error .addOverflow) :
    ∃ after : Nat → Estimates,
      (∀ n, p.estimates t n = .ok (after n) ∧ (after n).size = p.window.size) ∧
      (∀ n m, n ≤ m → ∀ cell, ((after m).record cell).length ≤ ((after n).record cell).length) ∧
      ∀ n, (after n).SameLengths (after (n + 1)) → ∀ m, n ≤ m → after m = after n := by
  have hstart : p.firstPass t ≠ .error .addOverflow := by
    intro heq
    rw [estimates, heq] at fits
    exact fits rfl
  obtain ⟨es, hes, hsize⟩ := (fitting_firstPass within t).exists_eq_ok hstart
  have hrounds : ∀ r ∈ p.schedule.extraRound, r.Within es.size := hsize ▸ within.extraRound
  refine ⟨fun n => (Estimates.swept p.schedule.extraRound)^[n] es, fun n => ⟨?_, ?_⟩, ?_, ?_⟩
  · rw [estimates, hes, ok_bind, Estimates.rounds_eq_ok hrounds]
  · exact (Estimates.shortens_iterate_swept ..).size_eq.trans hsize
  · exact fun n m => Estimates.length_iterate_swept_le p.schedule.extraRound es
  · exact fun n hsame m => Estimates.iterate_swept_eq_of_sameLengths hsame

def tangled (w : Window) : Pathfinder where
  radius := .nine
  window := w
  schedule := .tangled
  table := .empty
  clampSteps := 0

theorem rounds_settle_tangled :
    ∃ w, Window.ofOffsets 4 [⟨-1, 1⟩, ⟨0, 2⟩] = .ok w ∧ w.size = 2 ∧
      (tangled w).schedule.Within w.size ∧ (tangled w).estimates .tailwind 0 ≠ .error .addOverflow ∧
      ∃ after : Nat → Estimates,
        (∀ n, (tangled w).estimates .tailwind n = .ok (after n) ∧ (after n).size = w.size) ∧
        (∀ n m, n ≤ m → ∀ cell, ((after m).record cell).length ≤ ((after n).record cell).length) ∧
        ∀ n, (after n).SameLengths (after (n + 1)) → ∀ m, n ≤ m → after m = after n := by
  obtain ⟨w, hw, -, hoffsets⟩ : ∃ w, Window.ofOffsets 4 [⟨-1, 1⟩, ⟨0, 2⟩] = .ok w ∧ w.radius = 4 ∧
      w.offsets.toList = [⟨-1, 1⟩, ⟨0, 2⟩] :=
    Window.exists_ofOffsets_eq_ok 4 (by decide) (by decide) (by decide) (by decide) (by decide)
  have hsize : w.size = 2 := by
    rw [Window.size, ← Array.length_toList, hoffsets]
    rfl
  have within : (tangled w).schedule.Within w.size := hsize ▸ Schedule.tangled_within
  have hpositions : (tangled w).positions ⟨0, 0⟩ = .ok #[⟨-1, 1⟩, ⟨0, 2⟩] := by
    rw [positions, show (tangled w).window.size = 2 from hsize]
    rfl
  have hsensed : (⟨#[⟨-1, 1⟩, ⟨0, 2⟩].map Terrain.tailwind.sense⟩ : Estimates).size = 2 :=
    Array.size_map
  have fits : (tangled w).estimates .tailwind 0 ≠ .error .addOverflow := by
    rw [estimates, firstPass, show Terrain.tailwind.agent = ⟨0, 0⟩ from rfl, hpositions, ok_bind,
      Estimates.firstPass_eq_ok _ (hsensed.symm ▸ Schedule.tangled_within.initialSteps)]
    rintro ⟨⟩
  exact ⟨w, hw, hsize, within, fits, rounds_settle (tangled w) within .tailwind fits⟩

end Pathfinder

end GridRoute
