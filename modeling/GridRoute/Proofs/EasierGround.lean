import GridRoute.Proofs.Soundness
import GridRoute.Proofs.Undercutting

/-!
Easier ground. Where nothing new stands in the way and no place is dearer to enter, no route is longer, after any
number of rounds: each search makes the same offers, and sums that stop at the ends of their range keep the order.
-/

namespace GridRoute

/-- Around the same agent, whatever can be entered on the harder ground can be entered for no more on the easier one,
and nothing there is so dear that a seed would come out longer than no route at all. -/
structure Terrain.Eases (easy hard : Terrain) (r : Radius) : Prop where
  agent_eq : easy.agent = hard.agent
  enters : ∀ o, r.Sees o → hard.Enters o → easy.Enters o
  rubble_le : ∀ o, r.Sees o → hard.Enters o →
    easy.rubble (easy.agent.displaced o) ≤ hard.rubble (hard.agent.displaced o)
  rubble_limit : ∀ o, r.Sees o → easy.Enters o →
    easy.rubble (easy.agent.displaced o) ≤ Cost.unreached - 2 * Cost.step

namespace Estimate.Undercuts

variable {low high : Estimate}

theorem of_closed (hclosed : high.position = none) (hlength : low.length ≤ high.length) :
    low.Undercuts high where
  length_le := hlength
  isSome_position hopen := by simp [hclosed] at hopen
  cost_le hopen := by simp [hclosed] at hopen

theorem seeded (h : low.Undercuts high) (hopen : high.position.isSome) (d : Direction) :
    (low.seeded d).Undercuts (high.seeded d) where
  length_le := Cost.add_le_add_right (h.cost_le hopen) Cost.step
  isSome_position := h.isSome_position
  cost_le := h.cost_le

theorem improveAll (h : low.Undercuts high) (hopen : high.position.isSome) {lows highs : Estimates}
    {sources : List Nat}
    (hvia : ∀ source ∈ sources, (lows.record source).length ≤ (highs.record source).length) :
    (low.improveAll lows sources).Undercuts (high.improveAll highs sources) := by
  unfold Estimate.improveAll
  induction sources generalizing low high with
  | nil => exact h
  | cons source sources ih =>
    obtain ⟨hfirst, hrest⟩ := List.forall_mem_cons.mp hvia
    refine ih (h.improve hopen hfirst source) ?_ hrest
    rwa [position_improve]

/-- A step of the first pass may give a route to a cell that the other search cannot enter: a seed must not come out
too long then, for it is not compared with what was there. -/
theorem result {lows highs : Estimates} {step : InitialStep} (h : low.Undercuts high)
    (hseed : Cost.add low.cost Cost.step ≤ Cost.unreached)
    (hclosed : high.position = none → high.length = Cost.unreached)
    (hvia : ∀ source ∈ step.sources, (lows.record source).length ≤ (highs.record source).length) :
    (step.result lows low).Undercuts (step.result highs high) := by
  by_cases hopen : high.position.isSome
  · have hopen' := h.isSome_position hopen
    cases step with
    | seed cell d =>
      rw [InitialStep.result_seed hopen, InitialStep.result_seed hopen']
      exact h.seeded hopen d
    | relax r =>
      rw [InitialStep.result_relax hopen, InitialStep.result_relax hopen']
      exact h.improveAll hopen hvia
  · have hnone : high.position = none := by simpa using hopen
    rw [InitialStep.result_of_closed hnone]
    refine of_closed hnone ?_
    by_cases hopen' : low.position.isSome
    · cases step with
      | seed cell d =>
        rw [InitialStep.result_seed hopen', hclosed hnone]
        exact hseed
      | relax r =>
        rw [InitialStep.result_relax hopen']
        exact Int.le_trans (length_improveAll_le_self low lows r.sources) h.length_le
    · rw [InitialStep.result_of_closed (by simpa using hopen')]
      exact h.length_le

end Estimate.Undercuts

namespace Terrain

def shortcut : Terrain where
  agent := ⟨5, 5⟩
  traversable _ := true
  rubble q := if q = ⟨4, 6⟩ then Bounded.lowest else 0

theorem shortcut_eases (r : Radius) : shortcut.Eases detour r where
  agent_eq := rfl
  enters _ _ _ := rfl
  rubble_le o _ _ := by
    change (if _ then Bounded.lowest else 0) ≤ (if _ then (30 : Int) else 0)
    unfold shortcut detour
    split <;> decide
  rubble_limit o _ _ := by
    change (if _ then Bounded.lowest else 0) ≤ _
    split <;> decide

namespace Eases

variable {easy hard : Terrain} {r : Radius} {o : Offset}

theorem sense_undercuts (h : easy.Eases hard r) (sees : r.Sees o) :
    (easy.sense (easy.agent.displaced o)).Undercuts (hard.sense (hard.agent.displaced o)) := by
  have hlength := (easy.sense_unstarted (easy.agent.displaced o)).1
  have hlength' := (hard.sense_unstarted (hard.agent.displaced o)).1
  by_cases enters : hard.Enters o
  · have hcost := h.rubble_le o sees enters
    rw [sense_eq (h.enters o sees enters), sense_eq enters]
    exact ⟨Int.le_refl _, fun _ => rfl, fun _ => Cost.add_le_add_right hcost _⟩
  · rw [Estimate.sense_of_not_enters enters] at hlength' ⊢
    exact .of_closed rfl (by omega)

theorem seed_le_unreached (h : easy.Eases hard r) (sees : r.Sees o) :
    Cost.add (easy.sense (easy.agent.displaced o)).cost Cost.step ≤ Cost.unreached := by
  by_cases enters : easy.Enters o
  · have hlimit := h.rubble_limit o sees enters
    rw [sense_eq enters]
    change Cost.add (Cost.add _ Cost.step) Cost.step ≤ _
    unfold Cost.add Bounded.saturatingAdd Bounded.lowest Bounded.highest Cost.unreached Cost.step at *
    omega
  · rw [Estimate.sense_of_not_enters enters]
    decide

end Eases

end Terrain

namespace Pathfinder

namespace Serves

variable {p : Pathfinder} {radius : Radius} {easy hard : Terrain}

theorem record_start_undercuts (h : p.Serves radius) (eases : easy.Eases hard radius) {cell : Nat}
    (hcell : cell < p.window.size) :
    ((p.start easy).record cell).Undercuts ((p.start hard).record cell) := by
  refine h.schedule.cell_induction
    (P := fun cell => ((p.start easy).record cell).Undercuts ((p.start hard).record cell))
    (fun cell o step ho hstep ih => ?_) hcell
  have sees := h.sees ho
  rw [start, start, h.schedule.record_start (easy.size_sensed _) hstep,
    h.schedule.record_start (hard.size_sensed _) hstep, easy.record_sensed ho, hard.record_sensed ho]
  exact (eases.sense_undercuts sees).result (eases.seed_le_unreached sees)
    (fun _ => (hard.sense_unstarted _).1) fun source hsource => (ih source hsource).length_le

theorem after_undercuts_of_eases (h : p.Serves radius) (eases : easy.Eases hard radius)
    (rounds : Nat) : (p.after easy rounds).Undercuts (p.after hard rounds) := by
  refine Estimates.Undercuts.iterate_swept ?_ ⟨?_, fun cell hcell => ?_⟩ (fun r hr => ?_) rounds
  · exact Std.Refl.refl p.schedule.extraRound
  · rw [size_start, size_start]
  · rw [size_start] at hcell
    exact h.record_start_undercuts eases hcell
  · rw [size_start]
    exact h.schedule.relaxation_within hr

end Serves

/-- On easier ground no cell is farther after the same number of rounds, whether or not the rounds have converged. -/
theorem easier_ground_no_longer (radius : Radius) {easy hard : Terrain}
    (inRange : radius.InRange easy.agent) (eases : easy.Eases hard radius) (rounds : Nat) :
    ∃ p es es', compile radius.value = .ok p ∧ p.estimates easy rounds = .ok es ∧
      p.estimates hard rounds = .ok es' ∧ es.size = p.window.size ∧ es'.size = p.window.size ∧
      ∀ o, radius.Sees o → ∃ e e', es.at? p.window o = some e ∧ es'.at? p.window o = some e' ∧
        e.length ≤ e'.length := by
  obtain ⟨p, hcompile, h⟩ := exists_compile_eq_ok radius
  refine ⟨p, p.after easy rounds, p.after hard rounds, hcompile, h.estimates_eq_ok inRange rounds,
    h.estimates_eq_ok (eases.agent_eq ▸ inRange) rounds, p.size_after easy rounds,
    p.size_after hard rounds, fun o sees => ?_⟩
  obtain ⟨cell, hcell, hat⟩ := h.exists_at? (p.size_after easy rounds) sees
  obtain ⟨cell', hcell', hat'⟩ := h.exists_at? (p.size_after hard rounds) sees
  obtain rfl := Window.offset?_injective hcell hcell'
  refine ⟨_, _, hat, hat', ?_⟩
  have undercuts := h.after_undercuts_of_eases eases rounds
  exact (undercuts.record cell (by rw [size_after]; exact Window.offset?_lt_size hcell)).length_le

theorem easier_ground_no_longer_shortcut :
    Radius.nine.InRange Terrain.shortcut.agent ∧ Terrain.shortcut.Eases Terrain.detour .nine ∧
    ∃ p es es', compile 9 = .ok p ∧ p.estimates Terrain.shortcut 1 = .ok es ∧
      p.estimates Terrain.detour 1 = .ok es' ∧ es.size = p.window.size ∧
      es'.size = p.window.size ∧
      ∀ o, Radius.nine.Sees o → ∃ e e', es.at? p.window o = some e ∧
        es'.at? p.window o = some e' ∧ e.length ≤ e'.length :=
  have inRange : Radius.nine.InRange Terrain.shortcut.agent := (Terrain.detour_regular .nine).inRange
  have eases := Terrain.shortcut_eases .nine
  ⟨inRange, eases, easier_ground_no_longer .nine inRange eases 1⟩

end Pathfinder

end GridRoute
