import GridRoute.Proofs.Demands
import GridRoute.Proofs.Sighting

/-!
Placing. No position is computed from an offset: every cell is one step away from the agent or from an earlier cell, and
the chain of these steps may wander. It ends where the offset says, on every window whose cells can be placed, and
whether or not the window has a schedule.
-/

namespace GridRoute

open Sequencing

theorem Position.shift_eq_ok {p : Position} {o : Offset} (fits : (p.displaced o).Fits) :
    p.shift o = .ok (p.displaced o) := by
  rw [shift, Bounded.add_of_fits fits.1, Bounded.add_of_fits fits.2]
  rfl

namespace Window.PlacedBy

variable {w : Window} {placements : List Placement} {p : Placement}

theorem map_cell (h : w.PlacedBy placements) :
    placements.map Placement.cell = List.range w.size := by
  refine map_eq_range h.length_eq fun cell p hp => ?_
  obtain ⟨o, -, hnamed, -⟩ := h.exists_offset_of_placement hp
  exact hnamed

theorem step_ne_center (h : w.PlacedBy placements) (hp : p ∈ placements) : p.step ≠ .center := by
  obtain ⟨cell, hget⟩ := List.mem_iff_getElem?.mp hp
  obtain ⟨o, -, -, hmove, -⟩ := h.exists_offset_of_placement hget
  exact hmove

theorem anchor_lt (h : w.PlacedBy placements) (hp : p ∈ placements) {earlier : Nat}
    (hanchor : p.anchor = .cell earlier) : earlier < p.cell := by
  obtain ⟨cell, hget⟩ := List.mem_iff_getElem?.mp hp
  obtain ⟨o, -, rfl, -, start, -, hstart⟩ := h.exists_offset_of_placement hget
  rw [hanchor] at hstart
  exact hstart.1

end Window.PlacedBy

namespace Pathfinder

/-- Where the placements are those of the window, they follow its cells, step from earlier ones only, and put each of
them where a shift by its offset leads. -/
theorem positions_eq_shifts (p : Pathfinder) (moderate : ∀ o ∈ p.window.offsets, o.Moderate)
    (hplacements : p.window.placements = .ok p.schedule.placements) :
    p.schedule.placements.map Placement.cell = List.range p.window.size ∧
    (∀ placement ∈ p.schedule.placements, placement.step ≠ .center ∧
      ∀ earlier, placement.anchor = .cell earlier → earlier < placement.cell) ∧
    ∀ agent : Position, (∀ o ∈ p.window.offsets, (agent.displaced o).Fits) →
      ∃ positions, p.positions agent = .ok positions ∧ positions.size = p.window.size ∧
        ∀ cell o, p.window.offset? cell = some o →
          ∃ q, agent.shift o = .ok q ∧ positions[cell]? = some q := by
  have placed := Window.placements_placedBy moderate hplacements
  refine ⟨placed.map_cell, fun placement hp => ⟨placed.step_ne_center hp, fun _ => placed.anchor_lt hp⟩,
    fun agent fits => ⟨_, placed.positions_eq_ok fits, Array.size_map, fun cell o hcell => ?_⟩⟩
  refine ⟨_, Position.shift_eq_ok (fits o (Window.mem_offsets_iff.mpr ⟨cell, hcell⟩)), ?_⟩
  rw [Array.getElem?_map, show p.window.offsets[cell]? = some o from hcell]
  rfl

theorem positions_eq_shifts_corner :
    ∃ p : Pathfinder, Window.ofOffsets 4 [⟨-1, 1⟩, ⟨0, 2⟩] = .ok p.window ∧
      (¬ ∃ s, p.window.schedule = .ok s) ∧ (∀ o ∈ p.window.offsets, o.Moderate) ∧
      p.window.placements = .ok p.schedule.placements ∧
      (∀ o ∈ p.window.offsets, (Position.displaced ⟨2147483647, 2147483645⟩ o).Fits) ∧
      ∃ positions, p.positions ⟨2147483647, 2147483645⟩ = .ok positions ∧
        positions.size = p.window.size ∧
        ∀ cell o, p.window.offset? cell = some o →
          ∃ q, Position.shift ⟨2147483647, 2147483645⟩ o = .ok q ∧ positions[cell]? = some q := by
  obtain ⟨w, hw, hradius, hoffsets⟩ : ∃ w, Window.ofOffsets 4 [⟨-1, 1⟩, ⟨0, 2⟩] = .ok w ∧
      w.radius = 4 ∧ w.offsets.toList = [⟨-1, 1⟩, ⟨0, 2⟩] :=
    Window.exists_ofOffsets_eq_ok 4 (by decide) (by decide) (by decide) (by decide) (by decide)
  have hmem (o : Offset) : o ∈ w.offsets ↔ o ∈ ([⟨-1, 1⟩, ⟨0, 2⟩] : List Offset) := by
    rw [← Array.mem_toList_iff, hoffsets]
  have moderate : ∀ o ∈ w.offsets, o.Moderate := by
    simp only [hmem]
    decide
  have fits : ∀ o ∈ w.offsets, (Position.displaced ⟨2147483647, 2147483645⟩ o).Fits := by
    simp only [hmem]
    decide
  have hanchors : ∀ n ∈ w.anchors, n ∈ w.offsets := by
    simp only [hmem, Window.anchors, Window.outerOffsets, hoffsets]
    decide
  obtain ⟨placements, hplacements⟩ := (Window.placements_asks moderate).exists_ok_iff.mpr hanchors
  obtain ⟨p, rfl, rfl⟩ : ∃ p : Pathfinder, p.window = w ∧ p.schedule.placements = placements :=
    ⟨⟨⟨4, by decide, by decide⟩, w, ⟨placements, [], []⟩, .empty, 0⟩, rfl, rfl⟩
  refine ⟨p, hw, fun hschedule => ?_, moderate, hplacements, fits,
    (positions_eq_shifts p moderate hplacements).2.2 _ fits⟩
  -- The cell two steps north is no seed, so a schedule would have to offer it the cell between.
  have hneighbor : (⟨0, 1⟩ : Offset).norm ≤ p.window.radius := by
    rw [hradius]
    decide
  have hnorth := (Window.exists_schedule_iff moderate).mp hschedule ⟨0, 2⟩ ((hmem _).mpr (by decide))
    (by decide) ⟨0, 1⟩ (by decide) hneighbor
  exact absurd ((hmem _).mp hnorth) (by decide)

end Pathfinder

end GridRoute
