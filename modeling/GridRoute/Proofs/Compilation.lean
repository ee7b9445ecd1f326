import GridRoute.Pathfinder
import GridRoute.Proofs.Demands
import GridRoute.Proofs.Tabulation

/-!
Compilation. Every radius is compiled, and the parts of the program belong to the disc of the radius.
-/

namespace GridRoute

open Sequencing

def Radius.Sees (r : Radius) (o : Offset) : Prop := o ≠ Offset.origin ∧ o.norm ≤ r.value

instance (r : Radius) (o : Offset) : Decidable (r.Sees o) := inferInstanceAs (Decidable (_ ∧ _))

/-- The keys of the table are differences that can be taken. -/
def TargetTable.Fits (t : TargetTable) : Prop :=
  ∀ column ∈ t.columns, Bounded.Fits column.1 ∧ ∀ row ∈ column.2, Bounded.Fits row.1

namespace Window

theorem IsDisc.isEmpty_eq_false {w : Window} (h : w.IsDisc) (hradius : 1 ≤ w.radius) :
    w.isEmpty = false := by
  obtain ⟨cell, hcell⟩ := h.exists_index (o := ⟨1, 0⟩) (by decide) hradius
  have := offset?_lt_size hcell
  unfold size at this
  simp only [isEmpty, Array.isEmpty, decide_eq_false_iff_not]
  omega

theorem IsDisc.exists_targetTable_eq_ok {w : Window} (disc : w.IsDisc) (h : w.isEmpty = false) :
    ∃ t, w.targetTable = .ok t ∧
      (∀ o cell, t.lookup o.x o.y = some cell ↔ w.offset? cell = some o) ∧ t.Fits := by
  refine ⟨_, (targetTable_eq h).1, fun o cell => ?_, fun column hcolumn => ?_⟩
  · rw [TargetTable.lookup_ofEntries, lookup_cells, index?_eq_some_iff]
  · have fits (entry : Offset × Nat) (hentry : entry ∈ w.cells) :
        Bounded.Fits entry.1.x ∧ Bounded.Fits entry.1.y := by
      obtain ⟨hx, hy⟩ := disc.moderate_of_offset? (mem_cells_iff.mp hentry)
      rw [Bounded.fits_iff, Bounded.fits_iff]
      omega
    obtain ⟨dx, hdx, rfl⟩ := List.mem_map.mp hcolumn
    obtain ⟨entry, hentry, rfl⟩ := List.mem_map.mp (List.mem_eraseDups.mp hdx)
    refine ⟨(fits entry hentry).1, fun row hrow => ?_⟩
    obtain ⟨other, hother, rfl⟩ := List.mem_map.mp hrow
    exact (fits other (List.mem_filter.mp hother).1).2

/-- A window near the origin has a schedule exactly if all neighbours in reach of its cells beyond the seeds are
cells of it. Otherwise the first missing one is reported: of what cells are placed from, then of what the first
pass offers, then of what a round offers. A disc has a schedule and a table. -/
theorem schedule_demands :
    (∀ w : Window, (∀ o ∈ w.offsets, o.Moderate) →
      ((∃ s, w.schedule = .ok s) ↔ ∀ o ∈ w.offsets, Offset.seedDistance < o.norm →
        ∀ n, o.Adjacent n → n.norm ≤ w.radius → n ∈ w.offsets) ∧
      ∀ error, w.schedule = .error error ↔ ∃ n, error = .missingCell n ∧
        (w.anchors ++ (w.nearerNeighbors ++ w.roundNeighbors)).find? (fun n => n ∉ w.offsets) =
          some n) ∧
    ∀ radius, 1 ≤ radius → radius ≤ 1073741824 → ∃ offsets w, Offset.disc radius = .ok offsets ∧
      ofOffsets radius offsets = .ok w ∧ (∃ placements, w.placements = .ok placements) ∧
      (∃ initialSteps, w.initialSteps = .ok initialSteps) ∧
      (∃ extraRound, w.extraRound = .ok extraRound) ∧ ∃ t, w.targetTable = .ok t := by
  refine ⟨fun w moderate => ⟨exists_schedule_iff moderate, fun error =>
    (schedule_asks moderate).eq_error_iff⟩, fun radius hpositive hle => ?_⟩
  obtain ⟨w, hw, rfl, disc⟩ := exists_ofRadius_eq_ok hle
  obtain ⟨offsets, hoffsets, hw⟩ := bind_eq_ok_iff.mp hw
  obtain ⟨s, hs⟩ := disc.exists_schedule
  obtain ⟨hplacements, hinitialSteps, hextraRound⟩ := schedule_eq_ok_iff.mp hs
  obtain ⟨t, ht, -⟩ := disc.exists_targetTable_eq_ok (disc.isEmpty_eq_false hpositive)
  exact ⟨offsets, w, lift_eq_ok_iff.mp hoffsets, hw, ⟨_, hplacements⟩, ⟨_, hinitialSteps⟩,
    ⟨_, hextraRound⟩, t, ht⟩

theorem schedule_demands_gap :
    (∃ w, ofOffsets 4 [⟨-1, 1⟩, ⟨0, 2⟩] = .ok w ∧ (∀ o ∈ w.offsets, o.Moderate) ∧
      w.schedule = .error (.missingCell ⟨0, 1⟩)) ∧
    1 ≤ 1073741824 ∧ 1073741824 ≤ 1073741824 ∧ ∃ offsets w, Offset.disc 1073741824 = .ok offsets ∧
      ofOffsets 1073741824 offsets = .ok w ∧ ∃ s, w.schedule = .ok s := by
  refine ⟨?_, by decide, by decide, ?_⟩
  · obtain ⟨w, hw, -, hoffsets⟩ : ∃ w, ofOffsets 4 [⟨-1, 1⟩, ⟨0, 2⟩] = .ok w ∧ w.radius = 4 ∧
        w.offsets.toList = [⟨-1, 1⟩, ⟨0, 2⟩] :=
      exists_ofOffsets_eq_ok 4 (by decide) (by decide) (by decide) (by decide) (by decide)
    have hmem (o : Offset) : o ∈ w.offsets ↔ o ∈ ([⟨-1, 1⟩, ⟨0, 2⟩] : List Offset) := by
      rw [← Array.mem_toList_iff, hoffsets]
    have moderate : ∀ o ∈ w.offsets, o.Moderate := by
      simp only [hmem]
      decide
    have hfirst : (w.anchors ++ w.nearerNeighbors).find? (fun n => n ∉ w.offsets) = some ⟨0, 1⟩ := by
      simp only [hmem, anchors, nearerNeighbors, outerOffsets, hoffsets]
      decide
    refine ⟨w, hw, moderate, ((schedule_demands.1 w moderate).2 _).mpr ⟨⟨0, 1⟩, rfl, ?_⟩⟩
    rw [← List.append_assoc, List.find?_append, hfirst]
    rfl
  · obtain ⟨offsets, w, hdisc, hw, ⟨placements, hplacements⟩, ⟨initialSteps, hinitialSteps⟩,
      ⟨extraRound, hextraRound⟩, -⟩ := schedule_demands.2 1073741824 (by decide) (by decide)
    exact ⟨offsets, w, hdisc, hw, ⟨placements, initialSteps, extraRound⟩,
      schedule_eq_ok_iff.mpr ⟨hplacements, hinitialSteps, hextraRound⟩⟩

end Window

structure Pathfinder.Serves (p : Pathfinder) (radius : Radius) : Prop where
  radius_eq : p.radius = radius
  window_radius : p.window.radius = radius.value
  disc : p.window.IsDisc
  schedule : p.schedule.Serves p.window
  lookup_iff : ∀ o cell, p.table.lookup o.x o.y = some cell ↔ p.window.offset? cell = some o
  table_fits : p.table.Fits
  clampSteps_eq : p.clampSteps = radius.clampSteps

theorem Pathfinder.exists_compile_eq_ok (radius : Radius) :
    ∃ p, Pathfinder.compile radius.value = .ok p ∧ p.Serves radius := by
  obtain ⟨w, hw, hradius, disc⟩ := Window.exists_ofRadius_eq_ok
    (Nat.le_trans radius.le_maximum (show 4096 ≤ 1073741824 by decide))
  obtain ⟨s, hs⟩ := disc.exists_schedule
  have hne := disc.isEmpty_eq_false (Nat.le_trans (by decide) (hradius ▸ radius.minimum_le))
  obtain ⟨t, ht, hlookup, fits⟩ := disc.exists_targetTable_eq_ok hne
  refine ⟨⟨radius, w, s, t, radius.clampSteps⟩, ?_, rfl, hradius, disc,
    Window.schedule_serves disc.moderate hs, hlookup, fits, rfl⟩
  rw [compile, Radius.ofNat_value, ok_bind, hw, ok_bind, hs, ok_bind, ht, ok_bind]
  rfl

namespace Window

def cellAt (w : Window) (o : Offset) : Nat := (w.index? o).getD 0

theorem cellAt_eq {w : Window} {cell : Nat} {o : Offset} (h : w.offset? cell = some o) :
    w.cellAt o = cell := by
  rw [cellAt, index?_eq_some_iff.mpr h, Option.getD_some]

theorem Numbers.eq_map {w : Window} {offsets : List Offset} {cells : List Nat}
    (h : w.Numbers offsets cells) : cells = offsets.map w.cellAt := by
  induction h with
  | nil => rfl
  | cons hcell _ ih => rw [List.map_cons, cellAt_eq hcell, ih]

end Window

namespace Pathfinder.Serves

variable {p : Pathfinder} {radius : Radius}

theorem exists_cell_iff (h : p.Serves radius) {o : Offset} :
    (∃ cell, p.window.offset? cell = some o) ↔ radius.Sees o := by
  rw [← Window.mem_offsets_iff, h.disc.mem_iff, h.window_radius]
  rfl

theorem sees (h : p.Serves radius) {o : Offset} {cell : Nat}
    (hcell : p.window.offset? cell = some o) : radius.Sees o :=
  h.exists_cell_iff.mp ⟨cell, hcell⟩

theorem offset?_cellAt (h : p.Serves radius) {o : Offset} (sees : radius.Sees o) :
    p.window.offset? (p.window.cellAt o) = some o := by
  obtain ⟨cell, hcell⟩ := h.exists_cell_iff.mpr sees
  rwa [Window.cellAt_eq hcell]

end Pathfinder.Serves

end GridRoute
