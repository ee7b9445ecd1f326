import GridRoute.Proofs.FirstPass
import GridRoute.Proofs.Placing
import GridRoute.Proofs.Standstill

/-!
Coverage. A schedule leaves seeds out of its rounds and drops cells without sources, and still offers a route along
every step between neighbouring cells that does not lead into a seed. The first pass offers exactly the steps that lead
away from the origin, a round exactly those between cells that are no seeds, in both directions.
-/

namespace GridRoute

theorem Window.Numbers.mem_iff {w : Window} {offsets : List Offset} {cells : List Nat}
    (h : w.Numbers offsets cells) {cell : Nat} {o : Offset} (hcell : w.offset? cell = some o) :
    cell ∈ cells ↔ o ∈ offsets := by
  constructor
  · intro hmem
    obtain ⟨n, hn, hfound⟩ := h.exists_offset hmem
    obtain rfl : o = n := Option.some.inj (hcell.symm.trans hfound)
    exact hn
  · intro ho
    rw [h.eq_map]
    exact List.mem_map.mpr ⟨o, ho, Window.cellAt_eq hcell⟩

namespace Schedule

def OffersFirst (s : Schedule) (source cell : Nat) : Prop :=
  ∃ step ∈ s.initialSteps, step.cell = cell ∧ source ∈ step.sources

def OffersAgain (s : Schedule) (source cell : Nat) : Prop :=
  ∃ r ∈ s.extraRound, r.cell = cell ∧ source ∈ r.sources

/-- What the phases of a schedule hold, and that together they cover the window. -/
structure Covers (s : Schedule) (w : Window) : Prop where
  within : s.Within w.size
  /-- The first pass has one step for each cell, in their order. -/
  map_cell_initialSteps : s.initialSteps.map InitialStep.cell = List.range w.size
  starts : ∀ cell o, w.offset? cell = some o →
    ∃ step, s.initialSteps[cell]? = some step ∧ step.Starts w o cell
  /-- It reads finished routes only. -/
  source_lt : ∀ step ∈ s.initialSteps, ∀ source ∈ step.sources, source < step.cell
  extraRound_sorted : s.extraRound.Pairwise fun a b => a.cell < b.cell
  /-- A round is about the cells beyond the seeds that have neighbours beyond the seeds. -/
  mem_extraRound_iff : ∀ cell, (∃ r ∈ s.extraRound, r.cell = cell) ↔
    ∃ o n, w.offset? cell = some o ∧ Offset.seedDistance < o.norm ∧ o.Adjacent n ∧
      Offset.seedDistance < n.norm ∧ n.norm ≤ w.radius
  refines : ∀ r ∈ s.extraRound, ∃ o, w.offset? r.cell = some o ∧ r.Refines w o r.cell
  offersAgain_comm : ∀ a b, s.OffersAgain a b ↔ s.OffersAgain b a
  /-- No step between neighbouring cells is lost, unless it leads into a seed. -/
  offers : ∀ a b n o, w.offset? a = some n → w.offset? b = some o → o.Adjacent n →
    Offset.seedDistance < o.norm →
      (s.OffersFirst a b ∨ s.OffersAgain a b) ∧ (n.norm ≤ Offset.seedDistance → s.OffersFirst a b)

namespace Serves

variable {s : Schedule} {w : Window}

theorem within (h : s.Serves w) : s.Within w.size where
  placements := by
    intro p hp
    obtain ⟨cell, hget⟩ := List.mem_iff_getElem?.mp hp
    obtain ⟨o, hcell, rfl, -, start, -, hstart⟩ := h.placedBy.exists_offset_of_placement hget
    refine ⟨Window.offset?_lt_size hcell, ?_⟩
    cases hanchor : p.anchor with
    | origin => trivial
    | cell earlier =>
      rw [hanchor] at hstart
      exact Window.offset?_lt_size hstart.2
  initialSteps _ hstep := h.initialStep_within hstep
  extraRound _ hr := h.relaxation_within hr

theorem map_cell_initialSteps (h : s.Serves w) :
    s.initialSteps.map InitialStep.cell = List.range w.size :=
  Sequencing.map_eq_range h.initialSteps_length fun _ _ => h.cell_eq

theorem offersFirst_iff (h : s.Serves w) {a b : Nat} : s.OffersFirst a b ↔
    ∃ n o, w.offset? a = some n ∧ w.offset? b = some o ∧ Offset.seedDistance < o.norm ∧
      o.Adjacent n ∧ n.norm < o.norm := by
  constructor
  · rintro ⟨step, hstep, rfl, hsource⟩
    obtain ⟨cell, hget⟩ := List.mem_iff_getElem?.mp hstep
    obtain ⟨o, hcell, starts⟩ := h.exists_offset_of_initialStep hget
    cases step with
    | seed named towardOrigin => cases hsource
    | relax r =>
      obtain ⟨rfl, hfar, hnumbers⟩ := starts
      obtain ⟨n, hn, ha⟩ := hnumbers.exists_offset hsource
      obtain ⟨hadjacent, hless⟩ := Offset.mem_closerNeighbors.mp hn
      exact ⟨n, o, ha, hcell, hfar, hadjacent, hless⟩
  · rintro ⟨n, o, ha, hb, hfar, hadjacent, hless⟩
    obtain ⟨step, hget, starts⟩ := h.initialSteps_starts b o hb
    cases step with
    | seed named towardOrigin => exact absurd starts.2.1 (Nat.not_le.mpr hfar)
    | relax r =>
      obtain ⟨hnamed, -, hnumbers⟩ := starts
      exact ⟨.relax r, List.mem_of_getElem? hget, hnamed,
        (hnumbers.mem_iff ha).mpr (Offset.mem_closerNeighbors.mpr ⟨hadjacent, hless⟩)⟩

theorem offersAgain_iff (h : s.Serves w) {a b : Nat} : s.OffersAgain a b ↔
    ∃ n o, w.offset? a = some n ∧ w.offset? b = some o ∧ Offset.seedDistance < n.norm ∧
      Offset.seedDistance < o.norm ∧ o.Adjacent n := by
  constructor
  · rintro ⟨r, hr, rfl, hsource⟩
    obtain ⟨o, hcell, -, hfar, hnumbers⟩ := h.refines_of_mem r hr
    obtain ⟨n, hn, ha⟩ := hnumbers.exists_offset hsource
    obtain ⟨hadjacent, hfar', -⟩ := Window.mem_outerNeighbors.mp hn
    exact ⟨n, o, ha, hcell, hfar', hfar, hadjacent⟩
  · rintro ⟨n, o, ha, hb, hfar', hfar, hadjacent⟩
    have hneighbor : n ∈ w.outerNeighbors o :=
      Window.mem_outerNeighbors.mpr ⟨hadjacent, hfar', (Window.norm_pos_of_offset? ha).2⟩
    obtain ⟨r, hr, hnamed, -, hnumbers⟩ :=
      h.exists_refines b o hb hfar (List.ne_nil_of_mem hneighbor)
    exact ⟨r, hr, hnamed, (hnumbers.mem_iff ha).mpr hneighbor⟩

theorem offersAgain_symm (h : s.Serves w) {a b : Nat} (hoffers : s.OffersAgain a b) :
    s.OffersAgain b a := by
  obtain ⟨n, o, ha, hb, hfar', hfar, hadjacent⟩ := h.offersAgain_iff.mp hoffers
  exact h.offersAgain_iff.mpr ⟨o, n, hb, ha, hfar, hfar', hadjacent.symm⟩

/-- A neighbour that is no nearer is no seed, so a round offers its route. -/
theorem offers (h : s.Serves w) {a b : Nat} {n o : Offset} (ha : w.offset? a = some n)
    (hb : w.offset? b = some o) (hadjacent : o.Adjacent n) (hfar : Offset.seedDistance < o.norm) :
    (s.OffersFirst a b ∨ s.OffersAgain a b) ∧
      (n.norm ≤ Offset.seedDistance → s.OffersFirst a b) := by
  by_cases hseed : n.norm ≤ Offset.seedDistance
  · have hfirst := h.offersFirst_iff.mpr ⟨n, o, ha, hb, hfar, hadjacent, by omega⟩
    exact ⟨.inl hfirst, fun _ => hfirst⟩
  · exact ⟨.inr (h.offersAgain_iff.mpr ⟨n, o, ha, hb, Nat.lt_of_not_le hseed, hfar, hadjacent⟩),
      fun hnear => absurd hnear hseed⟩

end Serves

end Schedule

namespace Window

variable {w : Window} {s : Schedule}

theorem mem_extraRound_iff (moderate : ∀ o ∈ w.offsets, o.Moderate) (h : w.schedule = .ok s)
    (cell : Nat) : (∃ r ∈ s.extraRound, r.cell = cell) ↔
      ∃ o n, w.offset? cell = some o ∧ Offset.seedDistance < o.norm ∧ o.Adjacent n ∧
        Offset.seedDistance < n.norm ∧ n.norm ≤ w.radius := by
  have serves := schedule_serves moderate h
  constructor
  · rintro ⟨r, hr, rfl⟩
    obtain ⟨o, hcell, -, hfar, hnumbers⟩ := serves.refines_of_mem r hr
    -- Cells without sources are dropped from the round, so this one has a neighbour to show.
    obtain ⟨source, hsource⟩ := List.exists_mem_of_ne_nil _
      (sources_ne_nil_of_mem_extraRound (schedule_eq_ok_iff.mp h).2.2 hr)
    obtain ⟨n, hn, -⟩ := hnumbers.exists_offset hsource
    exact ⟨o, n, hcell, hfar, mem_outerNeighbors.mp hn⟩
  · rintro ⟨o, n, hcell, hfar, hneighbor⟩
    obtain ⟨r, hr, hnamed, -⟩ := serves.exists_refines cell o hcell hfar
      (List.ne_nil_of_mem (mem_outerNeighbors.mpr hneighbor))
    exact ⟨r, hr, hnamed⟩

/-- The schedule of a window near the origin covers it, in whatever order the window has the cells of a distance. -/
theorem covers_of_schedule (moderate : ∀ o ∈ w.offsets, o.Moderate) (h : w.schedule = .ok s) :
    s.Covers w := by
  have serves := schedule_serves moderate h
  refine ⟨serves.within, serves.map_cell_initialSteps, serves.initialSteps_starts, ?_,
    serves.extraRound_sorted, mem_extraRound_iff moderate h, serves.refines_of_mem,
    fun a b => ⟨serves.offersAgain_symm, serves.offersAgain_symm⟩, fun a b n o => serves.offers⟩
  intro step hstep source hsource
  obtain ⟨cell, hget⟩ := List.mem_iff_getElem?.mp hstep
  rw [serves.cell_eq hget]
  exact serves.source_lt hget hsource

def backwards : List Offset :=
  [⟨1, 0⟩, ⟨0, 1⟩, ⟨0, -1⟩, ⟨-1, 0⟩, ⟨1, 1⟩, ⟨1, -1⟩, ⟨-1, 1⟩, ⟨-1, -1⟩, ⟨2, 0⟩, ⟨0, 2⟩, ⟨0, -2⟩,
    ⟨-2, 0⟩, ⟨2, 1⟩, ⟨2, -1⟩, ⟨1, 2⟩, ⟨1, -2⟩, ⟨-1, 2⟩, ⟨-1, -2⟩, ⟨-2, 1⟩, ⟨-2, -1⟩]

theorem covers_of_schedule_backwards :
    ∃ w s, ofOffsets 5 backwards = .ok w ∧ (∀ o ∈ w.offsets, o.Moderate) ∧
      w.schedule = .ok s ∧ s.Covers w := by
  obtain ⟨w, hw, hradius, hoffsets⟩ : ∃ w, ofOffsets 5 backwards = .ok w ∧ w.radius = 5 ∧
      w.offsets.toList = backwards :=
    exists_ofOffsets_eq_ok 5 (by decide) (by decide) (by decide) (by decide) (by decide)
  have hmem (o : Offset) : o ∈ w.offsets ↔ o ∈ backwards := by
    rw [← Array.mem_toList_iff, hoffsets]
  have moderate : ∀ o ∈ w.offsets, o.Moderate := by
    simp only [hmem]
    decide
  have hneighbors : ∀ o ∈ backwards, Offset.seedDistance < o.norm →
      ∀ n ∈ o.neighborhood, n.norm ≤ 5 → n ∈ backwards := by
    decide
  obtain ⟨s, hs⟩ := (exists_schedule_iff moderate).mpr fun o ho hfar n hadjacent hinside =>
    (hmem n).mpr (hneighbors o ((hmem o).mp ho) hfar n (Offset.mem_neighborhood.mpr hadjacent)
      (hradius ▸ hinside))
  exact ⟨w, s, hw, moderate, hs, covers_of_schedule moderate hs⟩

end Window

end GridRoute
