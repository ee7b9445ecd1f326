import GridRoute.Search
import GridRoute.Proofs.Compilation
import GridRoute.Proofs.Relaxation

/-!
Sighting. The chain of unit steps puts every cell where its offset says, and from there a search is a
plain function of the terrain: the cells are sensed, started once and then swept round by round.
-/

namespace GridRoute

open Sequencing

def Position.displaced (p : Position) (o : Offset) : Position := ⟨p.x + o.x, p.y + o.y⟩

def Position.Fits (p : Position) : Prop := Bounded.Fits p.x ∧ Bounded.Fits p.y

instance (p : Position) : Decidable p.Fits := inferInstanceAs (Decidable (_ ∧ _))

theorem Position.step_eq_ok {p q : Position} {d : Direction} (hx : q.x = p.x + d.delta.1)
    (hy : q.y = p.y + d.delta.2) (fits : q.Fits) : p.step d = .ok q := by
  obtain ⟨x, y⟩ := q
  dsimp only at hx hy
  subst hx hy
  rw [step, Bounded.add_of_fits fits.1, Bounded.add_of_fits fits.2]
  rfl

/-- Everything in sight of the agent has coordinates. -/
def Radius.InRange (r : Radius) (agent : Position) : Prop :=
  ∀ o, r.Sees o → (agent.displaced o).Fits

theorem Radius.InRange.agent_fits {r : Radius} {agent : Position} (h : r.InRange agent) :
    agent.Fits := by
  have hsees (o : Offset) (hne : o ≠ Offset.origin) (hnorm : o.norm = 1) : r.Sees o :=
    ⟨hne, hnorm.symm ▸ Nat.le_trans (by decide) r.minimum_le⟩
  have hwest := h ⟨-1, 0⟩ (hsees _ (by decide) (by decide))
  have heast := h ⟨1, 0⟩ (hsees _ (by decide) (by decide))
  simp only [Position.displaced, Position.Fits, Bounded.fits_iff] at hwest heast ⊢
  omega

theorem Terrain.sense_unstarted (t : Terrain) (q : Position) :
    (t.sense q).length = Cost.unreached ∧ (t.sense q).best = .center := by
  unfold sense
  split <;> exact ⟨rfl, rfl⟩

def Terrain.sensed (t : Terrain) (w : Window) : Estimates :=
  ⟨w.offsets.map fun o => t.sense (t.agent.displaced o)⟩

theorem Terrain.size_sensed (t : Terrain) (w : Window) : (t.sensed w).size = w.size := by
  simp [sensed, Estimates.size, Window.size]

theorem Terrain.map_sense (t : Terrain) (w : Window) :
    ⟨(w.offsets.map t.agent.displaced).map t.sense⟩ = t.sensed w := by
  rw [Array.map_map]
  rfl

theorem Terrain.record_sensed (t : Terrain) {w : Window} {cell : Nat} {o : Offset}
    (h : w.offset? cell = some o) :
    (t.sensed w).record cell = t.sense (t.agent.displaced o) := by
  rw [sensed, Estimates.record, Array.getElem?_map, show w.offsets[cell]? = some o from h]
  rfl

theorem Position.displaced_origin (p : Position) : p.displaced Offset.origin = p := by
  simp [displaced, Offset.origin]

/-- The array has an entry for each cell, and those of the first so many cells are what their offsets
say. -/
def Window.Filled {α : Type} (w : Window) (f : Offset → α) (count : Nat) (entries : Array α) : Prop :=
  entries.size = w.size ∧ ∀ cell o, cell < count → w.offset? cell = some o →
    entries[cell]? = some (f o)

namespace Window.Filled

variable {α : Type} {w : Window} {f : Offset → α} {count : Nat} {entries : Array α}

theorem zero (h : entries.size = w.size) : w.Filled f 0 entries :=
  ⟨h, fun cell _ hlt => absurd hlt (Nat.not_lt_zero cell)⟩

theorem succ (h : w.Filled f count entries) {o : Offset} (hcell : w.offset? count = some o)
    (hentry : entries[count]? = some (f o)) : w.Filled f (count + 1) entries := by
  refine ⟨h.1, fun other n hother hn => ?_⟩
  rcases Nat.lt_succ_iff_lt_or_eq.mp hother with hlt | rfl
  · exact h.2 other n hlt hn
  · obtain rfl : o = n := Option.some.inj (hcell.symm.trans hn)
    exact hentry

theorem set (h : w.Filled f count entries) {o : Offset} (hcell : w.offset? count = some o) :
    w.Filled f (count + 1) (entries.setIfInBounds count (f o)) := by
  have hkept : w.Filled f count (entries.setIfInBounds count (f o)) := by
    refine ⟨by rw [Array.size_setIfInBounds, h.1], fun other n hother hn => ?_⟩
    rw [Array.getElem?_setIfInBounds, if_neg (by omega)]
    exact h.2 other n hother hn
  refine hkept.succ hcell ?_
  rw [Array.getElem?_setIfInBounds, if_pos rfl, if_pos (h.1.symm ▸ offset?_lt_size hcell)]

theorem eq_map (h : w.Filled f w.size entries) : entries = w.offsets.map f := by
  apply Array.ext_getElem?
  intro cell
  rw [Array.getElem?_map]
  by_cases hlt : cell < w.size
  · obtain ⟨o, hcell⟩ := exists_offset? hlt
    rw [h.2 cell o hlt hcell, show w.offsets[cell]? = some o from hcell]
    rfl
  · rw [Array.getElem?_eq_none (h.1 ▸ Nat.le_of_not_lt hlt),
      Array.getElem?_eq_none (Nat.le_of_not_lt hlt)]
    rfl

end Window.Filled

namespace Window.PlacedBy

variable {w : Window} {placements : List Placement}

theorem exists_offset_of_placement (h : w.PlacedBy placements) {cell : Nat} {p : Placement}
    (hp : placements[cell]? = some p) : ∃ o, w.offset? cell = some o ∧ p.Places w o cell := by
  obtain ⟨hlt, -⟩ := List.getElem?_eq_some_iff.mp hp
  obtain ⟨o, hcell⟩ := exists_offset? (w := w) (h.length_eq ▸ hlt)
  obtain ⟨p', hp', places⟩ := h.places cell o hcell
  rw [hp, Option.some.injEq] at hp'
  exact ⟨o, hcell, hp' ▸ places⟩

theorem exists_step_eq_ok (h : w.PlacedBy placements) {agent : Position} {cell : Nat} {p : Placement}
    (hp : placements[cell]? = some p) (fits : ∀ o ∈ w.offsets, (agent.displaced o).Fits) :
    ∃ o start, p.cell = cell ∧ w.offset? cell = some o ∧
      (agent.displaced start).step p.step = .ok (agent.displaced o) ∧
      match p.anchor with
      | .origin => start = Offset.origin
      | .cell earlier => earlier < cell ∧ w.offset? earlier = some start := by
  obtain ⟨o, hcell, hnamed, -, start, hlead, hanchor⟩ := h.exists_offset_of_placement hp
  refine ⟨o, start, hnamed, hcell, ?_, hanchor⟩
  refine Position.step_eq_ok ?_ ?_ (fits o (mem_offsets_iff.mpr ⟨_, hcell⟩))
  · simp only [← hlead, Position.displaced, Offset.neighbor]
    omega
  · simp only [← hlead, Position.displaced, Offset.neighbor]
    omega

theorem place_eq_ok (h : w.PlacedBy placements) {agent : Position} {positions : Array Position}
    {cell : Nat} {p : Placement} (hp : placements[cell]? = some p)
    (fits : ∀ o ∈ w.offsets, (agent.displaced o).Fits)
    (placed : w.Filled agent.displaced cell positions) :
    ∃ next, Placement.place agent positions p = .ok next ∧
      w.Filled agent.displaced (cell + 1) next := by
  obtain ⟨o, start, rfl, hcell, hstep, hanchor⟩ := h.exists_step_eq_ok hp fits
  have hlt : p.cell < positions.size := placed.1.symm ▸ offset?_lt_size hcell
  refine ⟨positions.setIfInBounds p.cell (agent.displaced o), ?_, placed.set hcell⟩
  unfold Placement.place
  cases hanchored : p.anchor with
  | origin =>
    rw [hanchored] at hanchor
    obtain rfl : start = Offset.origin := hanchor
    rw [agent.displaced_origin] at hstep
    dsimp only
    rw [pure_bind, hstep, ok_bind, if_pos hlt]
    rfl
  | cell earlier =>
    rw [hanchored] at hanchor
    dsimp only
    rw [placed.2 earlier start hanchor.1 hanchor.2]
    dsimp only
    rw [pure_bind, hstep, ok_bind, if_pos hlt]
    rfl

/-- However its anchors wander, a cell ends up where its offset says. -/
theorem positions_eq_ok (h : w.PlacedBy placements) {agent : Position}
    (fits : ∀ o ∈ w.offsets, (agent.displaced o).Fits) :
    placements.foldlM (Placement.place agent) (Array.replicate w.size agent) =
      .ok (w.offsets.map agent.displaced) := by
  have hplaced : ∃ positions,
      placements.foldlM (Placement.place agent) (Array.replicate w.size agent) = .ok positions ∧
        w.Filled agent.displaced placements.length positions := by
    refine exists_foldlM_eq_ok (fun done positions => w.Filled agent.displaced done.length positions)
      (.zero Array.size_replicate) ?_
    intro done p rest positions hsplit placed
    rw [List.length_append, List.length_singleton]
    exact h.place_eq_ok (by simp [hsplit]) fits placed
  obtain ⟨positions, hok, placed⟩ := hplaced
  rw [h.length_eq] at placed
  rw [hok, placed.eq_map]

end Window.PlacedBy

namespace Schedule.Serves

variable {s : Schedule} {w : Window}

theorem placedBy (h : s.Serves w) : w.PlacedBy s.placements :=
  ⟨h.placements_length, h.placements_places⟩

theorem exists_offset_of_initialStep (h : s.Serves w) {cell : Nat} {step : InitialStep}
    (hstep : s.initialSteps[cell]? = some step) :
    ∃ o, w.offset? cell = some o ∧ step.Starts w o cell := by
  obtain ⟨hlt, -⟩ := List.getElem?_eq_some_iff.mp hstep
  obtain ⟨o, hcell⟩ := Window.exists_offset? (w := w) (h.initialSteps_length ▸ hlt)
  obtain ⟨step', hstep', starts⟩ := h.initialSteps_starts cell o hcell
  rw [hstep, Option.some.injEq] at hstep'
  exact ⟨o, hcell, hstep' ▸ starts⟩

end Schedule.Serves

end GridRoute
