import GridRoute.Proofs.WindowGrowth

/-!
What a schedule holds. Placements and initial steps follow the cells of their window, each of them built on
earlier cells alone; a round offers a cell every neighbour in sight that is no seed.
-/

namespace GridRoute

open Sequencing

namespace Offset

def closerNeighbors (o : Offset) : List Offset := o.neighborhood.filter fun n => n.norm < o.norm

theorem mem_closerNeighbors {o n : Offset} :
    n ∈ o.closerNeighbors ↔ o.Adjacent n ∧ n.norm < o.norm := by
  simp [closerNeighbors, mem_neighborhood]

theorem neighbor_ne_origin {o : Offset} (h : seedDistance < o.norm) (d : Direction) :
    o.neighbor d ≠ origin := by
  intro heq
  have bounds := d.delta_bounds
  have hx := congrArg Offset.x heq
  have hy := congrArg Offset.y heq
  simp only [neighbor_x, neighbor_y, origin] at hx hy
  have := Nat.mul_le_mul (show o.x.natAbs ≤ 1 by omega) (show o.x.natAbs ≤ 1 by omega)
  have := Nat.mul_le_mul (show o.y.natAbs ≤ 1 by omega) (show o.y.natAbs ≤ 1 by omega)
  unfold norm seedDistance at h
  omega

theorem ne_origin_of_adjacent {o n : Offset} (h : seedDistance < o.norm) (hn : o.Adjacent n) :
    n ≠ origin := by
  obtain ⟨d, -, rfl⟩ := List.mem_map.mp (mem_neighborhood.mpr hn)
  exact neighbor_ne_origin h d

theorem natAbs_le_one_of_seed {o : Offset} (h : o.norm ≤ seedDistance) :
    o.x.natAbs ≤ 1 ∧ o.y.natAbs ≤ 1 := by
  have small : o.norm < 2 * 2 := by unfold seedDistance at h; omega
  unfold norm at small
  have hx : o.x.natAbs < 2 := Nat.mul_self_lt_mul_self_iff.mp (by omega)
  have hy : o.y.natAbs < 2 := Nat.mul_self_lt_mul_self_iff.mp (by omega)
  omega

theorem exists_neighbor_eq_origin {o : Offset} (h : o.norm ≤ seedDistance) :
    ∃ d, o.neighbor d = origin := by
  obtain ⟨hx, hy⟩ := natAbs_le_one_of_seed h
  obtain ⟨d, hd⟩ := Direction.exists_delta (-o.x) (-o.y) (by omega) (by omega)
  refine ⟨d, ?_⟩
  rw [neighbor, hd, origin, Offset.mk.injEq]
  dsimp only
  omega

theorem origin_neighbor_opposite {o : Offset} {d : Direction} (h : o.neighbor d = origin) :
    origin.neighbor d.opposite = o := by
  have hx := congrArg Offset.x h
  have hy := congrArg Offset.y h
  simp only [neighbor_x, neighbor_y, origin] at hx hy
  cases o
  rw [neighbor, Direction.delta_opposite, origin, Offset.mk.injEq]
  dsimp only at hx hy ⊢
  omega

end Offset

/-- The step leads to the cell from the origin or from an earlier cell. -/
def Placement.Places (w : Window) (o : Offset) (cell : Nat) (p : Placement) : Prop :=
  p.cell = cell ∧ p.step ≠ .center ∧ ∃ start : Offset, start.neighbor p.step = o ∧
    match p.anchor with
    | .origin => start = Offset.origin
    | .cell earlier => earlier < cell ∧ w.offset? earlier = some start

namespace Window

structure PlacedBy (w : Window) (placements : List Placement) : Prop where
  length_eq : placements.length = w.size
  places : ∀ cell o, w.offset? cell = some o →
    ∃ p, placements[cell]? = some p ∧ p.Places w o cell

def Numbers (w : Window) (offsets : List Offset) (cells : List Nat) : Prop :=
  List.Forall₂ (fun o cell => w.offset? cell = some o) offsets cells

theorem Numbers.exists_offset {w : Window} {offsets : List Offset} {cells : List Nat}
    (h : w.Numbers offsets cells) {cell : Nat} (hcell : cell ∈ cells) :
    ∃ o ∈ offsets, w.offset? cell = some o := by
  induction h with
  | nil => cases hcell
  | cons head _ ih =>
    rcases List.mem_cons.mp hcell with rfl | hcell
    · exact ⟨_, by simp, head⟩
    · obtain ⟨o, ho, heq⟩ := ih hcell
      exact ⟨o, List.mem_cons_of_mem _ ho, heq⟩

theorem Numbers.isEmpty_eq_false {w : Window} {offsets : List Offset} {cells : List Nat}
    (h : w.Numbers offsets cells) (hne : offsets ≠ []) : cells.isEmpty = false := by
  rw [List.isEmpty_eq_false_iff]
  rintro rfl
  exact hne (List.forall₂_nil_right_iff.mp h)

def outerNeighbors (w : Window) (o : Offset) : List Offset :=
  o.neighborhood.filter fun n => Offset.seedDistance < n.norm ∧ n.norm ≤ w.radius

theorem mem_outerNeighbors {w : Window} {o n : Offset} :
    n ∈ w.outerNeighbors o ↔ o.Adjacent n ∧ Offset.seedDistance < n.norm ∧ n.norm ≤ w.radius := by
  simp [outerNeighbors, Offset.mem_neighborhood]

end Window

/-- A seed takes the step to the origin, and any other cell the routes of its nearer neighbours. -/
def InitialStep.Starts (w : Window) (o : Offset) (cell : Nat) : InitialStep → Prop
  | .seed named towardOrigin =>
    named = cell ∧ o.norm ≤ Offset.seedDistance ∧ o.neighbor towardOrigin = Offset.origin
  | .relax r =>
    r.cell = cell ∧ Offset.seedDistance < o.norm ∧ w.Numbers o.closerNeighbors r.sources

/-- The relaxation offers a cell that is no seed its neighbours that are no seeds. -/
def Relaxation.Refines (w : Window) (o : Offset) (cell : Nat) (r : Relaxation) : Prop :=
  r.cell = cell ∧ Offset.seedDistance < o.norm ∧ w.Numbers (w.outerNeighbors o) r.sources

structure Schedule.Serves (s : Schedule) (w : Window) : Prop where
  placements_length : s.placements.length = w.size
  placements_places : ∀ cell o, w.offset? cell = some o →
    ∃ p, s.placements[cell]? = some p ∧ p.Places w o cell
  initialSteps_length : s.initialSteps.length = w.size
  initialSteps_starts : ∀ cell o, w.offset? cell = some o →
    ∃ step, s.initialSteps[cell]? = some step ∧ step.Starts w o cell
  refines_of_mem : ∀ r ∈ s.extraRound, ∃ o, w.offset? r.cell = some o ∧ r.Refines w o r.cell
  exists_refines : ∀ cell o, w.offset? cell = some o → Offset.seedDistance < o.norm →
    w.outerNeighbors o ≠ [] → ∃ r ∈ s.extraRound, r.Refines w o cell
  extraRound_sorted : s.extraRound.Pairwise fun a b => a.cell < b.cell

namespace Window

theorem mem_cells_iff {w : Window} {o : Offset} {cell : Nat} :
    (o, cell) ∈ w.cells ↔ w.offset? cell = some o := by
  rw [cells, List.mem_zipIdx_iff_getElem?, Array.getElem?_toList]
  rfl

theorem getElem?_cells {w : Window} {o : Offset} {cell : Nat} (h : w.offset? cell = some o) :
    w.cells[cell]? = some (o, cell) := by
  rw [cells, List.getElem?_zipIdx, Array.getElem?_toList]
  simp only [Nat.zero_add, show w.offsets[cell]? = some o from h, Option.map_some]

theorem mapM_cells_eq_ok {β : Type} {w : Window} {f : Offset → Nat → Except CompileError β}
    {ys : List β} (h : (w.cells.mapM fun (o, cell) => f o cell) = .ok ys) :
    ys.length = w.size ∧ ∀ cell o, w.offset? cell = some o →
      ∃ y, ys[cell]? = some y ∧ f o cell = .ok y := by
  have entries := mapM_eq_ok_iff.mp h
  have hlength : ys.length = w.cells.length := entries.length_eq.symm
  have hsize : w.cells.length = w.size := by simp [cells, size]
  refine ⟨hlength.trans hsize, ?_⟩
  intro cell o hcell
  have hlt : cell < ys.length := by
    have := offset?_lt_size hcell
    omega
  have entry := entries.get (by omega) hlt
  obtain ⟨hlt', hget⟩ := List.getElem?_eq_some_iff.mp (getElem?_cells hcell)
  rw [List.get_eq_getElem, hget] at entry
  exact ⟨ys[cell], List.getElem?_eq_getElem hlt, entry⟩

theorem exists_of_mapM_cells_eq_ok {β : Type} {w : Window} {f : Offset → Nat → Except CompileError β}
    {ys : List β} (h : (w.cells.mapM fun (o, cell) => f o cell) = .ok ys) {cell : Nat} {y : β}
    (hget : ys[cell]? = some y) : ∃ o, w.offset? cell = some o ∧ f o cell = .ok y := by
  obtain ⟨hlength, hentry⟩ := mapM_cells_eq_ok h
  obtain ⟨hlt, -⟩ := List.getElem?_eq_some_iff.mp hget
  obtain ⟨o, hcell⟩ := exists_offset? (w := w) (hlength ▸ hlt)
  obtain ⟨y', hget', hok⟩ := hentry cell o hcell
  obtain rfl : y = y' := Option.some.inj (hget.symm.trans hget')
  exact ⟨o, hcell, hok⟩

theorem require_eq_ok_iff {w : Window} {o : Offset} {cell : Nat} :
    w.require o = .ok cell ↔ w.offset? cell = some o := by
  rw [← index?_eq_some_iff, require]
  cases w.index? o <;> simp

theorem sources_eq_ok_iff {w : Window} {o : Offset} (h : o.Moderate)
    (accept : Offset → Except Fault Bool) (keep : Offset → Bool)
    (haccept : ∀ d, accept (o.neighbor d) = .ok (keep (o.neighbor d))) {ds : List Direction}
    {found : List Nat} :
    w.sources o accept ds = .ok found ↔ w.Numbers ((ds.map o.neighbor).filter keep) found := by
  induction ds generalizing found with
  | nil =>
    rw [sources, List.map_nil, List.filter_nil, Numbers, List.forall₂_nil_left_iff]
    exact ⟨fun heq => (Except.ok.inj heq).symm, fun heq => congrArg Except.ok heq.symm⟩
  | cons d ds ih =>
    rw [sources, h.step_eq, lift_ok, ok_bind, haccept, lift_ok, ok_bind, List.map_cons]
    by_cases hkeep : keep (o.neighbor d)
    · rw [if_pos hkeep, List.filter_cons_of_pos hkeep, Numbers, List.forall₂_cons_left_iff,
        bind_eq_ok_iff]
      constructor
      · rintro ⟨source, hsource, heq⟩
        obtain ⟨rest, hrest, heq⟩ := bind_eq_ok_iff.mp heq
        exact ⟨source, rest, require_eq_ok_iff.mp hsource, ih.mp hrest, (Except.ok.inj heq).symm⟩
      · rintro ⟨source, rest, hsource, hrest, rfl⟩
        exact ⟨source, require_eq_ok_iff.mpr hsource,
          bind_eq_ok_iff.mpr ⟨rest, ih.mpr hrest, rfl⟩⟩
    · rw [if_neg hkeep, List.filter_cons_of_neg hkeep]
      exact ih

end Window

namespace Offset

theorem anchor_eq_ok {o start : Offset} (h : o.Moderate) (hanchor : o.anchor = .ok start) :
    o.norm ≤ seedDistance ∧ start = origin ∨ seedDistance < o.norm ∧ start ∈ o.closerNeighbors := by
  rw [anchor, h.isSeed_eq, lift_ok, ok_bind] at hanchor
  by_cases hseed : o.norm ≤ seedDistance
  · rw [if_pos (decide_eq_true hseed)] at hanchor
    exact .inl ⟨hseed, (Except.ok.inj hanchor).symm⟩
  · rw [if_neg (by simpa using hseed), h.squaredDistance_eq, lift_ok, ok_bind, h.firstCloser_eq,
      lift_ok, ok_bind] at hanchor
    refine .inr ⟨by omega, ?_⟩
    cases hfind : (Direction.scanOrder.map o.neighbor).find? fun n => n.norm < o.norm with
    | none =>
      rw [hfind] at hanchor
      cases hanchor
    | some n =>
      rw [hfind] at hanchor
      cases hanchor
      exact List.mem_filter.mpr ⟨List.mem_of_find?_eq_some hfind,
        by simpa using List.find?_some hfind⟩

theorem exists_anchor_eq_ok {o : Offset} (h : o.Moderate) : ∃ start, o.anchor = .ok start := by
  rw [anchor, h.isSeed_eq, lift_ok, ok_bind]
  by_cases hseed : o.norm ≤ seedDistance
  · rw [if_pos (decide_eq_true hseed)]
    exact ⟨origin, rfl⟩
  · rw [if_neg (by simpa using hseed), h.squaredDistance_eq, lift_ok, ok_bind, h.firstCloser_eq,
      lift_ok, ok_bind]
    obtain ⟨n, hn, hcloser, -⟩ := exists_closer_neighbor (Nat.lt_of_not_le hseed)
    cases hfind : (Direction.scanOrder.map o.neighbor).find? fun n => n.norm < o.norm with
    | none =>
      have := List.find?_eq_none.mp hfind n hn
      simp [hcloser] at this
    | some found => exact ⟨found, rfl⟩

end Offset

namespace Window

theorem placement_places {w : Window} {o : Offset} {cell : Nat} {p : Placement} (h : o.Moderate)
    (hcell : w.offset? cell = some o) (hp : w.placement o cell = .ok p) : p.Places w o cell := by
  rw [placement] at hp
  obtain ⟨start, hstart, hp⟩ := bind_eq_ok_iff.mp hp
  obtain ⟨step, hstep, hp⟩ := bind_eq_ok_iff.mp hp
  have hne : o ≠ start := by
    rcases Offset.anchor_eq_ok h hstart with ⟨-, rfl⟩ | ⟨-, hcloser⟩
    · exact (norm_pos_of_offset? hcell).1
    · exact (Offset.mem_closerNeighbors.mp hcloser).1.1
  cases step with
  | none => cases hp
  | some step =>
    have hlead : start.neighbor step = o :=
      Offset.neighbor_of_directionTo (lift_eq_ok_iff.mp hstep)
    have hmove : step ≠ .center := by
      rintro rfl
      apply hne
      rw [← hlead]
      simp [Offset.neighbor, Direction.delta]
    dsimp only at hp
    split at hp
    · rename_i horigin
      cases hp
      exact ⟨rfl, hmove, start, hlead, by simpa [Offset.isOrigin] using horigin⟩
    · obtain ⟨earlier, hearlier, hp⟩ := bind_eq_ok_iff.mp hp
      split at hp
      · cases hp
      · cases hp
        exact ⟨rfl, hmove, start, hlead, by omega, require_eq_ok_iff.mp hearlier⟩

theorem placements_placedBy {w : Window} {placements : List Placement}
    (moderate : ∀ o ∈ w.offsets, o.Moderate) (h : w.placements = .ok placements) :
    w.PlacedBy placements := by
  obtain ⟨hlength, hplacement⟩ := mapM_cells_eq_ok h
  refine ⟨hlength, fun cell o hcell => ?_⟩
  obtain ⟨p, hget, hp⟩ := hplacement cell o hcell
  exact ⟨p, hget, placement_places (moderate o (mem_offsets_iff.mpr ⟨cell, hcell⟩)) hcell hp⟩

theorem nearer_eq {n : Offset} {distance : Nat} (h : n.squaredDistance = .ok n.norm) :
    (do return (← n.squaredDistance) < distance : Except Fault Bool) =
      .ok (decide (n.norm < distance)) := by
  rw [h]
  rfl

theorem initialStep_starts {w : Window} {o : Offset} {cell : Nat} {step : InitialStep}
    (h : o.Moderate) (hstep : w.initialStep o cell = .ok step) : step.Starts w o cell := by
  rw [initialStep, h.isSeed_eq, lift_ok, ok_bind] at hstep
  by_cases hseed : o.norm ≤ Offset.seedDistance
  · rw [if_pos (decide_eq_true hseed)] at hstep
    obtain ⟨d, hd, hstep⟩ := bind_eq_ok_iff.mp hstep
    cases d with
    | none => cases hstep
    | some d =>
      cases hstep
      exact ⟨rfl, hseed, Offset.neighbor_of_directionTo (lift_eq_ok_iff.mp hd)⟩
  · rw [if_neg (by simpa using hseed), h.squaredDistance_eq, lift_ok, ok_bind] at hstep
    obtain ⟨found, hfound, hstep⟩ := bind_eq_ok_iff.mp hstep
    split at hstep
    · cases hstep
    · cases hstep
      exact ⟨rfl, by omega, (sources_eq_ok_iff h _ (fun n => n.norm < o.norm)
        fun d => nearer_eq (h.squaredDistance_neighbor d)).mp hfound⟩

theorem inReach_eq {w : Window} {n : Offset} (h : n.squaredDistance = .ok n.norm) :
    (do
      if ← n.isSeed then return false
      return (← n.squaredDistance) ≤ w.radius : Except Fault Bool) =
      .ok (decide (Offset.seedDistance < n.norm ∧ n.norm ≤ w.radius)) := by
  rw [Offset.isSeed_eq_of_squaredDistance h, ok_bind, h]
  by_cases hseed : n.norm ≤ Offset.seedDistance
  · simp [hseed, Nat.not_lt.mpr hseed]
    rfl
  · simp [hseed, Nat.lt_of_not_le hseed]

theorem extraRelaxation?_eq_ok_iff {w : Window} {o : Offset} {cell : Nat} {r : Option Relaxation}
    (h : o.Moderate) :
    w.extraRelaxation? o cell = .ok r ↔
      if o.norm ≤ Offset.seedDistance then r = none
      else ∃ found, w.Numbers (w.outerNeighbors o) found ∧
        r = if found.isEmpty then none else some ⟨cell, found⟩ := by
  rw [extraRelaxation?, h.isSeed_eq, lift_ok, ok_bind]
  by_cases hseed : o.norm ≤ Offset.seedDistance
  · rw [if_pos (decide_eq_true hseed), if_pos hseed]
    exact ⟨fun heq => (Except.ok.inj heq).symm, fun heq => congrArg Except.ok heq.symm⟩
  · rw [if_neg (by simpa using hseed), if_neg hseed, bind_eq_ok_iff]
    apply exists_congr
    intro found
    rw [sources_eq_ok_iff h _ (fun n => Offset.seedDistance < n.norm ∧ n.norm ≤ w.radius)
      fun d => inReach_eq (h.squaredDistance_neighbor d)]
    exact and_congr_right fun _ =>
      ⟨fun heq => (Except.ok.inj heq).symm, fun heq => congrArg Except.ok heq.symm⟩

theorem extraRelaxation?_refines {w : Window} {o : Offset} {cell : Nat} {r : Relaxation}
    (h : o.Moderate) (hr : w.extraRelaxation? o cell = .ok (some r)) : r.Refines w o cell := by
  rw [extraRelaxation?_eq_ok_iff h] at hr
  split at hr
  · cases hr
  · rename_i hfar
    obtain ⟨found, hfound, hsome⟩ := hr
    split at hsome
    · cases hsome
    · cases hsome
      exact ⟨rfl, Nat.lt_of_not_le hfar, hfound⟩

theorem extraRelaxation?_isSome {w : Window} {o : Offset} {cell : Nat} {choice : Option Relaxation}
    (h : o.Moderate) (hchoice : w.extraRelaxation? o cell = .ok choice)
    (hfar : Offset.seedDistance < o.norm) (hsome : w.outerNeighbors o ≠ []) :
    ∃ r, choice = some r ∧ r.Refines w o cell := by
  have hok := hchoice
  rw [extraRelaxation?_eq_ok_iff h, if_neg (Nat.not_le.mpr hfar)] at hok
  obtain ⟨found, hfound, rfl⟩ := hok
  rw [hfound.isEmpty_eq_false hsome] at hchoice ⊢
  exact ⟨_, rfl, extraRelaxation?_refines h hchoice⟩

theorem sources_ne_nil_of_mem_extraRound {w : Window} {rs : List Relaxation}
    (h : w.extraRound = .ok rs) {r : Relaxation} (hr : r ∈ rs) : r.sources ≠ [] := by
  obtain ⟨choices, hchoices, hround⟩ := bind_eq_ok_iff.mp h
  obtain rfl : choices.filterMap id = rs := Except.ok.inj hround
  obtain ⟨choice, hmem, rfl⟩ := List.mem_filterMap.mp hr
  obtain ⟨i, hget⟩ := List.mem_iff_getElem?.mp hmem
  obtain ⟨o, -, hok⟩ := exists_of_mapM_cells_eq_ok hchoices hget
  rw [extraRelaxation?] at hok
  obtain ⟨seed, -, hok⟩ := bind_eq_ok_iff.mp hok
  cases seed with
  | true => cases hok
  | false =>
    obtain ⟨found, -, hok⟩ := bind_eq_ok_iff.mp hok
    have hchosen := Except.ok.inj hok
    split at hchosen
    · cases hchosen
    · rename_i hsome
      cases hchosen
      simpa using hsome

theorem schedule_eq_ok_iff {w : Window} {s : Schedule} :
    w.schedule = .ok s ↔ w.placements = .ok s.placements ∧ w.initialSteps = .ok s.initialSteps ∧
      w.extraRound = .ok s.extraRound := by
  simp only [schedule, bind_eq_ok_iff]
  constructor
  · rintro ⟨placements, hplacements, initialSteps, hinitialSteps, extraRound, hextraRound, h⟩
    cases h
    exact ⟨hplacements, hinitialSteps, hextraRound⟩
  · rintro ⟨hplacements, hinitialSteps, hextraRound⟩
    exact ⟨_, hplacements, _, hinitialSteps, _, hextraRound, rfl⟩

theorem schedule_serves {w : Window} {s : Schedule} (moderate : ∀ o ∈ w.offsets, o.Moderate)
    (h : w.schedule = .ok s) : s.Serves w := by
  have moderate' {cell : Nat} {o : Offset} (hcell : w.offset? cell = some o) : o.Moderate :=
    moderate o (mem_offsets_iff.mpr ⟨cell, hcell⟩)
  obtain ⟨placements, initialSteps, extraRound⟩ := s
  obtain ⟨hplacements, hinitialSteps, hextraRound⟩ := schedule_eq_ok_iff.mp h
  obtain ⟨choices, hchoices, hround⟩ := bind_eq_ok_iff.mp hextraRound
  obtain rfl : choices.filterMap id = extraRound := Except.ok.inj hround
  have placed := placements_placedBy moderate hplacements
  obtain ⟨hinitialLength, hinitial⟩ := mapM_cells_eq_ok hinitialSteps
  obtain ⟨-, hchoice⟩ := mapM_cells_eq_ok hchoices
  have hrefines : ∀ (cell : Nat) (r : Relaxation), choices[cell]? = some (some r) →
      ∃ o, w.offset? cell = some o ∧ r.Refines w o cell := by
    intro cell r hget
    obtain ⟨o, hcell, hok⟩ := exists_of_mapM_cells_eq_ok hchoices hget
    exact ⟨o, hcell, extraRelaxation?_refines (moderate' hcell) hok⟩
  refine ⟨placed.length_eq, placed.places, hinitialLength, ?_, ?_, ?_, ?_⟩
  · intro cell o hcell
    obtain ⟨step, hget, hstep⟩ := hinitial cell o hcell
    exact ⟨step, hget, initialStep_starts (moderate' hcell) hstep⟩
  · intro r hr
    obtain ⟨choice, hmem, rfl⟩ := List.mem_filterMap.mp hr
    obtain ⟨cell, hget⟩ := List.mem_iff_getElem?.mp hmem
    obtain ⟨o, hcell, refines⟩ := hrefines cell r hget
    obtain rfl : r.cell = cell := refines.1
    exact ⟨o, hcell, refines⟩
  · intro cell o hcell hfar hsome
    obtain ⟨choice, hget, hok⟩ := hchoice cell o hcell
    obtain ⟨r, rfl, refines⟩ := extraRelaxation?_isSome (moderate' hcell) hok hfar hsome
    exact ⟨r, List.mem_filterMap.mpr ⟨_, List.mem_of_getElem? hget, rfl⟩, refines⟩
  · refine List.pairwise_filterMap.mpr (List.pairwise_iff_getElem.mpr ?_)
    rintro i j hi hj hij a ha b hb
    obtain ⟨_, -, refinesA⟩ := hrefines i a ((List.getElem?_eq_getElem hi).trans (congrArg some ha))
    obtain ⟨_, -, refinesB⟩ := hrefines j b ((List.getElem?_eq_getElem hj).trans (congrArg some hb))
    rw [refinesA.1, refinesB.1]
    exact hij

end Window

end GridRoute
