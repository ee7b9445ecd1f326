import GridRoute.Proofs.Program.Running
import GridRoute.Proofs.Soundness

/-!
The arrays of a running program hold the estimates of a search: after the cells are placed and sensed, after
the first pass and after every round. No length in them is so large that a sum would wrap around.
-/

namespace GridRoute

open Sequencing

namespace Estimates

def column {β : Type} (es : Estimates) (f : Estimate → β) : Array β := es.cells.map f

variable {β : Type} {es : Estimates} {f : Estimate → β} {cell : Nat}

@[simp] theorem size_column : (es.column f).size = es.size := Array.size_map

theorem getElem?_column (h : cell < es.size) : (es.column f)[cell]? = some (f (es.record cell)) := by
  rw [column, Array.getElem?_map, getElem?_eq_some_record h]
  rfl

theorem column_set (e : Estimate) :
    (es.set cell e).column f = (es.column f).setIfInBounds cell (f e) := by
  simp [column, set, Array.map_setIfInBounds]

theorem column_set_of_eq {e : Estimate} (h : f e = f (es.record cell)) :
    (es.set cell e).column f = es.column f := by
  rw [column_set, h, ← column_set, set_record]

end Estimates

namespace Program

structure Memory.Shows (m : Memory) (es : Estimates) : Prop where
  loc_eq : m.loc = es.column Estimate.position
  length_eq : m.length = es.column fun e => Int32.ofInt e.length
  cost_eq : m.cost = es.column fun e => Int32.ofInt e.cost
  best_eq : m.best = es.column fun e => some e.best

section Records

variable {s : Scope} {lookup : Lookup} {m : Memory} {es : Estimates} {cell source : Nat}

namespace Memory.Shows

theorem read_loc (h : m.Shows es) (hlt : cell < es.size) :
    read m.loc cell = .ok (es.record cell).position :=
  read_eq_ok (h.loc_eq ▸ Estimates.getElem?_column hlt)

theorem read_length (h : m.Shows es) (hlt : cell < es.size) :
    read m.length cell = .ok (Int32.ofInt (es.record cell).length) :=
  read_eq_ok (h.length_eq ▸ Estimates.getElem?_column hlt)

theorem read_cost (h : m.Shows es) (hlt : cell < es.size) :
    read m.cost cell = .ok (Int32.ofInt (es.record cell).cost) :=
  read_eq_ok (h.cost_eq ▸ Estimates.getElem?_column hlt)

theorem read_best (h : m.Shows es) (hlt : cell < es.size) :
    read m.best cell = .ok (some (es.record cell).best) :=
  read_eq_ok (h.best_eq ▸ Estimates.getElem?_column hlt)

theorem set (h : m.Shows es) {e : Estimate} (hposition : e.position = (es.record cell).position)
    (hcost : e.cost = (es.record cell).cost) :
    Memory.Shows { m with
      length := m.length.setIfInBounds cell (Int32.ofInt e.length),
      best := m.best.setIfInBounds cell (some e.best) } (es.set cell e) where
  loc_eq := h.loc_eq.trans (Estimates.column_set_of_eq hposition).symm
  length_eq := by rw [h.length_eq, Estimates.column_set]
  cost_eq := h.cost_eq.trans (Estimates.column_set_of_eq (congrArg Int32.ofInt hcost)).symm
  best_eq := by rw [h.best_eq, Estimates.column_set]

end Memory.Shows

theorem runs_setRoute (shows : m.Shows es) (hcell : cell < es.size) {number : Number}
    {heading : Heading} {e : Estimate} (hposition : e.position = (es.record cell).position)
    (hcost : e.cost = (es.record cell).cost)
    (hnumber : number.eval s m = .ok (Int32.ofInt e.length))
    (hheading : ∀ length, heading.eval { m with length } = .ok (some e.best)) :
    ∃ m', Runs s lookup [.setLength cell number, .setBest cell heading] m m' ∧
      m'.Shows (es.set cell e) ∧ m'.place = m.place := by
  have hlength : cell < m.length.size := by
    rw [shows.length_eq, Estimates.size_column]
    exact hcell
  have hbest : cell < m.best.size := by
    rw [shows.best_eq, Estimates.size_column]
    exact hcell
  exact ⟨_, .cons (run_setLength hnumber hlength) (.cons (run_setBest (hheading _) hbest) .nil),
    shows.set hposition hcost, rfl⟩

theorem eval_sum (shows : m.Shows es) (hcell : cell < es.size) (hsource : source < es.size) :
    (Number.sum (.length source) (.cost cell)).eval s m =
      .ok (Int32.ofInt ((es.record source).length + (es.record cell).cost)) := by
  rw [Number.eval, Number.eval, shows.read_length hsource, ok_bind, Number.eval,
    shows.read_cost hcell, ok_bind, Int32.ofInt_add]
  rfl

/-- Offering a route, unless a sum wraps around. -/
theorem run_offerStatement (shows : m.Shows es) (hcell : cell < es.size) (hsource : source < es.size)
    (hsum : Cost.add (es.record source).length (es.record cell).cost =
      (es.record source).length + (es.record cell).cost)
    (hfits : Bounded.Fits (es.record cell).length) :
    ∃ m', (offerStatement cell source).run s lookup m = .ok (.next, m') ∧
      m'.Shows (Estimates.offered cell es source) ∧ m'.place = m.place := by
  have hsumFits : Bounded.Fits ((es.record source).length + (es.record cell).cost) :=
    hsum ▸ Bounded.fits_saturatingAdd ..
  have hcondition : (Condition.less (.sum (.length source) (.cost cell)) (.length cell)).eval s m =
      .ok (decide ((es.record source).length + (es.record cell).cost < (es.record cell).length)) := by
    rw [Condition.eval, eval_sum shows hcell hsource, ok_bind, Number.eval, shows.read_length hcell,
      ok_bind]
    exact congrArg Except.ok (decide_eq_decide.mpr (ofInt_lt_iff hsumFits hfits))
  rw [offerStatement, run_when hcondition, Estimates.offered]
  by_cases hless : (es.record source).length + (es.record cell).cost < (es.record cell).length
  · rw [if_pos (decide_eq_true hless), Estimate.improve_of_lt _ _ _ (hsum ▸ hless), hsum]
    exact runs_setRoute shows hcell rfl rfl (eval_sum shows hcell hsource)
      fun _ => shows.read_best hsource
  · rw [if_neg (by simpa using hless), Estimate.improve_of_le _ _ _ (hsum ▸ Int.not_lt.mp hless),
      Estimates.set_record]
    exact ⟨m, rfl, shows, rfl⟩

theorem eval_present (shows : m.Shows es) (hcell : cell < es.size) :
    (Condition.present cell).eval s m = .ok (es.record cell).position.isSome := by
  rw [Condition.eval, shows.read_loc hcell, ok_bind]
  rfl

end Records

/-- The program is where the search is: its arrays hold estimates of all cells that are sound, and its
variables are the given ones. -/
structure Tracks (p : Pathfinder) (radius : Radius) (t : Terrain)
    (place : Variable → Option Position) (m : Memory) (es : Estimates) : Prop where
  shows : m.Shows es
  size_eq : es.size = p.window.size
  sound : es.Sound t radius p.window
  place_eq : m.place = place

section Phases

variable {p : Pathfinder} {radius : Radius} {t : Terrain} {place : Variable → Option Position}
  {s : Scope} {lookup : Lookup} {m : Memory} {es : Estimates}

theorem runs_noteCell (w : Window) (cell : Nat) (remark : String) :
    Runs s lookup (noteCell w cell remark) m m := by
  unfold noteCell
  split
  · exact .cons run_note .nil
  · exact .nil

theorem Tracks.cell_lt (tracks : Tracks p radius t place m es) {cell : Nat} {o : Offset}
    (hcell : p.window.offset? cell = some o) : cell < es.size :=
  tracks.size_eq.symm ▸ Window.offset?_lt_size hcell

theorem Tracks.offer (tracks : Tracks p radius t place m es) (h : p.Serves radius)
    (regular : t.Regular radius) {cell source : Nat} {o n : Offset}
    (hcell : p.window.offset? cell = some o) (hsource : p.window.offset? source = some n)
    (hadjacent : o.Adjacent n) (hopen : (es.record cell).position.isSome) :
    ∃ m', (offerStatement cell source).run s lookup m = .ok (.next, m') ∧
      Tracks p radius t place m' (Estimates.offered cell es source) := by
  have hsound := tracks.sound cell o hcell
  have enters := hsound.enters hopen
  have hsum := (tracks.sound source n hsource).add_cost regular (h.sees hcell) enters
  rw [← hsound.cost_eq enters] at hsum
  have hfits : Bounded.Fits (es.record cell).length := by
    have hlow := hsound.length_nonneg
    have hhigh := hsound.length_le
    rw [Bounded.fits_iff]
    unfold Cost.unreached at hhigh
    omega
  obtain ⟨m', hrun, hshows, hplace⟩ := run_offerStatement tracks.shows (tracks.cell_lt hcell)
    (tracks.cell_lt hsource) hsum hfits
  exact ⟨m', hrun, hshows, (Estimates.size_offered ..).trans tracks.size_eq,
    h.sound_offered regular tracks.size_eq hcell hsource hadjacent hopen tracks.sound,
    hplace.trans tracks.place_eq⟩

theorem Tracks.offers (tracks : Tracks p radius t place m es) (h : p.Serves radius)
    (regular : t.Regular radius) {cell : Nat} {o : Offset} (hcell : p.window.offset? cell = some o)
    (hopen : (es.record cell).position.isSome) {sources : List Nat}
    (hsources : ∀ source ∈ sources, ∃ n, p.window.offset? source = some n ∧ o.Adjacent n) :
    ∃ m', Runs s lookup (sources.map (offerStatement cell)) m m' ∧
      Tracks p radius t place m' (sources.foldl (Estimates.offered cell) es) ∧
      ((sources.foldl (Estimates.offered cell) es).record cell).position.isSome := by
  rw [List.map_eq_flatMap]
  refine exists_runs_foldl
    (fun m next => Tracks p radius t place m next ∧ (next.record cell).position.isSome)
    ⟨tracks, hopen⟩ ?_
  rintro source hsource m next ⟨htracks, hstill⟩
  obtain ⟨n, hn, hadjacent⟩ := hsources source hsource
  obtain ⟨m', hrun, hnext⟩ := htracks.offer h regular hcell hn hadjacent hstill
  refine ⟨m', .cons hrun .nil, hnext, ?_⟩
  rw [(Estimates.shortens_offered cell next source).position_eq]
  exact hstill

/-- What is done to the cells that are still there leaves the others closed. -/
theorem Tracks.present (tracks : Tracks p radius t place m es) {cell : Nat} {o : Offset}
    (hcell : p.window.offset? cell = some o) (remark : String) {body : List Statement}
    {next : Estimates} (hbody : (es.record cell).position.isSome →
      ∃ m', Runs s lookup body m m' ∧ Tracks p radius t place m' next) :
    ∃ m', Runs s lookup (noteCell p.window cell remark ++ [.when (.present cell) body]) m m' ∧
      Tracks p radius t place m' (if (es.record cell).position.isNone then es else next) := by
  have hcondition := eval_present (s := s) tracks.shows (tracks.cell_lt hcell)
  by_cases hopen : (es.record cell).position.isSome
  · obtain ⟨m', hruns, htracks⟩ := hbody hopen
    refine ⟨m', (runs_noteCell ..).append (.cons ?_ .nil), ?_⟩
    · rw [run_when hcondition, if_pos hopen]
      exact hruns
    · rwa [if_neg (by simp [Option.isSome_iff_ne_none.mp hopen])]
  · refine ⟨m, (runs_noteCell ..).append (.cons ?_ .nil), ?_⟩
    · rw [run_when hcondition, if_neg hopen]
    · rwa [if_pos (by simpa using hopen)]

theorem Tracks.relax (tracks : Tracks p radius t place m es) (h : p.Serves radius)
    (regular : t.Regular radius) {r : Relaxation} {o : Offset}
    (hcell : p.window.offset? r.cell = some o)
    (hsources : ∀ source ∈ r.sources, ∃ n, p.window.offset? source = some n ∧ o.Adjacent n) :
    ∃ m', Runs s lookup (relaxStatements p.window r) m m' ∧
      Tracks p radius t place m' (es.relaxed r) := by
  refine tracks.present hcell "" fun hopen => ?_
  obtain ⟨m', hruns, htracks, -⟩ := tracks.offers h regular hcell hopen hsources
  exact ⟨m', hruns, htracks⟩

theorem Tracks.seed (tracks : Tracks p radius t place m es) (h : p.Serves radius)
    (regular : t.Regular radius) {cell : Nat} {o : Offset} {d : Direction}
    (hcell : p.window.offset? cell = some o) (hseed : o.norm ≤ Offset.seedDistance)
    (hd : o.neighbor d = Offset.origin) :
    ∃ m', Runs s lookup (initialStatements p.window (.seed cell d)) m m' ∧
      Tracks p radius t place m' (es.started (.seed cell d)) := by
  refine tracks.present hcell " seed" fun hopen => ?_
  have hlt := tracks.cell_lt hcell
  have hsound := tracks.sound cell o hcell
  have enters := hsound.enters hopen
  have hlength := hsound.length_seeded regular (h.sees hcell) enters d
  have hnumber : (Number.sum (.cost cell) .stepCost).eval s m =
      .ok (Int32.ofInt ((es.record cell).seeded d).length) := by
    rw [Number.eval, Number.eval, Number.eval, tracks.shows.read_cost hlt, ok_bind, ok_bind, hlength,
      hsound.cost_eq enters, Int.add_comm, Int32.ofInt_add]
    rfl
  have hheading (length : Array Int32) : (Heading.fixed d).eval { m with length } =
      .ok (some ((es.record cell).seeded d).best) := rfl
  obtain ⟨m', hruns, hshows, hplace⟩ := runs_setRoute (e := (es.record cell).seeded d) tracks.shows hlt
    rfl rfl hnumber hheading
  exact ⟨m', hruns, hshows, (Estimates.size_set ..).trans tracks.size_eq,
    h.sound_seeded regular tracks.size_eq hcell hseed hd hopen tracks.sound,
    hplace.trans tracks.place_eq⟩

theorem exists_run_placement (h : p.Serves radius) {agent : Position} (inRange : radius.InRange agent)
    (horigin : m.place .origin = some agent) {cell : Nat} {placement : Placement}
    (hp : p.schedule.placements[cell]? = some placement)
    (hfilled : p.window.Filled (fun o => some (agent.displaced o)) cell m.loc) :
    ∃ loc, (placementStatement placement).run s lookup m = .ok (.next, { m with loc }) ∧
      p.window.Filled (fun o => some (agent.displaced o)) (cell + 1) loc := by
  have fits : ∀ o ∈ p.window.offsets, (agent.displaced o).Fits := fun o ho =>
    inRange o (h.exists_cell_iff.mp (Window.mem_offsets_iff.mp ho))
  obtain ⟨o, start, rfl, hcell, hstep, hanchor⟩ := h.schedule.placedBy.exists_step_eq_ok hp fits
  have hlt : placement.cell < m.loc.size := hfilled.1.symm ▸ Window.offset?_lt_size hcell
  have hstart : (anchorPlace placement.anchor).eval s m = .ok (agent.displaced start) := by
    cases hanchored : placement.anchor with
    | origin =>
      rw [hanchored] at hanchor
      obtain rfl : start = Offset.origin := hanchor
      rw [anchorPlace, Place.eval, horigin, agent.displaced_origin]
      rfl
    | cell earlier =>
      rw [hanchored] at hanchor
      rw [anchorPlace, Place.eval, read_eq_ok (hfilled.2 earlier start hanchor.1 hanchor.2)]
      rfl
  have hplace : (Place.step (anchorPlace placement.anchor) placement.step).eval s m =
      .ok (agent.displaced o) := by
    rw [Place.eval, hstart, ok_bind, hstep]
    rfl
  exact ⟨_, run_setPlace hplace hlt, hfilled.set hcell⟩

variable (s lookup) in
theorem exists_runs_placements (h : p.Serves radius) {agent : Position}
    (inRange : radius.InRange agent) (horigin : m.place .origin = some agent)
    (hsize : m.loc.size = p.window.size) :
    ∃ loc, Runs s lookup (p.schedule.placements.map placementStatement) m { m with loc } ∧
      p.window.Filled (fun o => some (agent.displaced o)) p.window.size loc := by
  have hruns : ∃ m', Runs s lookup (p.schedule.placements.map placementStatement) m m' ∧
      ∃ loc, m' = { m with loc } ∧
        p.window.Filled (fun o => some (agent.displaced o)) p.schedule.placements.length loc := by
    rw [List.map_eq_flatMap]
    refine exists_runs_flatMap (fun done m' => ∃ loc, m' = { m with loc } ∧
      p.window.Filled (fun o => some (agent.displaced o)) done.length loc)
      ⟨m.loc, rfl, .zero hsize⟩ ?_
    rintro done placement rest m' hsplit ⟨loc, rfl, hfilled⟩
    have hp : p.schedule.placements[done.length]? = some placement := by simp [hsplit]
    obtain ⟨next, hrun, hnext⟩ :=
      exists_run_placement (m := { m with loc }) h inRange horigin hp hfilled
    refine ⟨_, .cons hrun .nil, next, rfl, ?_⟩
    rw [List.length_append, List.length_singleton]
    exact hnext
  obtain ⟨m', hruns, loc, rfl, hfilled⟩ := hruns
  exact ⟨loc, hruns, h.schedule.placements_length ▸ hfilled⟩

/-- The first so many cells are sensed, and the others still have their places. -/
structure Sensing (w : Window) (t : Terrain) (count : Nat) (m : Memory) : Prop where
  loc : w.Filled (fun o => (t.sense (t.agent.displaced o)).position) count m.loc
  length : w.Filled (fun o => Int32.ofInt (t.sense (t.agent.displaced o)).length) count m.length
  cost : w.Filled (fun o => Int32.ofInt (t.sense (t.agent.displaced o)).cost) count m.cost
  best : w.Filled (fun o => some (t.sense (t.agent.displaced o)).best) count m.best
  placed : ∀ cell o, count ≤ cell → w.offset? cell = some o →
    m.loc[cell]? = some (some (t.agent.displaced o))

theorem Sensing.shows {w : Window} (h : Sensing w t w.size m) : m.Shows (t.sensed w) where
  loc_eq := by
    rw [h.loc.eq_map, Estimates.column, Terrain.sensed, Array.map_map]
    rfl
  length_eq := by
    rw [h.length.eq_map, Estimates.column, Terrain.sensed, Array.map_map]
    rfl
  cost_eq := by
    rw [h.cost.eq_map, Estimates.column, Terrain.sensed, Array.map_map]
    rfl
  best_eq := by
    rw [h.best.eq_map, Estimates.column, Terrain.sensed, Array.map_map]
    rfl

theorem run_look {cell : Nat} {o : Offset} (sees : radius.Sees o)
    (regular : s.robot.terrain.Regular radius)
    (hplace : m.loc[cell]? = some (some (s.robot.terrain.agent.displaced o)))
    (hcost : cell < m.cost.size) :
    (Statement.choose (.enterable (.cell cell))
        [.setCost cell (.sum (.rubble (.cell cell)) .stepCost)]
        [.setCost cell .unsensedCost, .clearPlace cell]).run s lookup m =
      .ok (.next, { m with
        loc := m.loc.setIfInBounds cell
          (s.robot.terrain.sense (s.robot.terrain.agent.displaced o)).position
        cost := m.cost.setIfInBounds cell
          (Int32.ofInt (s.robot.terrain.sense (s.robot.terrain.agent.displaced o)).cost) }) := by
  have hread : (Place.cell cell).eval s m = .ok (s.robot.terrain.agent.displaced o) := by
    rw [Place.eval, read_eq_ok hplace]
    rfl
  have hcondition : (Condition.enterable (.cell cell)).eval s m =
      .ok (s.robot.terrain.traversable (s.robot.terrain.agent.displaced o)) := by
    rw [Condition.eval, hread]
    rfl
  rw [run_choose hcondition]
  by_cases enters : s.robot.terrain.traversable (s.robot.terrain.agent.displaced o) = true
  · have hrubble : (Number.rubble (.cell cell)).eval s m =
        .ok (s.robot.rubble (s.robot.terrain.agent.displaced o)) := by
      rw [Number.eval, hread]
      rfl
    have hnumber : (Number.sum (.rubble (.cell cell)) .stepCost).eval s m =
        .ok (Int32.ofInt (s.robot.terrain.costAt o)) := by
      rw [Number.eval, hrubble, ok_bind, Number.eval, ok_bind]
      exact congrArg Except.ok ofInt_toInt_add
    rw [if_pos enters, Estimate.sense_of_enters regular sees enters, setIfInBounds_eq_self hplace]
    exact Runs.cons (run_setCost hnumber hcost) .nil
  · obtain ⟨hlt, -⟩ := Array.getElem?_eq_some_iff.mp hplace
    rw [if_neg enters, Estimate.sense_of_not_enters enters]
    exact Runs.cons (run_setCost (by rw [Number.eval]; rfl) hcost) (.cons (run_clearPlace hlt) .nil)

variable (lookup) in
theorem Sensing.sense {w : Window} {cell : Nat} (h : Sensing w s.robot.terrain cell m) {o : Offset}
    (hcell : w.offset? cell = some o) (sees : radius.Sees o)
    (regular : s.robot.terrain.Regular radius) :
    ∃ m', Runs s lookup (senseStatements o cell) m m' ∧
      Sensing w s.robot.terrain (cell + 1) m' ∧ m'.place = m.place := by
  have hlt : cell < w.size := Window.offset?_lt_size hcell
  have hunreached : Number.unreached.eval s m = .ok (Int32.ofInt Cost.unreached) := by
    rw [Number.eval]
  refine ⟨_, .cons run_note <| .cons (run_setLength hunreached (h.length.1.symm ▸ hlt)) <|
    .cons (run_setBest rfl (h.best.1.symm ▸ hlt)) <|
    .cons (run_look (m := { m with
        length := m.length.setIfInBounds cell (Int32.ofInt Cost.unreached)
        best := m.best.setIfInBounds cell (some .center) }) sees regular
      (h.placed cell o (Nat.le_refl cell) hcell) (h.cost.1.symm ▸ hlt)) <|
    .cons run_gap .nil, ?_, rfl⟩
  obtain ⟨hlength, hbest⟩ := s.robot.terrain.sense_unstarted (s.robot.terrain.agent.displaced o)
  refine ⟨h.loc.set hcell, ?_, h.cost.set hcell, ?_, fun other n hother hn => ?_⟩
  · rw [← hlength]
    exact h.length.set hcell
  · rw [← hbest]
    exact h.best.set hcell
  · dsimp only
    rw [Array.getElem?_setIfInBounds, if_neg (by omega)]
    exact h.placed other n (by omega) hn

variable (s lookup) in
theorem exists_runs_sense (h : p.Serves radius) (regular : s.robot.terrain.Regular radius)
    (start : Sensing p.window s.robot.terrain 0 m) :
    ∃ m', Runs s lookup (p.window.cells.flatMap fun (o, cell) => senseStatements o cell) m m' ∧
      Tracks p radius s.robot.terrain m.place m' (s.robot.terrain.sensed p.window) := by
  have hruns : ∃ m', Runs s lookup
        (p.window.cells.flatMap fun (o, cell) => senseStatements o cell) m m' ∧
      Sensing p.window s.robot.terrain p.window.cells.length m' ∧ m'.place = m.place := by
    refine exists_runs_flatMap (fun done m' =>
      Sensing p.window s.robot.terrain done.length m' ∧ m'.place = m.place) ⟨start, rfl⟩ ?_
    rintro done ⟨o, cell⟩ rest m' hsplit ⟨hsensing, hplace⟩
    obtain ⟨hcell, rfl⟩ := Window.of_cells_eq hsplit
    obtain ⟨next, hruns, hnext, hkept⟩ := hsensing.sense lookup hcell (h.sees hcell) regular
    refine ⟨next, hruns, ?_, hkept.trans hplace⟩
    rw [List.length_append, List.length_singleton]
    exact hnext
  obtain ⟨m', hruns, hsensing, hplace⟩ := hruns
  rw [Window.length_cells] at hsensing
  exact ⟨m', hruns, hsensing.shows, s.robot.terrain.size_sensed p.window, h.sound_sensed regular, hplace⟩

variable (s lookup) in
theorem Tracks.start (tracks : Tracks p radius t place m (t.sensed p.window)) (h : p.Serves radius)
    (regular : t.Regular radius) :
    ∃ m', Runs s lookup (p.schedule.initialSteps.flatMap (initialStatements p.window)) m m' ∧
      Tracks p radius t place m' (p.start t) := by
  refine exists_runs_foldl (Tracks p radius t place) tracks fun step hstep m es tracks => ?_
  obtain ⟨cell, hget⟩ := List.mem_iff_getElem?.mp hstep
  obtain ⟨o, hcell, starts⟩ := h.schedule.exists_offset_of_initialStep hget
  cases step with
  | seed named d =>
    obtain ⟨rfl, hseed, hd⟩ := starts
    exact tracks.seed h regular hcell hseed hd
  | relax r =>
    obtain ⟨rfl, hfar, hnumbers⟩ := starts
    refine tracks.relax h regular hcell fun source hsource => ?_
    obtain ⟨n, hn, hfound⟩ := hnumbers.exists_offset hsource
    exact ⟨n, hfound, (Offset.mem_closerNeighbors.mp hn).1⟩

theorem Tracks.sweep (tracks : Tracks p radius t place m es) (h : p.Serves radius)
    (regular : t.Regular radius) :
    ∃ m', Runs s lookup (p.schedule.extraRound.flatMap (relaxStatements p.window)) m m' ∧
      Tracks p radius t place m' (es.swept p.schedule.extraRound) := by
  refine exists_runs_foldl (Tracks p radius t place) tracks fun r hr m es tracks => ?_
  obtain ⟨o, hcell, -, -, hnumbers⟩ := h.schedule.refines_of_mem r hr
  refine tracks.relax h regular hcell fun source hsource => ?_
  obtain ⟨n, hn, hfound⟩ := hnumbers.exists_offset hsource
  exact ⟨n, hfound, (Window.mem_outerNeighbors.mp hn).1⟩

variable (lookup) in
theorem Tracks.sweeps (tracks : Tracks p radius t place m (p.start t)) (h : p.Serves radius)
    (regular : t.Regular radius) {extraRounds : Int32} (hscope : s.extraRounds = some extraRounds)
    {rounds : Nat} (hrounds : extraRounds.toInt = rounds) :
    ∃ m', (Statement.repeatRounds
        (p.schedule.extraRound.flatMap (relaxStatements p.window))).run s lookup m =
          .ok (.next, m') ∧
      Tracks p radius t place m' (p.after t rounds) := by
  rw [Statement.run, hscope]
  refine exists_loop_eq_ok hrounds (fun round m => Tracks p radius t place m (p.after t round))
    tracks fun round m tracks => ?_
  rw [p.after_succ]
  exact tracks.sweep h regular

variable (lookup) in
/-- All phases, from new arrays to the estimates after the last round. The remarks do nothing. -/
theorem exists_runs_phases (h : p.Serves radius) (regular : s.robot.terrain.Regular radius)
    (horigin : m.place .origin = some s.robot.location) (hcells : s.cells = p.window.size)
    {extraRounds : Int32} (hscope : s.extraRounds = some extraRounds) {rounds : Nat}
    (hrounds : extraRounds.toInt = rounds) (place sense start refine answer : String) :
    ∃ m', Runs s lookup
        ([Statement.gap, .allocate, .gap, .note place] ++ p.schedule.placements.map placementStatement ++
          [Statement.gap, .note sense] ++
          (p.window.cells.flatMap fun (o, cell) => senseStatements o cell) ++
          [Statement.note start] ++ p.schedule.initialSteps.flatMap (initialStatements p.window) ++
          [Statement.gap, .note refine,
            .repeatRounds (p.schedule.extraRound.flatMap (relaxStatements p.window)),
            .gap, .note answer]) m m' ∧
      Tracks p radius s.robot.terrain m.place m' (p.after s.robot.terrain rounds) := by
  obtain ⟨m₁, hallocate, hplace, hloc, hlength, hcost, hbest⟩ : ∃ m₁,
      Runs s lookup [.gap, .allocate, .gap, .note place] m m₁ ∧ m₁.place = m.place ∧
      m₁.loc.size = p.window.size ∧ m₁.length.size = p.window.size ∧
      m₁.cost.size = p.window.size ∧ m₁.best.size = p.window.size := by
    refine ⟨_, .cons run_gap (.cons run_allocate (.cons run_gap (.cons run_note .nil))), rfl, ?_⟩
    simp [hcells]
  obtain ⟨loc, hplacements, hfilled⟩ := exists_runs_placements s lookup h
    regular.inRange (hplace ▸ horigin) hloc
  have hstart : Sensing p.window s.robot.terrain 0 { m₁ with loc } :=
    ⟨.zero hfilled.1, .zero hlength, .zero hcost, .zero hbest, fun cell o _ hcell =>
      hfilled.2 cell o (Window.offset?_lt_size hcell) hcell⟩
  obtain ⟨m₂, hsense, htracks⟩ := exists_runs_sense s lookup h regular hstart
  obtain ⟨m₃, hinitial, htracks⟩ := htracks.start s lookup h regular
  obtain ⟨m₄, hrepeat, htracks⟩ := htracks.sweeps lookup h regular hscope hrounds
  refine ⟨m₄, ?_, hplace ▸ htracks⟩
  refine .append (.append (.append (.append (.append (.append hallocate hplacements) ?_) hsense) ?_)
    hinitial) ?_
  · exact .cons run_gap (.cons run_note .nil)
  · exact .cons run_note .nil
  · exact .cons run_gap (.cons run_note (.cons hrepeat (.cons run_gap (.cons run_note .nil))))

end Phases

end Program

end GridRoute
