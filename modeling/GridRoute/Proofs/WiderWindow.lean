import GridRoute.Proofs.Soundness
import GridRoute.Proofs.Undercutting

/-!
Wider windows. A disc begins with the cells of every smaller one, so a program for the larger radius begins as the
other does: the first passes agree, and in each round every cell of the smaller window is made all offers it is
made there, and more.
-/

namespace GridRoute

open Sequencing

theorem Offset.filter_norm_le_isPrefix {offsets : List Offset}
    (ordered : offsets.Pairwise fun a b => a.norm ≤ b.norm) (radius : Nat) :
    (offsets.filter fun o => o.norm ≤ radius) <+: offsets := by
  induction offsets with
  | nil => exact List.nil_prefix
  | cons o offsets ih =>
    obtain ⟨hfirst, hrest⟩ := List.pairwise_cons.mp ordered
    by_cases hle : o.norm ≤ radius
    · rw [List.filter_cons, if_pos (decide_eq_true hle), List.prefix_cons_inj]
      exact ih hrest
    · -- Everything behind is at least as far out.
      have hnone : (o :: offsets).filter (fun o => o.norm ≤ radius) = [] := by
        rw [List.filter_eq_nil_iff]
        intro n hn
        have : o.norm ≤ n.norm := by
          rcases List.mem_cons.mp hn with rfl | hn
          · exact Nat.le_refl _
          · exact hfirst n hn
        simp only [decide_eq_true_eq]
        omega
      rw [hnone]
      exact List.nil_prefix

namespace Window

theorem nodup_offsets (w : Window) : w.offsets.toList.Nodup := by
  rw [List.nodup_iff_getElem?_ne_getElem?]
  intro i j hij hj heq
  rw [Array.getElem?_toList, Array.getElem?_toList] at heq
  obtain ⟨o, ho⟩ := exists_offset? (w := w) (by simpa [size] using hj)
  exact Nat.ne_of_lt hij (offset?_injective (heq.trans ho) ho)

def Extends (wide w : Window) : Prop := w.offsets.toList <+: wide.offsets.toList

theorem IsDisc.extends {w wide : Window} (disc : w.IsDisc) (disc' : wide.IsDisc)
    (h : w.radius ≤ wide.radius) : wide.Extends w := by
  have hsame : w.offsets.toList = wide.offsets.toList.filter fun o => o.norm ≤ w.radius := by
    refine List.Perm.eq_of_pairwise (fun _ _ _ _ => Offset.NoLater.antisymm) disc.sorted
      (disc'.sorted.filter _) ((List.perm_ext_iff_of_nodup w.nodup_offsets
        (wide.nodup_offsets.filter _)).mpr fun o => ?_)
    rw [List.mem_filter, Array.mem_toList_iff, Array.mem_toList_iff, disc.mem_iff, disc'.mem_iff,
      decide_eq_true_eq]
    constructor
    · rintro ⟨hne, hle⟩
      exact ⟨⟨hne, Nat.le_trans hle h⟩, hle⟩
    · rintro ⟨⟨hne, -⟩, hle⟩
      exact ⟨hne, hle⟩
  rw [Extends, hsame]
  exact Offset.filter_norm_le_isPrefix wide.ordered w.radius

namespace Extends

variable {wide w : Window} {o : Offset} {cell : Nat}

theorem offset? (h : wide.Extends w) (hcell : w.offset? cell = some o) :
    wide.offset? cell = some o := by
  unfold Window.offset? at hcell ⊢
  rw [← Array.getElem?_toList] at hcell ⊢
  obtain ⟨hlt, rfl⟩ := List.getElem?_eq_some_iff.mp hcell
  exact List.prefix_iff_getElem?.mp h cell hlt

theorem size_le (h : wide.Extends w) : w.size ≤ wide.size := h.length_le

theorem isPrefix_cells (h : wide.Extends w) : w.cells <+: wide.cells := by
  obtain ⟨rest, hrest⟩ := h
  rw [cells, cells, ← hrest, List.zipIdx_append]
  exact List.prefix_append ..

theorem numbers (h : wide.Extends w) {offsets : List Offset} {found : List Nat}
    (hnumbers : w.Numbers offsets found) : wide.Numbers offsets found :=
  hnumbers.imp fun _ _ => h.offset?

theorem require_eq_ok (h : wide.Extends w) (hok : w.require o = .ok cell) :
    wide.require o = .ok cell :=
  require_eq_ok_iff.mpr (h.offset? (require_eq_ok_iff.mp hok))

theorem placement_eq_ok (h : wide.Extends w) {p : Placement} (hok : w.placement o cell = .ok p) :
    wide.placement o cell = .ok p := by
  rw [placement] at hok ⊢
  obtain ⟨start, hstart, hok⟩ := bind_eq_ok_iff.mp hok
  obtain ⟨step, hstep, hok⟩ := bind_eq_ok_iff.mp hok
  rw [hstart, ok_bind, hstep, ok_bind]
  cases step with
  | none => exact hok
  | some step =>
    dsimp only at hok ⊢
    split at hok
    · rename_i horigin
      rw [if_pos horigin]
      exact hok
    · rename_i horigin
      obtain ⟨earlier, hearlier, hok⟩ := bind_eq_ok_iff.mp hok
      rw [if_neg horigin, h.require_eq_ok hearlier, ok_bind]
      exact hok

theorem sources_eq_ok (h : wide.Extends w) {accept : Offset → Except Fault Bool}
    {ds : List Direction} {found : List Nat} (hok : w.sources o accept ds = .ok found) :
    wide.sources o accept ds = .ok found := by
  induction ds generalizing found with
  | nil => exact hok
  | cons d ds ih =>
    rw [sources] at hok ⊢
    obtain ⟨n, hn, hok⟩ := bind_eq_ok_iff.mp hok
    obtain ⟨accepted, haccepted, hok⟩ := bind_eq_ok_iff.mp hok
    rw [hn, ok_bind, haccepted, ok_bind]
    cases accepted with
    | false => exact ih hok
    | true =>
      obtain ⟨source, hsource, hok⟩ := bind_eq_ok_iff.mp hok
      obtain ⟨rest, hrest, hok⟩ := bind_eq_ok_iff.mp hok
      rw [if_pos rfl, h.require_eq_ok hsource, ok_bind, ih hrest, ok_bind]
      exact hok

theorem initialStep_eq_ok (h : wide.Extends w) {step : InitialStep}
    (hok : w.initialStep o cell = .ok step) : wide.initialStep o cell = .ok step := by
  rw [initialStep] at hok ⊢
  obtain ⟨seed, hseed, hok⟩ := bind_eq_ok_iff.mp hok
  rw [hseed, ok_bind]
  cases seed with
  | true =>
    rw [if_pos rfl] at hok ⊢
    exact hok
  | false =>
    rw [if_neg Bool.false_ne_true] at hok ⊢
    obtain ⟨distance, hdistance, hok⟩ := bind_eq_ok_iff.mp hok
    obtain ⟨found, hfound, hok⟩ := bind_eq_ok_iff.mp hok
    rw [hdistance, ok_bind]
    dsimp only
    rw [h.sources_eq_ok hfound, ok_bind]
    exact hok

theorem isPrefix_placements (h : wide.Extends w) {ps qs : List Placement}
    (hps : w.placements = .ok ps) (hqs : wide.placements = .ok qs) : ps <+: qs :=
  isPrefix_of_mapM_eq_ok h.isPrefix_cells (fun _ _ => h.placement_eq_ok) hps hqs

theorem isPrefix_initialSteps (h : wide.Extends w) {steps steps' : List InitialStep}
    (hsteps : w.initialSteps = .ok steps) (hsteps' : wide.initialSteps = .ok steps') :
    steps <+: steps' :=
  isPrefix_of_mapM_eq_ok h.isPrefix_cells (fun _ _ => h.initialStep_eq_ok) hsteps hsteps'

end Extends

end Window

theorem Window.Extends.exists_narrows {w wide : Window} {s s' : Schedule} (h : wide.Extends w)
    (hradius : w.radius ≤ wide.radius) (serves : s.Serves w) (serves' : s'.Serves wide)
    {r : Relaxation} (hr : r ∈ s.extraRound) (hsome : r.sources ≠ []) :
    ∃ r' ∈ s'.extraRound, r.Narrows r' := by
  obtain ⟨o, hcell, -, hfar, hnumbers⟩ := serves.refines_of_mem r hr
  have hsublist : (w.outerNeighbors o).Sublist (wide.outerNeighbors o) := by
    refine List.monotone_filter_right _ fun n hn => ?_
    simp only [decide_eq_true_eq] at hn ⊢
    exact ⟨hn.1, Nat.le_trans hn.2 hradius⟩
  have houter : wide.outerNeighbors o ≠ [] := by
    intro hnil
    rw [hnil, List.sublist_nil] at hsublist
    rw [hsublist, Numbers, List.forall₂_nil_left_iff] at hnumbers
    exact hsome hnumbers
  obtain ⟨r', hr', hcell', -, hnumbers'⟩ :=
    serves'.exists_refines r.cell o (h.offset? hcell) hfar houter
  refine ⟨r', hr', hcell'.symm, ?_⟩
  rw [(h.numbers hnumbers).eq_map, hnumbers'.eq_map]
  exact hsublist.map _

theorem Estimate.Undercuts.refl (e : Estimate) : e.Undercuts e :=
  ⟨Int.le_refl _, id, fun _ => Int.le_refl _⟩

namespace Pathfinder

theorem schedule_of_compile {p : Pathfinder} {n : Nat} (h : compile n = .ok p) :
    p.window.schedule = .ok p.schedule := by
  obtain ⟨radius, -, h⟩ := bind_eq_ok_iff.mp h
  obtain ⟨w, -, h⟩ := bind_eq_ok_iff.mp h
  obtain ⟨s, hs, h⟩ := bind_eq_ok_iff.mp h
  obtain ⟨t, -, h⟩ := bind_eq_ok_iff.mp h
  cases h
  exact hs

section Wider

variable {p wide : Pathfinder} {r R : Radius}

theorem record_start_eq (h : p.Serves r) (h' : wide.Serves R)
    (extend : wide.window.Extends p.window)
    (hsteps : p.schedule.initialSteps <+: wide.schedule.initialSteps) (t : Terrain) {cell : Nat}
    (hcell : cell < p.window.size) : (wide.start t).record cell = (p.start t).record cell := by
  refine h.schedule.cell_induction
    (P := fun cell => (wide.start t).record cell = (p.start t).record cell)
    (fun cell o step ho hstep ih => ?_) hcell
  have hstep' : wide.schedule.initialSteps[cell]? = some step := by
    obtain ⟨hlt, rfl⟩ := List.getElem?_eq_some_iff.mp hstep
    exact List.prefix_iff_getElem?.mp hsteps cell hlt
  rw [start, start, h.schedule.record_start (t.size_sensed _) hstep,
    h'.schedule.record_start (t.size_sensed _) hstep', t.record_sensed ho,
    t.record_sensed (extend.offset? ho)]
  exact InitialStep.result_congr ih

theorem after_undercuts (h : p.Serves r) (h' : wide.Serves R) (hradius : r.value ≤ R.value)
    (extend : wide.window.Extends p.window) (hcompiled : p.window.schedule = .ok p.schedule)
    (hsteps : p.schedule.initialSteps <+: wide.schedule.initialSteps) (t : Terrain)
    (rounds : Nat) : (wide.after t rounds).Undercuts (p.after t rounds) := by
  have hround := (Window.schedule_eq_ok_iff.mp hcompiled).2.2
  refine Estimates.Undercuts.iterate_swept ?_ ⟨?_, fun cell hcell => ?_⟩ (fun a ha => ?_) rounds
  · refine Relaxation.sublistForall₂_narrows h.schedule.extraRound_sorted
      h'.schedule.extraRound_sorted fun a ha => ?_
    refine extend.exists_narrows ?_ h.schedule h'.schedule ha
      (Window.sources_ne_nil_of_mem_extraRound hround ha)
    rwa [h.window_radius, h'.window_radius]
  · rw [size_start, size_start]
    exact extend.size_le
  · rw [size_start] at hcell
    rw [record_start_eq h h' extend hsteps t hcell]
    exact .refl _
  · rw [size_start]
    exact h.schedule.relaxation_within ha

end Wider

/-- The program for a larger radius begins as the other does and finds all its cells. After the first pass it
knows the same of these cells, and after any number of rounds no longer routes to them. -/
theorem wider_search_no_longer {r R : Radius} (hradius : r.value ≤ R.value) :
    ∃ p wide, compile r.value = .ok p ∧ compile R.value = .ok wide ∧
      p.window.offsets.toList <+: wide.window.offsets.toList ∧
      p.schedule.placements <+: wide.schedule.placements ∧
      p.schedule.initialSteps <+: wide.schedule.initialSteps ∧
      (∀ x y cell, p.table.lookup x y = some cell → wide.table.lookup x y = some cell) ∧
      ∀ t : Terrain, R.InRange t.agent → ∀ rounds, ∃ es es',
        p.estimates t rounds = .ok es ∧ wide.estimates t rounds = .ok es' ∧
        es.size = p.window.size ∧ es'.size = wide.window.size ∧
        ∀ o, r.Sees o → ∃ e e', es.at? p.window o = some e ∧ es'.at? wide.window o = some e' ∧
          e'.length ≤ e.length ∧ (rounds = 0 → e' = e) := by
  obtain ⟨p, hcompile, h⟩ := exists_compile_eq_ok r
  obtain ⟨wide, hcompile', h'⟩ := exists_compile_eq_ok R
  have extend : wide.window.Extends p.window :=
    h.disc.extends h'.disc (by rwa [h.window_radius, h'.window_radius])
  have hschedule := schedule_of_compile hcompile
  obtain ⟨hplacements, hsteps, -⟩ := Window.schedule_eq_ok_iff.mp hschedule
  obtain ⟨hplacements', hsteps', -⟩ := Window.schedule_eq_ok_iff.mp (schedule_of_compile hcompile')
  have hprefix := extend.isPrefix_initialSteps hsteps hsteps'
  refine ⟨p, wide, hcompile, hcompile', extend, extend.isPrefix_placements hplacements hplacements',
    hprefix, fun x y cell hlookup => ?_, fun t inRange rounds => ?_⟩
  · exact (h'.lookup_iff ⟨x, y⟩ cell).mpr (extend.offset? ((h.lookup_iff ⟨x, y⟩ cell).mp hlookup))
  have sees' {o : Offset} (sees : r.Sees o) : R.Sees o := ⟨sees.1, Nat.le_trans sees.2 hradius⟩
  refine ⟨p.after t rounds, wide.after t rounds,
    h.estimates_eq_ok (fun o sees => inRange o (sees' sees)) rounds,
    h'.estimates_eq_ok inRange rounds, p.size_after t rounds, wide.size_after t rounds,
    fun o sees => ?_⟩
  obtain ⟨cell, hcell, hat⟩ := h.exists_at? (p.size_after t rounds) sees
  obtain ⟨cell', hcell', hat'⟩ := h'.exists_at? (wide.size_after t rounds) (sees' sees)
  obtain rfl := Window.offset?_injective (extend.offset? hcell) hcell'
  have hlt := Window.offset?_lt_size hcell
  refine ⟨_, _, hat, hat', ?_, fun hzero => ?_⟩
  · have undercuts := after_undercuts h h' hradius extend hschedule hprefix t rounds
    exact (undercuts.record cell (by rwa [size_after])).length_le
  · subst hzero
    exact record_start_eq h h' extend hprefix t hlt

theorem wider_search_no_longer_detour :
    Radius.nine.value ≤ 4096 ∧ ∃ p wide, compile 9 = .ok p ∧ compile 4096 = .ok wide ∧
      p.window.offsets.toList <+: wide.window.offsets.toList ∧
      p.schedule.placements <+: wide.schedule.placements ∧
      p.schedule.initialSteps <+: wide.schedule.initialSteps ∧
      (∀ x y cell, p.table.lookup x y = some cell → wide.table.lookup x y = some cell) ∧
      ∀ rounds, ∃ es es', p.estimates Terrain.detour rounds = .ok es ∧
        wide.estimates Terrain.detour rounds = .ok es' ∧
        es.size = p.window.size ∧ es'.size = wide.window.size ∧
        ∀ o, Radius.nine.Sees o → ∃ e e', es.at? p.window o = some e ∧
          es'.at? wide.window o = some e' ∧ e'.length ≤ e.length ∧ (rounds = 0 → e' = e) := by
  have hradius : Radius.nine.value ≤ (⟨4096, by decide, by decide⟩ : Radius).value := by decide
  obtain ⟨p, wide, hcompile, hcompile', hoffsets, hplacements, hsteps, hlookup, hsearch⟩ :=
    wider_search_no_longer hradius
  exact ⟨hradius, p, wide, hcompile, hcompile', hoffsets, hplacements, hsteps, hlookup,
    hsearch Terrain.detour (Terrain.detour_regular _).inRange⟩

end Pathfinder

end GridRoute
