import GridRoute.Proofs.ScheduleContent

/-!
What a schedule asks of its window. Each stage asks for neighbours of the cells beyond the seeds and fails on the
first of them that is missing; apart from that nothing fails near the origin. The schedule exists if all of them
are there.
-/

namespace GridRoute

open Sequencing

namespace Window

/-- The computation fails on the first offset asked for that the window has not, and succeeds if it has all. -/
def Asks {β : Type} (w : Window) (demands : List Offset) (x : Except CompileError β) : Prop :=
  match demands.find? fun n => n ∉ w.offsets with
  | none => ∃ b, x = .ok b
  | some n => x = .error (.missingCell n)

namespace Asks

variable {α β γ : Type} {w : Window} {demands further : List Offset} {x : Except CompileError β}

theorem ok (w : Window) (b : β) : w.Asks [] (.ok b) := ⟨b, rfl⟩

theorem exists_ok_iff (h : w.Asks demands x) : (∃ b, x = .ok b) ↔ ∀ n ∈ demands, n ∈ w.offsets := by
  unfold Asks at h
  cases hfind : demands.find? fun n => n ∉ w.offsets with
  | none =>
    rw [hfind] at h
    have hall := List.find?_eq_none.mp hfind
    simp only [decide_eq_true_eq, Decidable.not_not] at hall
    exact iff_of_true h hall
  | some n =>
    rw [hfind] at h
    refine iff_of_false ?_ fun hall => ?_
    · rintro ⟨b, rfl⟩
      cases h
    · have hmissing := List.find?_some hfind
      simp only [decide_eq_true_eq] at hmissing
      exact hmissing (hall n (List.mem_of_find?_eq_some hfind))

theorem eq_error_iff (h : w.Asks demands x) {error : CompileError} :
    x = .error error ↔
      ∃ n, error = .missingCell n ∧ demands.find? (fun n => n ∉ w.offsets) = some n := by
  unfold Asks at h
  cases hfind : demands.find? fun n => n ∉ w.offsets with
  | none =>
    rw [hfind] at h
    obtain ⟨b, rfl⟩ := h
    simp
  | some n =>
    rw [hfind] at h
    rw [h]
    simp [eq_comm]

theorem bind (h : w.Asks demands x) {f : β → Except CompileError γ}
    (hf : ∀ b, x = .ok b → w.Asks further (f b)) : w.Asks (demands ++ further) (x >>= f) := by
  unfold Asks at h
  rw [Asks, List.find?_append]
  cases hfind : demands.find? fun n => n ∉ w.offsets with
  | none =>
    rw [hfind] at h
    obtain ⟨b, rfl⟩ := h
    exact hf b rfl
  | some n =>
    rw [hfind] at h
    rw [h]
    rfl

theorem bind_ok (h : w.Asks demands x) {f : β → Except CompileError γ}
    (hf : ∀ b, x = .ok b → ∃ c, f b = .ok c) : w.Asks demands (x >>= f) :=
  List.append_nil demands ▸ h.bind hf

theorem require (w : Window) (n : Offset) : w.Asks [n] (w.require n) := by
  rw [Asks]
  by_cases hmem : n ∈ w.offsets
  · obtain ⟨cell, hcell⟩ := mem_offsets_iff.mp hmem
    rw [List.find?_singleton, if_neg (by simpa using hmem)]
    exact ⟨cell, require_eq_ok_iff.mpr hcell⟩
  · rw [List.find?_singleton, if_pos (by simpa using hmem), Window.require]
    cases hindex : w.index? n with
    | none => rfl
    | some cell => exact absurd (mem_offsets_iff.mpr ⟨cell, index?_eq_some_iff.mp hindex⟩) hmem

theorem mapM {f : α → Except CompileError β} {asked : α → List Offset} {xs : List α}
    (h : ∀ x ∈ xs, w.Asks (asked x) (f x)) : w.Asks (xs.flatMap asked) (xs.mapM f) := by
  induction xs with
  | nil => exact ok w []
  | cons x xs ih =>
    obtain ⟨hfirst, hrest⟩ := List.forall_mem_cons.mp h
    rw [List.flatMap_cons, List.mapM_cons]
    exact hfirst.bind fun b _ => (ih hrest).bind_ok fun bs _ => ⟨b :: bs, rfl⟩

end Asks

def outerOffsets (w : Window) : List Offset :=
  w.offsets.toList.filter fun o => Offset.seedDistance < o.norm

theorem mem_outerOffsets {w : Window} {o : Offset} :
    o ∈ w.outerOffsets ↔ o ∈ w.offsets ∧ Offset.seedDistance < o.norm := by
  simp [outerOffsets]

def anchors (w : Window) : List Offset := w.outerOffsets.flatMap fun o => o.anchor.toOption.toList

def nearerNeighbors (w : Window) : List Offset := w.outerOffsets.flatMap Offset.closerNeighbors

def roundNeighbors (w : Window) : List Offset := w.outerOffsets.flatMap w.outerNeighbors

theorem Asks.mapM_cells {β : Type} {w : Window} {f : Offset → Nat → Except CompileError β}
    {asked : Offset → List Offset}
    (h : ∀ cell o, w.offset? cell = some o →
      w.Asks (if Offset.seedDistance < o.norm then asked o else []) (f o cell)) :
    w.Asks (w.outerOffsets.flatMap asked) (w.cells.mapM fun (o, cell) => f o cell) := by
  have houter : w.outerOffsets.flatMap asked =
      w.cells.flatMap fun entry => if Offset.seedDistance < entry.1.norm then asked entry.1 else [] := by
    rw [outerOffsets, cells]
    generalize 0 = first
    induction w.offsets.toList generalizing first with
    | nil => rfl
    | cons o offsets ih =>
      rw [List.zipIdx_cons, List.flatMap_cons, ← ih, List.filter_cons]
      by_cases hfar : Offset.seedDistance < o.norm
      · rw [if_pos (decide_eq_true hfar), List.flatMap_cons, if_pos hfar]
      · rw [if_neg (by simpa using hfar), if_neg hfar, List.nil_append]
  rw [houter]
  exact Asks.mapM fun entry hmem => h entry.2 entry.1 (mem_cells_iff.mp hmem)

section Cell

variable {w : Window} {o : Offset} {cell : Nat}

theorem sources_asks (h : o.Moderate) (accept : Offset → Except Fault Bool) (keep : Offset → Bool)
    (haccept : ∀ d, accept (o.neighbor d) = .ok (keep (o.neighbor d))) (ds : List Direction) :
    w.Asks ((ds.map o.neighbor).filter keep) (w.sources o accept ds) := by
  induction ds with
  | nil => exact .ok w []
  | cons d ds ih =>
    rw [sources, h.step_eq, lift_ok, ok_bind, haccept, lift_ok, ok_bind, List.map_cons]
    by_cases hkeep : keep (o.neighbor d)
    · rw [if_pos hkeep, List.filter_cons_of_pos hkeep]
      exact (Asks.require w _).bind fun source _ => ih.bind_ok fun rest _ => ⟨source :: rest, rfl⟩
    · rw [if_neg hkeep, List.filter_cons_of_neg hkeep]
      exact ih

theorem placement_asks (h : o.Moderate) (hcell : w.offset? cell = some o) :
    w.Asks (if Offset.seedDistance < o.norm then o.anchor.toOption.toList else [])
      (w.placement o cell) := by
  obtain ⟨start, hstart⟩ := Offset.exists_anchor_eq_ok h
  rw [placement, hstart, ok_bind]
  rcases Offset.anchor_eq_ok h hstart with ⟨hseed, rfl⟩ | ⟨hfar, hcloser⟩
  · obtain ⟨d, hd⟩ := Offset.exists_neighbor_eq_origin hseed
    have hdirection := Offset.directionTo_neighbor Offset.origin d.opposite
    rw [Offset.origin_neighbor_opposite hd] at hdirection
    rw [if_neg (Nat.not_lt.mpr hseed), hdirection, lift_ok, ok_bind]
    exact .ok w _
  · obtain ⟨hadjacent, hless⟩ := Offset.mem_closerNeighbors.mp hcloser
    have horigin := Offset.ne_origin_of_adjacent hfar hadjacent
    obtain ⟨d, -, hd⟩ := List.mem_map.mp (Offset.mem_neighborhood.mpr hadjacent.symm)
    have hdirection := Offset.directionTo_neighbor start d
    rw [hd] at hdirection
    rw [if_pos hfar, hdirection, lift_ok, ok_bind]
    dsimp only
    rw [if_neg (by simpa [Offset.isOrigin] using horigin)]
    refine (Asks.require w start).bind_ok fun earlier hearlier => ?_
    have horder := lt_of_norm_lt (require_eq_ok_iff.mp hearlier) hcell hless
    rw [if_neg (Nat.not_le.mpr horder)]
    exact ⟨_, rfl⟩

theorem initialStep_asks (h : o.Moderate) :
    w.Asks (if Offset.seedDistance < o.norm then o.closerNeighbors else [])
      (w.initialStep o cell) := by
  rw [initialStep, h.isSeed_eq, lift_ok, ok_bind]
  by_cases hseed : o.norm ≤ Offset.seedDistance
  · obtain ⟨d, hd⟩ := Offset.exists_neighbor_eq_origin hseed
    have hdirection := Offset.directionTo_neighbor o d
    rw [hd] at hdirection
    rw [if_neg (Nat.not_lt.mpr hseed), if_pos (decide_eq_true hseed), hdirection, lift_ok, ok_bind]
    exact .ok w _
  · have hfar := Nat.lt_of_not_le hseed
    have hsources := sources_asks (w := w) h (fun n => do return (← n.squaredDistance) < o.norm)
      (fun n => n.norm < o.norm) (fun d => nearer_eq (h.squaredDistance_neighbor d))
      Direction.scanOrder
    rw [if_pos hfar, if_neg (by simpa using hseed), h.squaredDistance_eq, lift_ok, ok_bind]
    refine hsources.bind_ok fun found hfound => ?_
    have hsome : o.closerNeighbors ≠ [] := by
      obtain ⟨n, hn, hless, -⟩ := Offset.exists_closer_neighbor hfar
      exact List.ne_nil_of_mem
        (Offset.mem_closerNeighbors.mpr ⟨Offset.mem_neighborhood.mp hn, hless⟩)
    have hnumbers : w.Numbers o.closerNeighbors found :=
      (sources_eq_ok_iff h _ (fun n => n.norm < o.norm)
        fun d => nearer_eq (h.squaredDistance_neighbor d)).mp hfound
    rw [hnumbers.isEmpty_eq_false hsome]
    exact ⟨_, rfl⟩

theorem extraRelaxation?_asks (h : o.Moderate) :
    w.Asks (if Offset.seedDistance < o.norm then w.outerNeighbors o else [])
      (w.extraRelaxation? o cell) := by
  rw [extraRelaxation?, h.isSeed_eq, lift_ok, ok_bind]
  by_cases hseed : o.norm ≤ Offset.seedDistance
  · rw [if_neg (Nat.not_lt.mpr hseed), if_pos (decide_eq_true hseed)]
    exact .ok w _
  · rw [if_pos (Nat.lt_of_not_le hseed), if_neg (by simpa using hseed)]
    exact (sources_asks h _ (fun n => Offset.seedDistance < n.norm ∧ n.norm ≤ w.radius)
      (fun d => inReach_eq (h.squaredDistance_neighbor d)) _).bind_ok fun _ _ => ⟨_, rfl⟩

end Cell

section Stages

variable {w : Window} (moderate : ∀ o ∈ w.offsets, o.Moderate)

include moderate

theorem placements_asks : w.Asks w.anchors w.placements :=
  .mapM_cells fun _ o hcell => placement_asks (moderate o (mem_offsets_iff.mpr ⟨_, hcell⟩)) hcell

theorem initialSteps_asks : w.Asks w.nearerNeighbors w.initialSteps :=
  .mapM_cells fun _ o hcell => initialStep_asks (moderate o (mem_offsets_iff.mpr ⟨_, hcell⟩))

theorem extraRound_asks : w.Asks w.roundNeighbors w.extraRound := by
  have hchoices : w.Asks w.roundNeighbors (w.cells.mapM fun (o, cell) => w.extraRelaxation? o cell) :=
    .mapM_cells fun _ o hcell => extraRelaxation?_asks (moderate o (mem_offsets_iff.mpr ⟨_, hcell⟩))
  exact hchoices.bind_ok fun choices _ => ⟨choices.filterMap id, rfl⟩

theorem schedule_asks : w.Asks (w.anchors ++ (w.nearerNeighbors ++ w.roundNeighbors)) w.schedule :=
  (placements_asks moderate).bind fun _ _ => (initialSteps_asks moderate).bind fun _ _ =>
    (extraRound_asks moderate).bind_ok fun _ _ => ⟨_, rfl⟩

/-- The three stages together ask for all neighbours in reach of the cells beyond the seeds. -/
theorem mem_demands_iff {n : Offset} :
    n ∈ w.anchors ++ (w.nearerNeighbors ++ w.roundNeighbors) ↔
      ∃ o ∈ w.offsets, Offset.seedDistance < o.norm ∧ o.Adjacent n ∧ n.norm ≤ w.radius := by
  have hnearer {o : Offset} (ho : o ∈ w.offsets) (hn : n ∈ o.closerNeighbors) :
      o.Adjacent n ∧ n.norm ≤ w.radius := by
    obtain ⟨hadjacent, hless⟩ := Offset.mem_closerNeighbors.mp hn
    exact ⟨hadjacent, Nat.le_trans (Nat.le_of_lt hless) (w.norm_le_radius o ho)⟩
  simp only [List.mem_append, anchors, nearerNeighbors, roundNeighbors, List.mem_flatMap,
    mem_outerOffsets]
  constructor
  · rintro (⟨o, ⟨ho, hfar⟩, hn⟩ | ⟨o, ⟨ho, hfar⟩, hn⟩ | ⟨o, ⟨ho, hfar⟩, hn⟩)
    · obtain ⟨start, hstart⟩ := Offset.exists_anchor_eq_ok (moderate o ho)
      rw [hstart] at hn
      obtain rfl : n = start := by simpa [Except.toOption] using hn
      rcases Offset.anchor_eq_ok (moderate o ho) hstart with ⟨hseed, -⟩ | ⟨-, hcloser⟩
      · omega
      · exact ⟨o, ho, hfar, hnearer ho hcloser⟩
    · exact ⟨o, ho, hfar, hnearer ho hn⟩
    · obtain ⟨hadjacent, -, hinside⟩ := mem_outerNeighbors.mp hn
      exact ⟨o, ho, hfar, hadjacent, hinside⟩
  · rintro ⟨o, ho, hfar, hadjacent, hinside⟩
    by_cases hseed : n.norm ≤ Offset.seedDistance
    · exact .inr (.inl ⟨o, ⟨ho, hfar⟩, Offset.mem_closerNeighbors.mpr ⟨hadjacent, by omega⟩⟩)
    · exact .inr (.inr ⟨o, ⟨ho, hfar⟩, mem_outerNeighbors.mpr ⟨hadjacent, by omega, hinside⟩⟩)

theorem exists_schedule_iff : (∃ s, w.schedule = .ok s) ↔
    ∀ o ∈ w.offsets, Offset.seedDistance < o.norm →
      ∀ n, o.Adjacent n → n.norm ≤ w.radius → n ∈ w.offsets := by
  rw [(schedule_asks moderate).exists_ok_iff]
  constructor
  · intro hall o ho hfar n hadjacent hinside
    exact hall n ((mem_demands_iff moderate).mpr ⟨o, ho, hfar, hadjacent, hinside⟩)
  · intro hall n hn
    obtain ⟨o, ho, hfar, hadjacent, hinside⟩ := (mem_demands_iff moderate).mp hn
    exact hall o ho hfar n hadjacent hinside

end Stages

theorem IsDisc.exists_schedule {w : Window} (h : w.IsDisc) : ∃ s, w.schedule = .ok s :=
  (exists_schedule_iff h.moderate).mpr fun _ _ hfar n hadjacent hinside =>
    (h.mem_iff n).mpr ⟨Offset.ne_origin_of_adjacent hfar hadjacent, hinside⟩

end Window

end GridRoute
