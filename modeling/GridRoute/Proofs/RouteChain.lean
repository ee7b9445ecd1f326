import GridRoute.Proofs.Convergence

/-!
Chains of predecessors. An offer copies the length and the move of a source, and the source may find a
shorter way later on. A chain is therefore never longer than the length at its end, and while both agree the
move at its end is the one of its seed. They agree after the first pass, and once a round changes nothing.
-/

namespace GridRoute

/-- The predecessor accounts for the estimate: a seed has just its own step, and another cell is no nearer
than by way of the predecessor. If it is as near, it has the move of the predecessor. -/
def Estimate.Linked (e : Estimate) (es : Estimates) (w : Window) (o : Offset) : Prop :=
  match e.predecessor with
  | none => e.length = Cost.unreached
  | some .origin => o.norm ≤ Offset.seedDistance ∧ o.neighbor e.best = Offset.origin ∧
      e.length = Cost.step + e.cost
  | some (.cell source) => Offset.seedDistance < o.norm ∧
      ∃ n, w.offset? source = some n ∧ o.Adjacent n ∧
        (es.record source).length + e.cost ≤ e.length ∧
        ((es.record source).length + e.cost = e.length → e.best = (es.record source).best)

namespace Estimates

def Linked (es : Estimates) (w : Window) : Prop :=
  ∀ cell o, w.offset? cell = some o → (es.record cell).Linked es w o

/-- A cell may change at the end of other chains as long as its length comes down, or stays and the move
with it. -/
theorem Linked.set {es : Estimates} {w : Window} (h : es.Linked w) {cell : Nat} {o : Offset}
    (hcell : w.offset? cell = some o) (hlt : cell < es.size) {e : Estimate} (he : e.Linked es w o)
    (hother : e.predecessor ≠ some (.cell cell)) (hle : e.length ≤ (es.record cell).length)
    (hbest : e.length = (es.record cell).length → e.best = (es.record cell).best) :
    (es.set cell e).Linked w := by
  intro other n hn
  by_cases heq : other = cell
  · subst heq
    obtain rfl : o = n := Option.some.inj (hcell.symm.trans hn)
    rw [record_set_self hlt]
    unfold Estimate.Linked at he ⊢
    split at he
    · exact he
    · exact he
    · rename_i source hsource
      have hne : source ≠ other := by
        rintro rfl
        exact hother hsource
      rw [record_set_of_ne _ hne]
      exact he
  · rw [record_set_of_ne _ heq]
    have hlink := h other n hn
    unfold Estimate.Linked at hlink ⊢
    split at hlink
    · exact hlink
    · exact hlink
    · rename_i source hsource
      -- Only a cell that names the changed one looks at its length and move.
      by_cases hself : source = cell
      · subst hself
        obtain ⟨hfar, m, hm, hadjacent, hlength, hmove⟩ := hlink
        rw [record_set_self hlt]
        refine ⟨hfar, m, hm, hadjacent, by omega, fun hequal => ?_⟩
        rw [hbest (by omega), hmove (by omega)]
      · rw [record_set_of_ne _ hself]
        exact hlink

def chainCost (es : Estimates) (chain : List Nat) : Int :=
  (chain.map fun cell => (es.record cell).cost).sum

@[simp] theorem chainCost_cons (es : Estimates) (cell : Nat) (chain : List Nat) :
    es.chainCost (cell :: chain) = (es.record cell).cost + es.chainCost chain := by
  simp [chainCost]

theorem trace_eq_some_iff {es : Estimates} {steps cell : Nat} {chain : List Nat}
    (hlt : cell < es.size) :
    es.trace (steps + 1) cell = some chain ↔
      (es.record cell).predecessor = some .origin ∧ chain = [cell] ∨
      ∃ source rest, (es.record cell).predecessor = some (.cell source) ∧
        es.trace steps source = some rest ∧ chain = cell :: rest := by
  rw [trace, getElem?_eq_some_record hlt, Option.bind_some]
  cases (es.record cell).predecessor with
  | none => simp
  | some previous =>
    cases previous with
    | origin => simp [eq_comm]
    | cell source => simp [eq_comm]

theorem lt_size_of_trace {es : Estimates} {steps cell : Nat} {chain : List Nat}
    (h : es.trace steps cell = some chain) : cell < es.size := by
  cases steps with
  | zero => cases h
  | succ steps =>
    by_contra hout
    rw [trace, Array.getElem?_eq_none (Nat.le_of_not_lt hout)] at h
    cases h

/-- A chain leads to a seed, is no longer than the length at its end says, and if it is as long, then the
move at its end is the one of the seed. -/
theorem Linked.exists_seed {es : Estimates} {w : Window} (h : es.Linked w) (hsize : es.size = w.size)
    {steps cell : Nat} {chain : List Nat} (htrace : es.trace steps cell = some chain) :
    ∃ root s, chain.getLast? = some root ∧ w.offset? root = some s ∧
      s.norm ≤ Offset.seedDistance ∧ s.neighbor (es.record root).best = Offset.origin ∧
      Cost.step + es.chainCost chain ≤ (es.record cell).length ∧
      (Cost.step + es.chainCost chain = (es.record cell).length →
        (es.record cell).best = (es.record root).best) := by
  induction steps generalizing cell chain with
  | zero => cases htrace
  | succ steps ih =>
    have hlt := lt_size_of_trace htrace
    obtain ⟨o, hcell⟩ := Window.exists_offset? (w := w) (hsize ▸ hlt)
    have hlink := h cell o hcell
    unfold Estimate.Linked at hlink
    rcases (trace_eq_some_iff hlt).mp htrace with ⟨horigin, rfl⟩ | ⟨source, rest, hsource, hrest, rfl⟩
    · rw [horigin] at hlink
      obtain ⟨hseed, hmove, hlength⟩ := hlink
      refine ⟨cell, o, rfl, hcell, hseed, hmove, ?_, fun _ => rfl⟩
      simp [chainCost, hlength]
    · rw [hsource] at hlink
      obtain ⟨-, n, hn, -, hlength, hbest⟩ := hlink
      obtain ⟨root, s, hlast, hroot, hseed, hmove, hcost, hsame⟩ := ih hrest
      refine ⟨root, s, ?_, hroot, hseed, hmove, ?_, fun hequal => ?_⟩
      · rw [List.getLast?_cons, hlast]
        rfl
      · rw [chainCost_cons]
        omega
      · rw [chainCost_cons] at hequal
        rw [hbest (by omega), hsame (by omega)]

theorem Linked.chainCost_eq {es : Estimates} {w : Window} (h : es.Linked w) (hsize : es.size = w.size)
    (fresh : ∀ cell source, cell < es.size → (es.record cell).predecessor = some (.cell source) →
      (es.record cell).length ≤ (es.record source).length + (es.record cell).cost)
    {steps cell : Nat} {chain : List Nat} (htrace : es.trace steps cell = some chain) :
    Cost.step + es.chainCost chain = (es.record cell).length := by
  induction steps generalizing cell chain with
  | zero => cases htrace
  | succ steps ih =>
    have hlt := lt_size_of_trace htrace
    obtain ⟨o, hcell⟩ := Window.exists_offset? (w := w) (hsize ▸ hlt)
    have hlink := h cell o hcell
    unfold Estimate.Linked at hlink
    rcases (trace_eq_some_iff hlt).mp htrace with ⟨horigin, rfl⟩ | ⟨source, rest, hsource, hrest, rfl⟩
    · rw [horigin] at hlink
      simp [chainCost, hlink.2.2]
    · rw [hsource] at hlink
      obtain ⟨-, n, hn, -, hlength, -⟩ := hlink
      have hcopied := fresh cell source hlt hsource
      have htail := ih hrest
      rw [chainCost_cons]
      omega

end Estimates

theorem Offset.neighbor_injective {o : Offset} {d d' : Direction} (h : o.neighbor d = o.neighbor d') :
    d = d' := by
  have hx := congrArg Offset.x h
  have hy := congrArg Offset.y h
  simp only [neighbor_x, neighbor_y] at hx hy
  exact Direction.delta_injective (Prod.ext (by omega) (by omega))

namespace Pathfinder

namespace Serves

variable {p : Pathfinder} {radius : Radius} {t : Terrain}

theorem linked_sensed (p : Pathfinder) (t : Terrain) : (t.sensed p.window).Linked p.window := by
  intro cell o hcell
  rw [t.record_sensed hcell]
  unfold Terrain.sense
  split <;> exact rfl

theorem linked_seeded (h : p.Serves radius) (regular : t.Regular radius) {es : Estimates}
    {cell : Nat} {o : Offset} {d : Direction} (hlt : cell < es.size)
    (hcell : p.window.offset? cell = some o) (hseed : o.norm ≤ Offset.seedDistance)
    (hd : o.neighbor d = Offset.origin) (hopen : (es.record cell).position.isSome)
    (sound : es.Sound t radius p.window) (linked : es.Linked p.window) :
    (es.set cell ((es.record cell).seeded d)).Linked p.window := by
  have hsound := sound cell o hcell
  have enters := hsound.enters hopen
  have hcost := regular.costAt_bounds (h.sees hcell) enters
  have hlength := hsound.length_seeded regular (h.sees hcell) enters d
  have hlink := linked cell o hcell
  have hbefore : (es.record cell).length = Cost.unreached ∨
      o.neighbor (es.record cell).best = Offset.origin ∧
        (es.record cell).length = Cost.step + t.costAt o := by
    unfold Estimate.Linked at hlink
    split at hlink
    · exact .inl hlink
    · rw [hsound.cost_eq enters] at hlink
      exact .inr hlink.2
    · exact absurd hseed (Nat.not_le.mpr hlink.1)
  refine linked.set hcell hlt ?_ (by simp [Estimate.seeded]) ?_ fun hsame => ?_
  · refine ⟨hseed, hd, ?_⟩
    rw [hlength, ← hsound.cost_eq enters]
    rfl
  · rw [hlength]
    unfold Cost.step Cost.unreached at *
    omega
  · rw [hlength] at hsame
    rcases hbefore with hfar | ⟨hmove, -⟩
    · unfold Cost.step Cost.unreached at *
      omega
    · exact Offset.neighbor_injective (hd.trans hmove.symm)

theorem linked_offered (h : p.Serves radius) (regular : t.Regular radius) {es : Estimates}
    {cell source : Nat} {o n : Offset} (hlt : cell < es.size)
    (hcell : p.window.offset? cell = some o) (hsource : p.window.offset? source = some n)
    (hadjacent : o.Adjacent n) (hfar : Offset.seedDistance < o.norm)
    (hopen : (es.record cell).position.isSome) (sound : es.Sound t radius p.window)
    (linked : es.Linked p.window) : (Estimates.offered cell es source).Linked p.window := by
  have hsound := sound cell o hcell
  have enters := hsound.enters hopen
  have hadd := (sound source n hsource).add_cost regular (h.sees hcell) enters
  rw [← hsound.cost_eq enters] at hadd
  by_cases hless : Cost.add (es.record source).length (es.record cell).cost < (es.record cell).length
  · rw [Estimates.offered, Estimate.improve_of_lt _ _ _ hless]
    refine linked.set hcell hlt ?_ ?_ (Int.le_of_lt hless) fun hsame => ?_
    · exact ⟨hfar, n, hsource, hadjacent, by simp only [hadd]; exact Int.le_refl _, fun _ => rfl⟩
    · intro hself
      obtain rfl : source = cell := by simpa using hself
      exact hadjacent.1 (Option.some.inj (hcell.symm.trans hsource))
    · exact absurd hless (by rw [← hsame]; exact Int.lt_irrefl _)
  · rw [Estimates.offered, Estimate.improve_of_le _ _ _ (Int.not_lt.mp hless), Estimates.set_record]
    exact linked

theorem linked_after (h : p.Serves radius) (regular : t.Regular radius) (rounds : Nat) :
    (p.after t rounds).Linked p.window := by
  refine (h.after_induction (P := fun es => es.Sound t radius p.window ∧ es.Linked p.window)
    ?_ ?_ ⟨?_, linked_sensed p t⟩ rounds).2
  · rintro es cell o d hsize hcell hseed hd hopen ⟨sound, linked⟩
    have hlt : cell < es.size := hsize ▸ Window.offset?_lt_size hcell
    exact ⟨h.sound_seeded regular hsize hcell hseed hd hopen sound,
      h.linked_seeded regular hlt hcell hseed hd hopen sound linked⟩
  · rintro es cell source o n hsize hcell hsource hadjacent hfar hopen ⟨sound, linked⟩
    have hlt : cell < es.size := hsize ▸ Window.offset?_lt_size hcell
    exact ⟨h.sound_offered regular hsize hcell hsource hadjacent hopen sound,
      h.linked_offered regular hlt hcell hsource hadjacent hfar hopen sound linked⟩
  · exact h.sound_sensed regular

theorem exists_source (h : p.Serves radius) (regular : t.Regular radius) {rounds cell source : Nat}
    (hlt : cell < p.window.size)
    (hpredecessor : ((p.after t rounds).record cell).predecessor = some (.cell source)) :
    ∃ o n, p.window.offset? cell = some o ∧ p.window.offset? source = some n ∧ t.Enters o ∧
      Offset.seedDistance < o.norm ∧ o.Adjacent n ∧
      ((p.after t rounds).record cell).cost = t.costAt o ∧
      ∀ k, Cost.add ((p.after t k).record source).length (t.costAt o) =
        ((p.after t k).record source).length + t.costAt o := by
  obtain ⟨o, hcell⟩ := Window.exists_offset? hlt
  have sound := h.sound_after regular rounds cell o hcell
  have enters : t.Enters o := by
    by_contra blocked
    rw [sound.eq_closed blocked] at hpredecessor
    cases hpredecessor
  have hlink := h.linked_after regular rounds cell o hcell
  rw [Estimate.Linked, hpredecessor] at hlink
  obtain ⟨hfar, n, hsource, hadjacent, -, -⟩ := hlink
  exact ⟨o, n, hcell, hsource, enters, hfar, hadjacent, sound.cost_eq enters, fun k =>
    (h.sound_after regular k source n hsource).add_cost regular (h.sees hcell) enters⟩

theorem fresh_start (h : p.Serves radius) (regular : t.Regular radius) {cell source : Nat}
    (hlt : cell < p.window.size)
    (hpredecessor : ((p.after t 0).record cell).predecessor = some (.cell source)) :
    ((p.after t 0).record cell).length =
      ((p.after t 0).record source).length + ((p.after t 0).record cell).cost := by
  obtain ⟨o, n, hcell, hsource, enters, hfar, -, hcost, hadd⟩ :=
    h.exists_source regular hlt hpredecessor
  have hrecord := h.record_start_relax regular hcell hfar enters
  rw [hcost, ← hadd 0]
  rw [hrecord] at hpredecessor ⊢
  rcases Estimate.improveAll_eq
    ⟨some (t.agent.displaced o), Cost.unreached, t.costAt o, .center, none⟩
    (p.after t 0) (o.closerNeighbors.map p.window.cellAt) with hkept | ⟨via, -, htaken, hless⟩
  · rw [hkept] at hpredecessor
    cases hpredecessor
  · rw [htaken, Estimate.improve_of_lt _ _ _ hless] at hpredecessor ⊢
    obtain rfl : via = source := by simpa using hpredecessor
    rfl

/-- When a round changes nothing, no source is nearer than it was when it was copied. -/
theorem fresh_settled (h : p.Serves radius) (regular : t.Regular radius) {rounds : Nat}
    (settled : p.after t (rounds + 1) = p.after t rounds) {cell source : Nat}
    (hlt : cell < p.window.size)
    (hpredecessor : ((p.after t rounds).record cell).predecessor = some (.cell source)) :
    ((p.after t rounds).record cell).length ≤
      ((p.after t rounds).record source).length + ((p.after t rounds).record cell).cost := by
  obtain ⟨o, n, hcell, hsource, enters, hfar, hadjacent, hcostEq, hadd⟩ :=
    h.exists_source regular hlt hpredecessor
  have sound := h.sound_after regular rounds
  have hcost := regular.costAt_bounds (h.sees hcell) enters
  rw [hcostEq]
  by_cases hn : t.Enters n
  · by_cases hseed : n.norm ≤ Offset.seedDistance
    · have hmono := length_after_le p t (Nat.zero_le rounds) cell
      have hstart := h.length_start_le regular hcell hsource hfar hadjacent (by omega) enters
      have hseeded := h.length_after_seed regular hsource hseed hn
      rw [hadd, hseeded] at hstart
      rw [hseeded]
      exact Int.le_trans hmono hstart
    · have hround := h.length_after_succ_le regular hcell hsource hfar hadjacent
        (Nat.lt_of_not_le hseed) enters rounds
      rw [settled, hadd] at hround
      exact hround
  · have hfinal := (sound cell o hcell).length_le
    rw [(sound source n hsource).eq_closed hn]
    change _ ≤ Cost.unreached + t.costAt o
    omega

/-- A round reads the new estimates of the neighbours that come no later and the old ones of the others. -/
theorem record_after_succ_eq (h : p.Serves radius) (regular : t.Regular radius) {o : Offset}
    (sees : radius.Sees o) (hfar : Offset.seedDistance < o.norm) (enters : t.Enters o)
    (hsome : p.window.outerNeighbors o ≠ []) (rounds : Nat) :
    (p.after t (rounds + 1)).record (p.window.cellAt o) = (p.window.outerNeighbors o).foldl
      (fun e n => e.improve (p.window.cellAt n)
        ((p.after t (if n.NoLater o then rounds + 1 else rounds)).record (p.window.cellAt n)))
      ((p.after t rounds).record (p.window.cellAt o)) := by
  have hcell := h.offset?_cellAt sees
  obtain ⟨middle, hrecord, hearlier, hlater⟩ :=
    h.record_after_succ regular hcell hfar enters hsome rounds
  rw [hrecord, Estimate.improveAll, List.foldl_map]
  refine List.foldl_ext _ _ _ fun e n hn => ?_
  obtain ⟨hadjacent, -, hinside⟩ := Window.mem_outerNeighbors.mp hn
  have hsource := h.offset?_cellAt (o := n)
    ⟨Offset.ne_origin_of_adjacent hfar hadjacent, h.window_radius ▸ hinside⟩
  by_cases horder : n.NoLater o
  · have hlt : p.window.cellAt n < p.window.cellAt o := h.disc.lt_of_not_noLater hsource hcell
      fun hback => hadjacent.1 (hback.antisymm horder)
    rw [if_pos horder, hearlier _ hlt]
  · rw [if_neg horder, hlater _ (Nat.le_of_lt (h.disc.lt_of_not_noLater hcell hsource horder))]

section Detour

open Terrain

theorem detour_closed (h : p.Serves .nine) (rounds : Nat) {o : Offset} (sees : Radius.nine.Sees o)
    (blocked : ¬ detour.Enters o) :
    (p.after detour rounds).record (p.window.cellAt o) = Estimate.closed :=
  (h.sound_after (detour_regular _) rounds _ o (h.offset?_cellAt sees)).eq_closed blocked

theorem detour_start (h : p.Serves .nine) :
    (p.after detour 0).record (p.window.cellAt ⟨-1, 0⟩) =
        ⟨some ⟨4, 5⟩, 20, 10, .east, some .origin⟩ ∧
      (p.after detour 0).record (p.window.cellAt ⟨-2, 1⟩) =
        ⟨some ⟨3, 6⟩, 30, 10, .east, some (.cell (p.window.cellAt ⟨-1, 0⟩))⟩ ∧
      (p.after detour 0).record (p.window.cellAt ⟨-1, 2⟩) =
        ⟨some ⟨4, 7⟩, 60, 10, .southEast, some (.cell (p.window.cellAt ⟨-1, 1⟩))⟩ ∧
      (p.after detour 0).record (p.window.cellAt ⟨1, 2⟩) =
        ⟨some ⟨6, 7⟩, Cost.unreached, 10, .center, none⟩ ∧
      (p.after detour 0).record (p.window.cellAt ⟨0, 3⟩) =
        ⟨some ⟨5, 8⟩, 70, 10, .southEast, some (.cell (p.window.cellAt ⟨-1, 2⟩))⟩ := by
  have regular := detour_regular .nine
  have west : (p.after detour 0).record (p.window.cellAt ⟨-1, 0⟩) =
      ⟨some ⟨4, 5⟩, 20, 10, .east, some .origin⟩ := by
    obtain ⟨d, hd, hrecord⟩ := h.record_start_seed regular
      (h.offset?_cellAt (o := ⟨-1, 0⟩) (by decide)) (by decide) (by decide)
    obtain rfl : d = .east := Offset.neighbor_injective hd
    exact hrecord
  have rubble : (p.after detour 0).record (p.window.cellAt ⟨-1, 1⟩) =
      ⟨some ⟨4, 6⟩, 50, 40, .southEast, some .origin⟩ := by
    obtain ⟨d, hd, hrecord⟩ := h.record_start_seed regular
      (h.offset?_cellAt (o := ⟨-1, 1⟩) (by decide)) (by decide) (by decide)
    obtain rfl : d = .southEast := Offset.neighbor_injective hd
    exact hrecord
  have bend : (p.after detour 0).record (p.window.cellAt ⟨-2, 1⟩) =
      ⟨some ⟨3, 6⟩, 30, 10, .east, some (.cell (p.window.cellAt ⟨-1, 0⟩))⟩ := by
    rw [h.record_start_relax regular (h.offset?_cellAt (o := ⟨-2, 1⟩) (by decide)) (by decide)
        (by decide),
      show (⟨-2, 1⟩ : Offset).closerNeighbors = [⟨-2, 0⟩, ⟨-1, 0⟩, ⟨-1, 1⟩] by decide]
    simp (disch := decide) only [Estimate.improveAll, List.map, List.foldl, h.detour_closed, west,
      rubble]
    rfl
  have gap : (p.after detour 0).record (p.window.cellAt ⟨-1, 2⟩) =
      ⟨some ⟨4, 7⟩, 60, 10, .southEast, some (.cell (p.window.cellAt ⟨-1, 1⟩))⟩ := by
    rw [h.record_start_relax regular (h.offset?_cellAt (o := ⟨-1, 2⟩) (by decide)) (by decide)
        (by decide),
      show (⟨-1, 2⟩ : Offset).closerNeighbors = [⟨-1, 1⟩, ⟨0, 1⟩, ⟨0, 2⟩] by decide]
    simp (disch := decide) only [Estimate.improveAll, List.map, List.foldl, h.detour_closed, rubble]
    rfl
  have far : (p.after detour 0).record (p.window.cellAt ⟨1, 2⟩) =
      ⟨some ⟨6, 7⟩, Cost.unreached, 10, .center, none⟩ := by
    rw [h.record_start_relax regular (h.offset?_cellAt (o := ⟨1, 2⟩) (by decide)) (by decide)
        (by decide),
      show (⟨1, 2⟩ : Offset).closerNeighbors = [⟨0, 1⟩, ⟨0, 2⟩, ⟨1, 1⟩] by decide]
    simp (disch := decide) only [Estimate.improveAll, List.map, List.foldl, h.detour_closed]
    rfl
  have tip : (p.after detour 0).record (p.window.cellAt ⟨0, 3⟩) =
      ⟨some ⟨5, 8⟩, 70, 10, .southEast, some (.cell (p.window.cellAt ⟨-1, 2⟩))⟩ := by
    rw [h.record_start_relax regular (h.offset?_cellAt (o := ⟨0, 3⟩) (by decide)) (by decide)
        (by decide),
      show (⟨0, 3⟩ : Offset).closerNeighbors = [⟨-1, 2⟩, ⟨0, 2⟩, ⟨1, 2⟩] by decide]
    simp (disch := decide) only [Estimate.improveAll, List.map, List.foldl, h.detour_closed, gap,
      far]
    rfl
  exact ⟨west, bend, gap, far, tip⟩

/-- In the next round the far cell copies that way before its source finds the one by the west. -/
theorem detour_next (h : p.Serves .nine) :
    (p.after detour 1).record (p.window.cellAt ⟨-1, 0⟩) =
        ⟨some ⟨4, 5⟩, 20, 10, .east, some .origin⟩ ∧
      (p.after detour 1).record (p.window.cellAt ⟨-2, 1⟩) =
        ⟨some ⟨3, 6⟩, 30, 10, .east, some (.cell (p.window.cellAt ⟨-1, 0⟩))⟩ ∧
      (p.after detour 1).record (p.window.cellAt ⟨-1, 2⟩) =
        ⟨some ⟨4, 7⟩, 40, 10, .east, some (.cell (p.window.cellAt ⟨-2, 1⟩))⟩ ∧
      (p.after detour 1).record (p.window.cellAt ⟨1, 2⟩) =
        ⟨some ⟨6, 7⟩, 80, 10, .southEast, some (.cell (p.window.cellAt ⟨0, 3⟩))⟩ ∧
      (p.after detour 1).record (p.window.cellAt ⟨0, 3⟩) =
        ⟨some ⟨5, 8⟩, 50, 10, .east, some (.cell (p.window.cellAt ⟨-1, 2⟩))⟩ := by
  have regular := detour_regular .nine
  obtain ⟨west, bend, gap, far, tip⟩ := h.detour_start
  have outer (o : Offset) : p.window.outerNeighbors o =
      o.neighborhood.filter fun n => Offset.seedDistance < n.norm ∧ n.norm ≤ 9 := by
    rw [Window.outerNeighbors, h.window_radius]
    rfl
  have west' : (p.after detour 1).record (p.window.cellAt ⟨-1, 0⟩) =
      ⟨some ⟨4, 5⟩, 20, 10, .east, some .origin⟩ := by
    rw [h.record_after_seed (h.offset?_cellAt (o := ⟨-1, 0⟩) (by decide)) (by decide), west]
  have bend' : (p.after detour 1).record (p.window.cellAt ⟨-2, 1⟩) =
      ⟨some ⟨3, 6⟩, 30, 10, .east, some (.cell (p.window.cellAt ⟨-1, 0⟩))⟩ := by
    have neighbors : p.window.outerNeighbors ⟨-2, 1⟩ = [⟨-3, 0⟩, ⟨-2, 0⟩, ⟨-2, 2⟩, ⟨-1, 2⟩] := by
      rw [outer]
      decide
    rw [h.record_after_succ_eq regular (o := ⟨-2, 1⟩) (by decide) (by decide) (by decide)
      (by simp [neighbors]) 0, neighbors, bend]
    simp (disch := decide) only [List.foldl, h.detour_closed, if_neg, gap]
    rfl
  have gap' : (p.after detour 1).record (p.window.cellAt ⟨-1, 2⟩) =
      ⟨some ⟨4, 7⟩, 40, 10, .east, some (.cell (p.window.cellAt ⟨-2, 1⟩))⟩ := by
    have neighbors : p.window.outerNeighbors ⟨-1, 2⟩ = [⟨-2, 1⟩, ⟨-2, 2⟩, ⟨0, 2⟩, ⟨0, 3⟩] := by
      rw [outer]
      decide
    rw [h.record_after_succ_eq regular (o := ⟨-1, 2⟩) (by decide) (by decide) (by decide)
      (by simp [neighbors]) 0, neighbors, gap]
    simp (disch := decide) only [List.foldl, h.detour_closed, if_pos, if_neg, bend', tip]
    rfl
  have far' : (p.after detour 1).record (p.window.cellAt ⟨1, 2⟩) =
      ⟨some ⟨6, 7⟩, 80, 10, .southEast, some (.cell (p.window.cellAt ⟨0, 3⟩))⟩ := by
    have neighbors : p.window.outerNeighbors ⟨1, 2⟩ = [⟨0, 2⟩, ⟨0, 3⟩, ⟨2, 1⟩, ⟨2, 2⟩] := by
      rw [outer]
      decide
    rw [h.record_after_succ_eq regular (o := ⟨1, 2⟩) (by decide) (by decide) (by decide)
      (by simp [neighbors]) 0, neighbors, far]
    simp (disch := decide) only [List.foldl, h.detour_closed, if_neg, tip]
    rfl
  have tip' : (p.after detour 1).record (p.window.cellAt ⟨0, 3⟩) =
      ⟨some ⟨5, 8⟩, 50, 10, .east, some (.cell (p.window.cellAt ⟨-1, 2⟩))⟩ := by
    have neighbors : p.window.outerNeighbors ⟨0, 3⟩ = [⟨-1, 2⟩, ⟨0, 2⟩, ⟨1, 2⟩] := by
      rw [outer]
      decide
    rw [h.record_after_succ_eq regular (o := ⟨0, 3⟩) (by decide) (by decide) (by decide)
      (by simp [neighbors]) 0, neighbors, tip]
    simp (disch := decide) only [List.foldl, h.detour_closed, if_pos, gap', far']
    rfl
  exact ⟨west', bend', gap', far', tip'⟩

theorem detour_route (h : p.Serves .nine) :
    (p.after detour 1).route (p.window.cellAt ⟨1, 2⟩) =
      some ([⟨1, 2⟩, ⟨0, 3⟩, ⟨-1, 2⟩, ⟨-2, 1⟩, ⟨-1, 0⟩].map p.window.cellAt) := by
  obtain ⟨west, bend, gap, far, tip⟩ := h.detour_next
  have cell (o : Offset) (sees : Radius.nine.Sees o) := h.offset?_cellAt sees
  have inside (o : Offset) (sees : Radius.nine.Sees o) :
      p.window.cellAt o < (p.after detour 1).size := by
    rw [size_after]
    exact Window.offset?_lt_size (cell o sees)
  have before (a b : Offset) (ha : Radius.nine.Sees a) (hb : Radius.nine.Sees b)
      (hab : ¬ b.NoLater a) : p.window.cellAt a < p.window.cellAt b :=
    h.disc.lt_of_not_noLater (cell a ha) (cell b hb) hab
  obtain ⟨steps, hsteps⟩ : ∃ steps, (p.after detour 1).size + 1 = steps + 5 := by
    have := before ⟨-1, 0⟩ ⟨-2, 1⟩ (by decide) (by decide) (by decide)
    have := before ⟨-2, 1⟩ ⟨-1, 2⟩ (by decide) (by decide) (by decide)
    have := before ⟨-1, 2⟩ ⟨0, 3⟩ (by decide) (by decide) (by decide)
    have := inside ⟨0, 3⟩ (by decide)
    exact ⟨(p.after detour 1).size - 4, by omega⟩
  have chained {steps source : Nat} {rest : List Nat} (o : Offset) (sees : Radius.nine.Sees o)
      (hpredecessor : ((p.after detour 1).record (p.window.cellAt o)).predecessor =
        some (.cell source)) (hrest : (p.after detour 1).trace steps source = some rest) :
      (p.after detour 1).trace (steps + 1) (p.window.cellAt o) =
        some (p.window.cellAt o :: rest) :=
    (Estimates.trace_eq_some_iff (inside o sees)).mpr (.inr ⟨source, rest, hpredecessor, hrest, rfl⟩)
  have hwest : (p.after detour 1).trace (steps + 1) (p.window.cellAt ⟨-1, 0⟩) =
      some [p.window.cellAt ⟨-1, 0⟩] :=
    (Estimates.trace_eq_some_iff (inside _ (by decide))).mpr (.inl ⟨by rw [west], rfl⟩)
  have hbend := chained ⟨-2, 1⟩ (by decide) (by rw [bend]) hwest
  have hgap := chained ⟨-1, 2⟩ (by decide) (by rw [gap]) hbend
  have htip := chained ⟨0, 3⟩ (by decide) (by rw [tip]) hgap
  rw [Estimates.route, hsteps]
  exact chained ⟨1, 2⟩ (by decide) (by rw [far]) htip

end Detour

end Serves

/-- The chain of predecessors of a cell ends at a seed and is never longer than the length of the cell. When
it is as long, the move of the cell is the one of that seed, and it is as long after the first pass, after
as many rounds as there are cells, and whenever a further round changes nothing. -/
theorem best_of_chain (radius : Radius) (t : Terrain) (regular : t.Regular radius) (rounds : Nat) :
    ∃ p es next, compile radius.value = .ok p ∧ p.estimates t rounds = .ok es ∧
      p.estimates t (rounds + 1) = .ok next ∧
      ∀ cell chain, es.route cell = some chain → ∃ root s,
        chain.getLast? = some root ∧ p.window.offset? root = some s ∧
        s.norm ≤ Offset.seedDistance ∧ s.neighbor (es.best root) = Offset.origin ∧
        Cost.step + es.chainCost chain ≤ (es.record cell).length ∧
        (Cost.step + es.chainCost chain = (es.record cell).length → es.best cell = es.best root) ∧
        (rounds = 0 ∨ p.window.size ≤ rounds ∨ next = es →
          Cost.step + es.chainCost chain = (es.record cell).length) := by
  obtain ⟨p, hcompile, h⟩ := exists_compile_eq_ok radius
  have linked := h.linked_after regular rounds
  have hsize := p.size_after t rounds
  refine ⟨p, p.after t rounds, p.after t (rounds + 1), hcompile,
    h.estimates_eq_ok regular.inRange rounds, h.estimates_eq_ok regular.inRange _, ?_⟩
  intro cell chain hroute
  obtain ⟨root, s, hlast, hroot, hseed, hmove, hle, hbest⟩ := linked.exists_seed hsize hroute
  rw [← Estimates.best_eq] at hmove
  rw [← Estimates.best_eq, ← Estimates.best_eq] at hbest
  refine ⟨root, s, hlast, hroot, hseed, hmove, hle, hbest, fun hfinal => ?_⟩
  refine linked.chainCost_eq hsize (fun later source hlt hpredecessor => ?_) hroute
  have settle (hsettled : p.after t (rounds + 1) = p.after t rounds) :=
    h.fresh_settled regular hsettled (hsize ▸ hlt) hpredecessor
  rcases hfinal with rfl | hmany | hsettled
  · exact Int.le_of_eq (h.fresh_start regular (hsize ▸ hlt) hpredecessor)
  · exact settle ((h.after_eq_of_size_le regular (by omega)).trans
      (h.after_eq_of_size_le regular hmany).symm)
  · exact settle hsettled

theorem best_of_chain_detour :
    Terrain.detour.Regular .nine ∧
    ∃ p es next, compile 9 = .ok p ∧ p.estimates Terrain.detour 1 = .ok es ∧
      p.estimates Terrain.detour 2 = .ok next ∧
      ∀ cell chain, es.route cell = some chain → ∃ root s,
        chain.getLast? = some root ∧ p.window.offset? root = some s ∧
        s.norm ≤ Offset.seedDistance ∧ s.neighbor (es.best root) = Offset.origin ∧
        Cost.step + es.chainCost chain ≤ (es.record cell).length ∧
        (Cost.step + es.chainCost chain = (es.record cell).length → es.best cell = es.best root) ∧
        (1 = 0 ∨ p.window.size ≤ 1 ∨ next = es →
          Cost.step + es.chainCost chain = (es.record cell).length) :=
  ⟨Terrain.detour_regular .nine,
    best_of_chain .nine Terrain.detour (Terrain.detour_regular .nine) 1⟩

/-- Between two rounds a cell may still have the move of a way that its predecessor has left: past the rubble
the far cell of the detour starts to the north-west, and its chain ends at the seed in the west. -/
theorem best_ne_best_of_root :
    Terrain.detour.Regular .nine ∧
    ∃ p es cell chain root, compile 9 = .ok p ∧ p.estimates Terrain.detour 1 = .ok es ∧
      es.route cell = some chain ∧ chain.getLast? = some root ∧
      es.best cell = .southEast ∧ es.best root = .east := by
  obtain ⟨p, hcompile, h⟩ := exists_compile_eq_ok .nine
  obtain ⟨west, -, -, far, -⟩ := h.detour_next
  refine ⟨Terrain.detour_regular .nine, p, p.after Terrain.detour 1, p.window.cellAt ⟨1, 2⟩, _,
    p.window.cellAt ⟨-1, 0⟩, hcompile,
    h.estimates_eq_ok (Terrain.detour_regular .nine).inRange 1, h.detour_route, rfl, ?_, ?_⟩
  · rw [Estimates.best_eq, far]
  · rw [Estimates.best_eq, west]

end Pathfinder

end GridRoute
