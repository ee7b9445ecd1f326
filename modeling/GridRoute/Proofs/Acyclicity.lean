import GridRoute.Proofs.Move
import GridRoute.Proofs.RouteChain

/-!
Chains that end. A cell takes a predecessor only where this makes its route strictly shorter, and along a chain
lengths never grow: so no chain comes back to a cell, however often the cells on it change their predecessors.
Every route that is known therefore leads to a seed, over cells next to each other that can be entered.
-/

namespace GridRoute

theorem Terrain.predecessor_sense (t : Terrain) (q : Position) : (t.sense q).predecessor = none := by
  unfold sense
  split <;> rfl

theorem Estimate.Sound.cost_nonneg {e : Estimate} {t : Terrain} {r : Radius} {o : Offset}
    (h : e.Sound t r o) (regular : t.Regular r) (sees : r.Sees o) : 0 ≤ e.cost := by
  by_cases enters : t.Enters o
  · rw [h.cost_eq enters]
    exact (regular.costAt_bounds sees enters).1
  · rw [h.eq_closed enters]
    decide

theorem Estimate.Sound.enters_of_predecessor {e : Estimate} {t : Terrain} {r : Radius} {o : Offset}
    (h : e.Sound t r o) {previous : Predecessor} (hprevious : e.predecessor = some previous) :
    t.Enters o := by
  by_contra blocked
  rw [h.eq_closed blocked] at hprevious
  cases hprevious

namespace Estimates

theorem lt_size_of_predecessor {es : Estimates} {cell : Nat} {previous : Predecessor}
    (h : (es.record cell).predecessor = some previous) : cell < es.size := by
  by_contra hout
  rw [record, Array.getElem?_eq_none (Nat.le_of_not_lt hout)] at h
  cases h

/-- The cells that predecessors name one after the other, from a cell back to a seed. -/
inductive Chain (es : Estimates) : Nat → List Nat → Prop
  | seed {cell : Nat} : (es.record cell).predecessor = some .origin → Chain es cell [cell]
  | link {cell source : Nat} {rest : List Nat} :
      (es.record cell).predecessor = some (.cell source) → Chain es source rest →
      Chain es cell (cell :: rest)

namespace Chain

variable {es : Estimates} {cell : Nat} {chain : List Nat}

theorem head?_eq (h : es.Chain cell chain) : chain.head? = some cell := by
  cases h with
  | seed => rfl
  | link => rfl

theorem exists_predecessor (h : es.Chain cell chain) :
    ∃ previous, (es.record cell).predecessor = some previous := by
  cases h with
  | seed hseed => exact ⟨_, hseed⟩
  | link hlink => exact ⟨_, hlink⟩

theorem trace_eq (h : es.Chain cell chain) {steps : Nat} (hsteps : chain.length ≤ steps) :
    es.trace steps cell = some chain := by
  obtain ⟨spare, rfl⟩ := Nat.exists_eq_add_of_le' hsteps
  clear hsteps
  induction h with
  | seed hseed =>
    exact (trace_eq_some_iff (lt_size_of_predecessor hseed)).mpr (.inl ⟨hseed, rfl⟩)
  | link hlink _ ih =>
    exact (trace_eq_some_iff (lt_size_of_predecessor hlink)).mpr (.inr ⟨_, _, hlink, ih, rfl⟩)

theorem of_trace {steps : Nat} (h : es.trace steps cell = some chain) : es.Chain cell chain := by
  induction steps generalizing cell chain with
  | zero => cases h
  | succ steps ih =>
    rcases (trace_eq_some_iff (lt_size_of_trace h)).mp h with
      ⟨hseed, rfl⟩ | ⟨source, rest, hlink, hrest, rfl⟩
    · exact .seed hseed
    · exact .link hlink (ih hrest)

theorem unique {other : List Nat} (h : es.Chain cell chain) (h' : es.Chain cell other) :
    chain = other := by
  induction h generalizing other with
  | seed hseed =>
    cases h' with
    | seed => rfl
    | link hlink => simp [hseed] at hlink
  | link hlink _ ih =>
    cases h' with
    | seed hseed => simp [hlink] at hseed
    | link hlink' hrest =>
      rw [hlink, Option.some.injEq, Predecessor.cell.injEq] at hlink'
      rw [ih (hlink' ▸ hrest)]

theorem lt_size (h : es.Chain cell chain) : ∀ other ∈ chain, other < es.size := by
  induction h with
  | seed hseed => simpa using lt_size_of_predecessor hseed
  | link hlink _ ih => exact List.forall_mem_cons.mpr ⟨lt_size_of_predecessor hlink, ih⟩

theorem exists_suffix (h : es.Chain cell chain) {other : Nat} (hother : other ∈ chain) :
    ∃ rest, rest <:+ chain ∧ es.Chain other rest := by
  induction h with
  | @seed cell hseed =>
    obtain rfl : other = cell := by simpa using hother
    exact ⟨_, List.suffix_refl _, .seed hseed⟩
  | @link cell source rest hlink hrest ih =>
    rcases List.mem_cons.mp hother with rfl | hother
    · exact ⟨_, List.suffix_refl _, .link hlink hrest⟩
    · obtain ⟨tail, hsuffix, htail⟩ := ih hother
      exact ⟨tail, hsuffix.trans (List.suffix_cons cell rest), htail⟩

/-- The rest of a chain would be as long as the chain if it came back to the cell it starts at. -/
theorem nodup (h : es.Chain cell chain) : chain.Nodup := by
  induction h with
  | @seed cell _ => exact List.nodup_singleton cell
  | @link cell source rest hlink hrest ih =>
    refine List.nodup_cons.mpr ⟨fun hback => ?_, ih⟩
    obtain ⟨tail, hsuffix, htail⟩ := hrest.exists_suffix hback
    have hlength := hsuffix.length_le
    rw [htail.unique (.link hlink hrest), List.length_cons] at hlength
    omega

theorem length_le_size (h : es.Chain cell chain) : chain.length ≤ es.size := by
  have hsubset : chain ⊆ List.range es.size := fun other hother =>
    List.mem_range.mpr (h.lt_size other hother)
  simpa using (h.nodup.subperm hsubset).length_le

theorem route_eq (h : es.Chain cell chain) : es.route cell = some chain :=
  h.trace_eq (Nat.le_succ_of_le h.length_le_size)

/-- A chain does not notice a change of a cell that is not on it. -/
theorem set {start : Nat} (h : es.Chain start chain) (hcell : cell ∉ chain) (e : Estimate) :
    (es.set cell e).Chain start chain := by
  induction h with
  | @seed start hseed =>
    have hne : start ≠ cell := fun heq => hcell (by simp [heq])
    exact .seed (by rwa [record_set_of_ne _ hne])
  | @link start source rest hlink _ ih =>
    rw [List.mem_cons, not_or] at hcell
    exact .link (by rwa [record_set_of_ne _ (Ne.symm hcell.1)]) (ih hcell.2)

theorem exists_set {start : Nat} (h : es.Chain start chain) {e : Estimate} {new : List Nat}
    (hnew : (es.set cell e).Chain cell new) : ∃ other, (es.set cell e).Chain start other := by
  induction h with
  | @seed start hseed =>
    by_cases heq : start = cell
    · exact ⟨new, heq ▸ hnew⟩
    · exact ⟨_, .seed (by rwa [record_set_of_ne _ heq])⟩
  | @link start source rest hlink _ ih =>
    by_cases heq : start = cell
    · exact ⟨new, heq ▸ hnew⟩
    · obtain ⟨other, hother⟩ := ih
      exact ⟨_, .link (by rwa [record_set_of_ne _ heq]) hother⟩

end Chain

/-- Wherever there is a predecessor there is a whole chain. -/
def Rooted (es : Estimates) : Prop :=
  ∀ cell previous, (es.record cell).predecessor = some previous → ∃ chain, es.Chain cell chain

theorem Rooted.set {es : Estimates} (h : es.Rooted) {cell : Nat} {e : Estimate} {new : List Nat}
    (hnew : (es.set cell e).Chain cell new) : (es.set cell e).Rooted := by
  intro other previous hprevious
  by_cases heq : other = cell
  · exact ⟨new, heq ▸ hnew⟩
  · rw [record_set_of_ne _ heq] at hprevious
    obtain ⟨chain, hchain⟩ := h other previous hprevious
    exact hchain.exists_set hnew

/-- No source has found a shorter way since it was copied. -/
def Fresh (es : Estimates) : Prop :=
  ∀ cell source, cell < es.size → (es.record cell).predecessor = some (.cell source) →
    (es.record cell).length ≤ (es.record source).length + (es.record cell).cost

namespace Chain

section Trail

variable {es : Estimates} {w : Window} {t : Terrain} {r : Radius} {cell : Nat} {chain : List Nat}
  (linked : es.Linked w) (sound : es.Sound t r w)
  (hsees : ∀ cell o, w.offset? cell = some o → r.Sees o)

include linked sound hsees

theorem length_le (h : es.Chain cell chain) (regular : t.Regular r) (hsize : es.size = w.size) :
    ∀ other ∈ chain, (es.record other).length ≤ (es.record cell).length := by
  induction h with
  | @seed cell _ => simp
  | @link cell source rest hlink _ ih =>
    obtain ⟨o, hcell⟩ := Window.exists_offset? (w := w) (hsize ▸ lt_size_of_predecessor hlink)
    have hcost := (sound cell o hcell).cost_nonneg regular (hsees cell o hcell)
    have hlength := linked cell o hcell
    rw [Estimate.Linked, hlink] at hlength
    obtain ⟨-, n, -, -, hlength, -⟩ := hlength
    refine List.forall_mem_cons.mpr ⟨Int.le_refl _, fun other hother => ?_⟩
    have := ih other hother
    omega

/-- A chain is a trail from its seed, over the cells it names. If nothing on it is out of date, all its cells
have the move of the seed. -/
theorem exists_trail (h : es.Chain cell chain) {o : Offset} (hcell : w.offset? cell = some o) :
    ∃ start rest, w.Numbers (o :: rest) chain ∧ t.Trail r start (o :: rest) ∧
      es.chainCost chain = t.trailCost (o :: rest) ∧
      (es.Fresh → ∀ other ∈ chain, start.neighbor (es.record other).best = Offset.origin) := by
  induction h generalizing o with
  | @seed cell hseed =>
    have enters := (sound cell o hcell).enters_of_predecessor hseed
    have hlink := linked cell o hcell
    rw [Estimate.Linked, hseed] at hlink
    refine ⟨o, [], .cons hcell .nil, .seed (hsees cell o hcell) enters hlink.1, ?_, fun _ => ?_⟩
    · simp [chainCost, (sound cell o hcell).cost_eq enters]
    · simpa using hlink.2.1
  | @link cell source chain hsource hchain ih =>
    have enters := (sound cell o hcell).enters_of_predecessor hsource
    have hlink := linked cell o hcell
    rw [Estimate.Linked, hsource] at hlink
    obtain ⟨-, n, hn, hadjacent, hlength, hbest⟩ := hlink
    obtain ⟨start, rest, numbers, trail, hcost, hmoves⟩ := ih hn
    refine ⟨start, n :: rest, .cons hcell numbers,
      .enter trail hadjacent.symm (hsees cell o hcell) enters, ?_, fun fresh => ?_⟩
    · rw [chainCost_cons, hcost, Terrain.trailCost_cons t o, (sound cell o hcell).cost_eq enters]
    · have hcopied := fresh cell source (lt_size_of_predecessor hsource) hsource
      refine List.forall_mem_cons.mpr ⟨?_, hmoves fresh⟩
      rw [hbest (by omega)]
      exact hmoves fresh source (List.mem_of_head? hchain.head?_eq)

end Trail

end Chain

end Estimates

namespace Pathfinder

namespace Serves

variable {p : Pathfinder} {radius : Radius} {t : Terrain}

theorem rooted_sensed (p : Pathfinder) (t : Terrain) : (t.sensed p.window).Rooted := by
  intro cell previous hprevious
  have hlt := Estimates.lt_size_of_predecessor hprevious
  rw [t.size_sensed] at hlt
  obtain ⟨o, hcell⟩ := Window.exists_offset? hlt
  rw [t.record_sensed hcell, t.predecessor_sense] at hprevious
  cases hprevious

theorem rooted_seeded {es : Estimates} {cell : Nat} (hlt : cell < es.size) (d : Direction)
    (rooted : es.Rooted) : (es.set cell ((es.record cell).seeded d)).Rooted := by
  apply rooted.set
  apply Estimates.Chain.seed
  rw [Estimates.record_set_self hlt]
  rfl

/-- A source whose chain came by the cell would be no nearer than the cell, and its offer would be turned
down. -/
theorem rooted_offered (h : p.Serves radius) (regular : t.Regular radius) {es : Estimates}
    {cell source : Nat} {o n : Offset} (hsize : es.size = p.window.size)
    (hcell : p.window.offset? cell = some o) (hsource : p.window.offset? source = some n)
    (hopen : (es.record cell).position.isSome) (sound : es.Sound t radius p.window)
    (linked : es.Linked p.window) (rooted : es.Rooted) :
    (Estimates.offered cell es source).Rooted := by
  have hsound := sound cell o hcell
  have enters := hsound.enters hopen
  have hcost := hsound.cost_nonneg regular (h.sees hcell)
  have hadd := (sound source n hsource).add_cost regular (h.sees hcell) enters
  rw [← hsound.cost_eq enters] at hadd
  by_cases hless : Cost.add (es.record source).length (es.record cell).cost < (es.record cell).length
  · have hlimit := hsound.length_le
    have hshorter : (es.record source).length < (es.record cell).length := by omega
    obtain ⟨previous, hprevious⟩ : ∃ previous, (es.record source).predecessor = some previous := by
      apply Option.ne_none_iff_exists'.mp
      intro hnone
      have hlink := linked source n hsource
      rw [Estimate.Linked, hnone] at hlink
      dsimp only at hlink
      omega
    obtain ⟨chain, hchain⟩ := rooted source previous hprevious
    have hnot : cell ∉ chain := by
      intro hmem
      have := hchain.length_le linked sound (fun _ _ => h.sees) regular hsize cell hmem
      omega
    rw [Estimates.offered, Estimate.improve_of_lt _ _ _ hless]
    apply rooted.set
    apply Estimates.Chain.link _ (hchain.set hnot _)
    rw [Estimates.record_set_self (hsize ▸ Window.offset?_lt_size hcell)]
  · rw [Estimates.offered, Estimate.improve_of_le _ _ _ (Int.not_lt.mp hless), Estimates.set_record]
    exact rooted

theorem rooted_after (h : p.Serves radius) (regular : t.Regular radius) (rounds : Nat) :
    (p.after t rounds).Rooted := by
  refine (h.after_induction
    (P := fun es => es.Sound t radius p.window ∧ es.Linked p.window ∧ es.Rooted)
    ?_ ?_ ⟨h.sound_sensed regular, linked_sensed p t, rooted_sensed p t⟩ rounds).2.2
  · rintro es cell o d hsize hcell hseed hd hopen ⟨sound, linked, rooted⟩
    have hlt : cell < es.size := hsize ▸ Window.offset?_lt_size hcell
    exact ⟨h.sound_seeded regular hsize hcell hseed hd hopen sound,
      h.linked_seeded regular hlt hcell hseed hd hopen sound linked, rooted_seeded hlt d rooted⟩
  · rintro es cell source o n hsize hcell hsource hadjacent hfar hopen ⟨sound, linked, rooted⟩
    have hlt : cell < es.size := hsize ▸ Window.offset?_lt_size hcell
    exact ⟨h.sound_offered regular hsize hcell hsource hadjacent hopen sound,
      h.linked_offered regular hlt hcell hsource hadjacent hfar hopen sound linked,
      h.rooted_offered regular hsize hcell hsource hopen sound linked rooted⟩

theorem exists_chain_iff (h : p.Serves radius) (regular : t.Regular radius) (rounds : Nat)
    {cell : Nat} {o : Offset} (hcell : p.window.offset? cell = some o) :
    (∃ chain, (p.after t rounds).Chain cell chain) ↔
      ((p.after t rounds).record cell).length < Cost.unreached := by
  constructor
  · rintro ⟨chain, hchain⟩
    obtain ⟨previous, hprevious⟩ := hchain.exists_predecessor
    rcases h.settled_after regular rounds cell o hcell with reached | ⟨-, hnone⟩
    · exact reached
    · rw [hnone] at hprevious
      cases hprevious
  · intro reached
    cases hprevious : ((p.after t rounds).record cell).predecessor with
    | none =>
      have hlink := h.linked_after regular rounds cell o hcell
      rw [Estimate.Linked, hprevious] at hlink
      exact absurd hlink (Int.ne_of_lt reached)
    | some previous => exact h.rooted_after regular rounds cell previous hprevious

theorem fresh_after (h : p.Serves radius) (regular : t.Regular radius) {rounds : Nat}
    (final : rounds = 0 ∨ (p.after t rounds).SameLengths (p.after t (rounds + 1))) :
    (p.after t rounds).Fresh := by
  intro cell source hlt hpredecessor
  rw [size_after] at hlt
  rcases final with rfl | hsame
  · exact Int.le_of_eq (h.fresh_start regular hlt hpredecessor)
  · exact h.fresh_settled regular (after_eq_of_sameLengths hsame (Nat.le_succ rounds)) hlt
      hpredecessor

end Serves

/-- A cell has a chain of predecessors just when a route to it is known. The chain visits no cell twice; it is a
trail from a seed to the cell, and no longer than the length of the cell says. After the first pass, and when a
further round shortens nothing, it is as long as that and all its cells have the move of the seed. -/
theorem routes_are_trails (radius : Radius) (t : Terrain) (regular : t.Regular radius)
    (rounds : Nat) :
    ∃ p es next, compile radius.value = .ok p ∧ p.estimates t rounds = .ok es ∧
      p.estimates t (rounds + 1) = .ok next ∧
      ∀ cell o, p.window.offset? cell = some o → ∃ e, es.cells[cell]? = some e ∧
        ((∃ chain, es.route cell = some chain) ↔ e.length < Cost.unreached) ∧
        ∀ chain, es.route cell = some chain → chain.head? = some cell ∧ chain.Nodup ∧
          ∃ start rest, p.window.Numbers (o :: rest) chain ∧ t.Trail radius start (o :: rest) ∧
            es.chainCost chain = t.trailCost (o :: rest) ∧
            Cost.step + es.chainCost chain ≤ e.length ∧
            (rounds = 0 ∨ es.SameLengths next →
              Cost.step + es.chainCost chain = e.length ∧
              ∀ other ∈ chain, start.neighbor (es.best other) = Offset.origin) := by
  obtain ⟨p, hcompile, h⟩ := exists_compile_eq_ok radius
  have linked := h.linked_after regular rounds
  have sound := h.sound_after regular rounds
  have hsize := p.size_after t rounds
  refine ⟨p, p.after t rounds, p.after t (rounds + 1), hcompile,
    h.estimates_eq_ok regular.inRange rounds, h.estimates_eq_ok regular.inRange _, ?_⟩
  intro cell o hcell
  refine ⟨_, Estimates.getElem?_eq_some_record (hsize ▸ Window.offset?_lt_size hcell), ?_, ?_⟩
  · rw [← h.exists_chain_iff regular rounds hcell]
    constructor
    · rintro ⟨chain, hroute⟩
      exact ⟨chain, .of_trace hroute⟩
    · rintro ⟨chain, hchain⟩
      exact ⟨chain, hchain.route_eq⟩
  · intro chain hroute
    have hchain := Estimates.Chain.of_trace hroute
    obtain ⟨start, rest, numbers, trail, hcost, hmoves⟩ :=
      hchain.exists_trail linked sound (fun _ _ => h.sees) hcell
    obtain ⟨-, -, -, -, -, -, hle, -⟩ := linked.exists_seed hsize hroute
    refine ⟨hchain.head?_eq, hchain.nodup, start, rest, numbers, trail, hcost, hle, fun final => ?_⟩
    have fresh := h.fresh_after regular final
    refine ⟨linked.chainCost_eq hsize fresh hroute, fun other hother => ?_⟩
    rw [Estimates.best_eq]
    exact hmoves fresh other hother

theorem routes_are_trails_detour :
    Terrain.detour.Regular .nine ∧
    ∃ p es next, compile 9 = .ok p ∧ p.estimates Terrain.detour 1 = .ok es ∧
      p.estimates Terrain.detour 2 = .ok next ∧
      ∀ cell o, p.window.offset? cell = some o → ∃ e, es.cells[cell]? = some e ∧
        ((∃ chain, es.route cell = some chain) ↔ e.length < Cost.unreached) ∧
        ∀ chain, es.route cell = some chain → chain.head? = some cell ∧ chain.Nodup ∧
          ∃ start rest, p.window.Numbers (o :: rest) chain ∧
            Terrain.detour.Trail .nine start (o :: rest) ∧
            es.chainCost chain = Terrain.detour.trailCost (o :: rest) ∧
            Cost.step + es.chainCost chain ≤ e.length ∧
            (1 = 0 ∨ es.SameLengths next →
              Cost.step + es.chainCost chain = e.length ∧
              ∀ other ∈ chain, start.neighbor (es.best other) = Offset.origin) :=
  ⟨Terrain.detour_regular .nine,
    routes_are_trails .nine Terrain.detour (Terrain.detour_regular .nine) 1⟩

end Pathfinder

end GridRoute
