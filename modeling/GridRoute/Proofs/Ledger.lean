import GridRoute.Proofs.Soundness

/-!
The sums of a search. A search that books every addition of costs and every length it sets comes to the same estimates.
On regular terrain all its sums are exact and all lengths stay between nothing and that of an unreached cell: no cost
ever stops at the end of the range.
-/

namespace GridRoute

open Sequencing

inductive Purpose where
  | sense
  | seed
  | offer
deriving DecidableEq, Repr

inductive Entry where
  | sum (purpose : Purpose) (left right : Int)
  | length (value : Int)
deriving DecidableEq, Repr

abbrev Booked := StateT (List Entry) (Except Fault)

namespace Booked

def book (entry : Entry) : Booked Unit := modify (· ++ [entry])

def keep (e : Estimate) : Booked Estimate := do
  book (.length e.length)
  return e

section Search

variable (plus : Int → Int → Int)

def add (purpose : Purpose) (left right : Int) : Booked Int := do
  book (.sum purpose left right)
  return plus left right

def sense (t : Terrain) (p : Position) : Booked Estimate := do
  if t.traversable p then
    let cost ← add plus .sense (t.rubble p) Cost.step
    keep { Estimate.closed with position := some p, cost := cost }
  else keep Estimate.closed

def seeded (e : Estimate) (towardOrigin : Direction) : Booked Estimate := do
  let length ← add plus .seed e.cost Cost.step
  keep { e with length := length, best := towardOrigin, predecessor := some .origin }

def improve (e : Estimate) (source : Nat) (via : Estimate) : Booked Estimate := do
  let length ← add plus .offer via.length e.cost
  if length < e.length then
    keep { e with length := length, best := via.best, predecessor := some (.cell source) }
  else return e

def seed (es : Estimates) (cell : Nat) (towardOrigin : Direction) : Booked Estimates := do
  let e ← es.get cell
  if e.position.isNone then return es
  return es.set cell (← seeded plus e towardOrigin)

def offer (cell : Nat) (es : Estimates) (source : Nat) : Booked Estimates := do
  let via ← es.get source
  let e ← es.get cell
  return es.set cell (← improve plus e source via)

def relax (es : Estimates) (relaxation : Relaxation) : Booked Estimates := do
  let e ← es.get relaxation.cell
  if e.position.isNone then return es
  relaxation.sources.foldlM (offer plus relaxation.cell) es

def initialStep (es : Estimates) : InitialStep → Booked Estimates
  | .seed cell towardOrigin => seed plus es cell towardOrigin
  | .relax relaxation => relax plus es relaxation

def rounds (relaxations : List Relaxation) : Nat → Estimates → Booked Estimates
  | 0, es => pure es
  | n + 1, es => do rounds relaxations n (← relaxations.foldlM (relax plus) es)

def firstPass (p : Pathfinder) (t : Terrain) : Booked Estimates := do
  let positions ← p.positions t.agent
  let cells ← positions.toList.mapM (sense plus t)
  p.schedule.initialSteps.foldlM (initialStep plus) ⟨cells.toArray⟩

/-- The search with an addition of one's own. -/
def estimates (p : Pathfinder) (t : Terrain) (n : Nat) : Booked Estimates := do
  rounds plus p.schedule.extraRound n (← firstPass plus p t)

end Search

end Booked

/-- Apart from the entries the computation is the given one. It books nothing but what `P` allows, and a result has the
property `Q`. -/
structure Books {α : Type} (P : Entry → Prop) (Q : α → Prop) (x : Booked α) (y : Except Fault α) : Prop where
  run_eq : ∀ ledger, ∃ entries, x.run ledger = y.map (fun a => (a, ledger ++ entries)) ∧
    ∀ entry ∈ entries, P entry
  result : ∀ a, y = .ok a → Q a

namespace Books

variable {α β σ : Type} {P : Entry → Prop} {Q : α → Prop} {R : β → Prop}

theorem weaken {x : Booked α} {y : Except Fault α} {Q' : α → Prop} (h : Books P Q x y)
    (hQ : ∀ a, Q a → Q' a) : Books P Q' x y :=
  ⟨h.run_eq, fun a ha => hQ a (h.result a ha)⟩

theorem pure {a : α} (h : Q a) : Books P Q (pure a) (.ok a) := by
  refine ⟨fun ledger => ⟨[], ?_, by simp⟩, fun _ ha => Except.ok.inj ha ▸ h⟩
  rw [List.append_nil]
  rfl

theorem lift {y : Except Fault α} (h : ∀ a, y = .ok a → Q a) : Books P Q (liftM y) y := by
  refine ⟨fun ledger => ⟨[], ?_, by simp⟩, h⟩
  rw [List.append_nil]
  cases y <;> rfl

theorem bind {x : Booked α} {y : Except Fault α} {f : α → Booked β} {g : α → Except Fault β}
    (h : Books P Q x y) (hf : ∀ a, y = .ok a → Q a → Books P R (f a) (g a)) :
    Books P R (x >>= f) (y >>= g) := by
  cases y with
  | error fault =>
    refine ⟨fun ledger => ⟨[], ?_, by simp⟩, fun b hb => by cases hb⟩
    obtain ⟨entries, hrun, -⟩ := h.run_eq ledger
    rw [StateT.run_bind, hrun]
    rfl
  | ok a =>
    have hrest := hf a rfl (h.result a rfl)
    refine ⟨fun ledger => ?_, hrest.result⟩
    obtain ⟨first, hfirst, hfirstP⟩ := h.run_eq ledger
    obtain ⟨second, hsecond, hsecondP⟩ := hrest.run_eq (ledger ++ first)
    refine ⟨first ++ second, ?_, List.forall_mem_append.mpr ⟨hfirstP, hsecondP⟩⟩
    rw [StateT.run_bind, hfirst, ← List.append_assoc]
    exact hsecond

theorem andThen {x : Booked α} {a : α} {f : α → Booked β} {y : Except Fault β}
    (h : Books P Q x (.ok a)) (hf : Q a → Books P R (f a) y) : Books P R (x >>= f) y :=
  h.bind (g := fun _ => y) fun b hb hQ => by
    cases hb
    exact hf hQ

theorem foldlM {I : σ → Prop} {f : σ → α → Booked σ} {g : σ → α → Except Fault σ} {xs : List α}
    (h : ∀ x ∈ xs, ∀ s, I s → Books P I (f s x) (g s x)) {s : σ} (hs : I s) :
    Books P I (xs.foldlM f s) (xs.foldlM g s) := by
  induction xs generalizing s with
  | nil => exact .pure hs
  | cons x xs ih =>
    obtain ⟨hx, hxs⟩ := List.forall_mem_cons.mp h
    rw [List.foldlM_cons, List.foldlM_cons]
    exact (hx s hs).bind fun next _ hnext => ih hxs hnext

theorem mapM {f : α → Booked β} {g : α → β} {xs : List α}
    (h : ∀ x ∈ xs, Books P (fun _ => True) (f x) (.ok (g x))) :
    Books P (fun _ => True) (xs.mapM f) (.ok (xs.map g)) := by
  induction xs with
  | nil => exact .pure trivial
  | cons x xs ih =>
    obtain ⟨hx, hxs⟩ := List.forall_mem_cons.mp h
    rw [List.mapM_cons]
    exact hx.andThen fun _ => (ih hxs).andThen fun _ => .pure trivial

theorem book {entry : Entry} (h : P entry) : Books P (fun _ => True) (Booked.book entry) (.ok ()) :=
  ⟨fun _ => ⟨[entry], rfl, List.forall_mem_singleton.mpr h⟩, fun _ _ => trivial⟩

theorem keep {e : Estimate} (h : P (.length e.length)) :
    Books P (fun _ => True) (Booked.keep e) (.ok e) :=
  (book h).andThen fun _ => .pure trivial

section Sums

variable {plus : Int → Int → Int}
  (hplus : ∀ purpose left right, P (.sum purpose left right) → plus left right = Cost.add left right)

include hplus

theorem add {purpose : Purpose} {left right : Int} (h : P (.sum purpose left right)) :
    Books P (fun _ => True) (Booked.add plus purpose left right) (.ok (Cost.add left right)) := by
  refine (book h).andThen fun _ => ?_
  rw [hplus purpose left right h]
  exact .pure trivial

theorem sense {t : Terrain} {p : Position} (hsum : t.traversable p → P (.sum .sense (t.rubble p) Cost.step))
    (hlength : P (.length Cost.unreached)) :
    Books P (fun _ => True) (Booked.sense plus t p) (.ok (t.sense p)) := by
  unfold Booked.sense Terrain.sense
  split
  · rename_i enters
    exact (add hplus (hsum enters)).andThen fun _ => keep hlength
  · exact keep hlength

theorem seeded {e : Estimate} {d : Direction} (hsum : P (.sum .seed e.cost Cost.step))
    (hlength : P (.length (e.seeded d).length)) :
    Books P (fun _ => True) (Booked.seeded plus e d) (.ok (e.seeded d)) :=
  (add hplus hsum).andThen fun _ => keep hlength

theorem improve {e via : Estimate} {source : Nat} (hsum : P (.sum .offer via.length e.cost))
    (hlength : P (.length (e.improve source via).length)) :
    Books P (fun _ => True) (Booked.improve plus e source via) (.ok (e.improve source via)) := by
  refine (add hplus hsum).andThen fun _ => ?_
  unfold Estimate.improve at hlength ⊢
  dsimp only at hlength ⊢
  split
  · rename_i hless
    rw [if_pos hless] at hlength
    exact keep hlength
  · exact .pure trivial

end Sums

end Books

/-- The relaxation books what `P` allows and keeps `I`, offer by offer. -/
def Relaxation.Keeps (P : Entry → Prop) (I : Estimates → Prop) (r : Relaxation) : Prop :=
  ∀ es source via e, source ∈ r.sources → I es → es.get source = .ok via → es.get r.cell = .ok e →
    e.position.isSome → P (.sum .offer via.length e.cost) ∧ P (.length (e.improve source via).length) ∧
      I (es.set r.cell (e.improve source via))

def InitialStep.Keeps (P : Entry → Prop) (I : Estimates → Prop) : InitialStep → Prop
  | .seed cell d => ∀ es e, I es → es.get cell = .ok e → e.position.isSome →
    P (.sum .seed e.cost Cost.step) ∧ P (.length (e.seeded d).length) ∧ I (es.set cell (e.seeded d))
  | .relax r => r.Keeps P I

def Estimates.Enterable (es : Estimates) (cell : Nat) : Prop :=
  ∀ e, es.get cell = .ok e → e.position.isSome

namespace Books

variable {P : Entry → Prop} {I : Estimates → Prop} {es : Estimates}

theorem get (cell : Nat) : Books P (fun e => es.get cell = .ok e) (liftM (es.get cell)) (es.get cell) :=
  lift fun _ he => he

section Steps

variable {plus : Int → Int → Int}
  (hplus : ∀ purpose left right, P (.sum purpose left right) → plus left right = Cost.add left right)

include hplus

theorem offer {r : Relaxation} (keeps : r.Keeps P I) {source : Nat} (hsource : source ∈ r.sources)
    (hes : I es) (hopen : es.Enterable r.cell) :
    Books P (fun next => I next ∧ next.Enterable r.cell) (Booked.offer plus r.cell es source)
      (es.offer r.cell source) := by
  refine (get source).bind fun via _ hvia => (get r.cell).bind fun e _ he => ?_
  obtain ⟨hsum, hlength, hkeeps⟩ := keeps es source via e hsource hes hvia he (hopen e he)
  refine (improve hplus hsum hlength).andThen fun _ => .pure ⟨hkeeps, fun e' he' => ?_⟩
  obtain ⟨hlt, rfl⟩ := Estimates.get_eq_ok_iff.mp he'
  rw [Estimates.record_set_self (by simpa using hlt), Estimate.position_improve]
  exact hopen e he

theorem relax {r : Relaxation} (keeps : r.Keeps P I) (hes : I es) :
    Books P I (Booked.relax plus es r) (es.relax r) := by
  refine (get r.cell).bind fun e _ he => ?_
  split
  · exact .pure hes
  · rename_i hopen
    have start : es.Enterable r.cell := fun e' he' => by
      obtain rfl := Except.ok.inj (he.symm.trans he')
      simpa [Option.isSome_iff_ne_none] using hopen
    exact (foldlM (fun source hsource next hnext => offer hplus keeps hsource hnext.1 hnext.2)
      ⟨hes, start⟩).weaken fun _ hlast => hlast.1

theorem initialStep {step : InitialStep} (keeps : step.Keeps P I) (hes : I es) :
    Books P I (Booked.initialStep plus es step) (es.initialStep step) := by
  cases step with
  | seed cell d =>
    refine (get cell).bind fun e _ he => ?_
    split
    · exact .pure hes
    · rename_i hopen
      obtain ⟨hsum, hlength, hkeeps⟩ := keeps es e hes he
        (by simpa [Option.isSome_iff_ne_none] using hopen)
      exact (seeded hplus hsum hlength).andThen fun _ => .pure hkeeps
  | relax r => exact relax hplus keeps hes

theorem rounds {rs : List Relaxation} (keeps : ∀ r ∈ rs, r.Keeps P I) (hes : I es) (n : Nat) :
    Books P I (Booked.rounds plus rs n es) (Estimates.rounds rs n es) := by
  induction n generalizing es with
  | zero => exact .pure hes
  | succ n ih =>
    exact (foldlM (fun r hr _ hnext => relax hplus (keeps r hr) hnext) hes).bind fun _ _ hnext => ih hnext

theorem estimates {p : Pathfinder} {t : Terrain}
    (sensed : ∀ positions, p.positions t.agent = .ok positions → I ⟨positions.map t.sense⟩ ∧
      ∀ q ∈ positions, t.traversable q → P (.sum .sense (t.rubble q) Cost.step))
    (unreached : P (.length Cost.unreached)) (initial : ∀ step ∈ p.schedule.initialSteps, step.Keeps P I)
    (extra : ∀ r ∈ p.schedule.extraRound, r.Keeps P I) (n : Nat) :
    Books P I (Booked.estimates plus p t n) (p.estimates t n) := by
  have first : Books P I (Booked.firstPass plus p t) (p.firstPass t) := by
    refine (lift (Q := fun positions => p.positions t.agent = .ok positions) fun _ h => h).bind
      fun positions _ hpositions => ?_
    obtain ⟨start, hsums⟩ := sensed positions hpositions
    refine (mapM fun q hq => sense hplus (hsums q (Array.mem_toList_iff.mp hq)) unreached).andThen fun _ => ?_
    rw [← Array.toList_map, Array.toArray_toList]
    exact foldlM (fun step hstep _ hnext => initialStep hplus (initial step hstep) hnext) start
  exact first.bind fun _ _ hes => rounds hplus extra hes n

end Steps

end Books

/-- Whatever the program and the terrain, booking changes neither the estimates nor a fault. -/
theorem Booked.run_estimates (p : Pathfinder) (t : Terrain) (n : Nat) :
    ∃ entries, (Booked.estimates Cost.add p t n).run [] = (p.estimates t n).map fun es => (es, entries) := by
  have keeps (r : Relaxation) : r.Keeps (fun _ => True) (fun _ => True) :=
    fun _ _ _ _ _ _ _ _ _ => ⟨trivial, trivial, trivial⟩
  have books : Books (fun _ => True) (fun _ => True) (Booked.estimates Cost.add p t n) (p.estimates t n) := by
    refine .estimates (fun _ _ _ _ => rfl) (fun _ _ => ⟨trivial, fun _ _ _ => trivial⟩) trivial (fun step _ => ?_)
      (fun r _ => keeps r) n
    cases step with
    | seed cell d => exact fun _ _ _ _ _ => ⟨trivial, trivial, trivial⟩
    | relax r => exact keeps r
  obtain ⟨entries, hrun, -⟩ := books.run_eq []
  exact ⟨entries, hrun⟩

/-- The sum is what it is without any end of the range; the length is one between nothing and that of an unreached
cell. -/
def Entry.Exact : Entry → Prop
  | .sum _ left right => Cost.add left right = left + right
  | .length value => 0 ≤ value ∧ value ≤ Cost.unreached

namespace Pathfinder

variable {p : Pathfinder} {radius : Radius} {t : Terrain}

def Holds (p : Pathfinder) (t : Terrain) (radius : Radius) (es : Estimates) : Prop :=
  es.size = p.window.size ∧ es.Sound t radius p.window

theorem Holds.set {es : Estimates} (h : p.Holds t radius es) {cell : Nat} {o : Offset}
    (hcell : p.window.offset? cell = some o) {e : Estimate} (sound : e.Sound t radius o) :
    p.Holds t radius (es.set cell e) :=
  ⟨by rw [Estimates.size_set, h.1], h.2.set hcell (h.1 ▸ Window.offset?_lt_size hcell) sound⟩

theorem Holds.sound {es : Estimates} (h : p.Holds t radius es) {cell : Nat} {o : Offset}
    (hcell : p.window.offset? cell = some o) {e : Estimate} (he : es.get cell = .ok e) :
    e.Sound t radius o :=
  (Estimates.get_eq_ok_iff.mp he).2 ▸ h.2 cell o hcell

theorem Serves.relaxation_keeps (h : p.Serves radius) (regular : t.Regular radius) {r : Relaxation}
    {o : Offset} (hcell : p.window.offset? r.cell = some o)
    (hsources : ∀ source ∈ r.sources, ∃ n, p.window.offset? source = some n ∧ o.Adjacent n) :
    r.Keeps Entry.Exact (p.Holds t radius) := by
  intro es source via e hsource holds hvia he hopen
  obtain ⟨n, hn, hadjacent⟩ := hsources source hsource
  have sound := holds.sound hcell he
  have soundVia := holds.sound hn hvia
  have enters := sound.enters hopen
  have improved := sound.improve soundVia regular (h.sees hcell) hadjacent hopen source
  refine ⟨?_, ⟨improved.length_nonneg, improved.length_le⟩, holds.set hcell improved⟩
  rw [Entry.Exact, sound.cost_eq enters]
  exact soundVia.add_cost regular (h.sees hcell) enters

theorem Serves.initialStep_keeps (h : p.Serves radius) (regular : t.Regular radius) {step : InitialStep}
    (hstep : step ∈ p.schedule.initialSteps) : step.Keeps Entry.Exact (p.Holds t radius) := by
  obtain ⟨cell, hget⟩ := List.mem_iff_getElem?.mp hstep
  obtain ⟨o, hcell, starts⟩ := h.schedule.exists_offset_of_initialStep hget
  cases step with
  | seed named d =>
    obtain ⟨rfl, hseed, hd⟩ := starts
    intro es e holds he hopen
    have sound := holds.sound hcell he
    have seeded := sound.seeded regular (h.sees hcell) hseed hd hopen
    refine ⟨?_, ⟨seeded.length_nonneg, seeded.length_le⟩, holds.set hcell seeded⟩
    have enters := sound.enters hopen
    rw [Entry.Exact, sound.cost_eq enters, Int.add_comm (t.costAt o)]
    rw [← sound.length_seeded regular (h.sees hcell) enters d, ← sound.cost_eq enters]
    rfl
  | relax r =>
    obtain ⟨rfl, -, hnumbers⟩ := starts
    refine h.relaxation_keeps regular hcell fun source hsource => ?_
    obtain ⟨n, hn, hfound⟩ := hnumbers.exists_offset hsource
    exact ⟨n, hfound, (Offset.mem_closerNeighbors.mp hn).1⟩

theorem Serves.extraRound_keeps (h : p.Serves radius) (regular : t.Regular radius) {r : Relaxation}
    (hr : r ∈ p.schedule.extraRound) : r.Keeps Entry.Exact (p.Holds t radius) := by
  obtain ⟨o, hcell, -, -, hnumbers⟩ := h.schedule.refines_of_mem r hr
  refine h.relaxation_keeps regular hcell fun source hsource => ?_
  obtain ⟨n, hn, hfound⟩ := hnumbers.exists_offset hsource
  exact ⟨n, hfound, (Window.mem_outerNeighbors.mp hn).1⟩

theorem Serves.books (h : p.Serves radius) (regular : t.Regular radius) {plus : Int → Int → Int}
    (hplus : ∀ a b, Bounded.Fits (a + b) → plus a b = a + b) (rounds : Nat) :
    Books Entry.Exact (p.Holds t radius) (Booked.estimates plus p t rounds) (p.estimates t rounds) := by
  refine .estimates (fun _ left right hsum => ?_) (fun positions hpositions => ?_)
    ⟨by decide, Int.le_refl _⟩ (fun step hstep => h.initialStep_keeps regular hstep)
    (fun r hr => h.extraRound_keeps regular hr) rounds
  · have hexact : Cost.add left right = left + right := hsum
    rw [hexact]
    exact hplus left right (hexact ▸ Bounded.fits_saturatingAdd left right)
  · obtain rfl := Except.ok.inj ((h.positions_eq_ok regular.inRange).symm.trans hpositions)
    refine ⟨t.map_sense p.window ▸ ⟨t.size_sensed _, h.sound_sensed regular⟩, fun q hq enters => ?_⟩
    obtain ⟨o, ho, rfl⟩ := Array.mem_map.mp hq
    obtain ⟨cell, hcell⟩ := Window.mem_offsets_iff.mp ho
    have bounds := regular.rubble_bounds o (h.sees hcell) enters
    apply Cost.add_of_fits
    rw [Bounded.fits_iff, Cost.step]
    omega

/-- On regular terrain no sum stops at the end of the range: whatever the radius and the number of rounds, each sum of
a search is exact, and every length is at all times one between nothing and that of an unreached cell. An addition
that does something else beyond the range would find the same estimates. -/
theorem sums_exact (radius : Radius) (t : Terrain) (regular : t.Regular radius) (rounds : Nat) :
    ∃ p es, compile radius.value = .ok p ∧ p.estimates t rounds = .ok es ∧
      (∃ ledger, (Booked.estimates Cost.add p t rounds).run [] = .ok (es, ledger) ∧
        (∀ purpose left right, .sum purpose left right ∈ ledger → Cost.add left right = left + right) ∧
        ∀ length, .length length ∈ ledger → 0 ≤ length ∧ length ≤ Cost.unreached) ∧
      (∀ plus : Int → Int → Int, (∀ a b, Bounded.Fits (a + b) → plus a b = a + b) →
        ∃ ledger, (Booked.estimates plus p t rounds).run [] = .ok (es, ledger)) ∧
      ∀ o, radius.Sees o → ∃ e, es.at? p.window o = some e ∧ 0 ≤ e.length ∧ e.length ≤ Cost.unreached := by
  obtain ⟨p, hcompile, h⟩ := exists_compile_eq_ok radius
  have hes := h.estimates_eq_ok regular.inRange rounds
  have hrun {plus : Int → Int → Int} (hplus : ∀ a b, Bounded.Fits (a + b) → plus a b = a + b) :
      ∃ ledger, (Booked.estimates plus p t rounds).run [] = .ok (p.after t rounds, ledger) ∧
        ∀ entry ∈ ledger, entry.Exact := by
    obtain ⟨ledger, hrun, exact⟩ := (h.books regular hplus rounds).run_eq []
    rw [hes] at hrun
    exact ⟨ledger, hrun, exact⟩
  refine ⟨p, p.after t rounds, hcompile, hes, ?_, fun plus hplus => ?_, fun o sees => ?_⟩
  · obtain ⟨ledger, hledger, exact⟩ := hrun fun _ _ => Cost.add_of_fits
    exact ⟨ledger, hledger, fun _ _ _ hsum => exact _ hsum, fun _ hlength => exact _ hlength⟩
  · obtain ⟨ledger, hledger, -⟩ := hrun hplus
    exact ⟨ledger, hledger⟩
  · obtain ⟨cell, hcell, hat⟩ := h.exists_at? (p.size_after t rounds) sees
    have sound := h.sound_after regular rounds cell o hcell
    exact ⟨_, hat, sound.length_nonneg, sound.length_le⟩

theorem sums_exact_detour :
    Terrain.detour.Regular .nine ∧ (∀ a b, Bounded.Fits (a + b) → Int.add a b = a + b) ∧
    ∃ p es, compile 9 = .ok p ∧ p.estimates Terrain.detour 1 = .ok es ∧
      (∃ ledger, (Booked.estimates Cost.add p Terrain.detour 1).run [] = .ok (es, ledger) ∧
        (∀ purpose left right, .sum purpose left right ∈ ledger → Cost.add left right = left + right) ∧
        ∀ length, .length length ∈ ledger → 0 ≤ length ∧ length ≤ Cost.unreached) ∧
      (∃ ledger, (Booked.estimates Int.add p Terrain.detour 1).run [] = .ok (es, ledger)) ∧
      ∀ o, Radius.nine.Sees o → ∃ e, es.at? p.window o = some e ∧ 0 ≤ e.length ∧ e.length ≤ Cost.unreached := by
  have regular := Terrain.detour_regular .nine
  have hadd : ∀ a b, Bounded.Fits (a + b) → Int.add a b = a + b := fun _ _ _ => rfl
  obtain ⟨p, es, hcompile, hes, hledger, hplus, hlengths⟩ := sums_exact .nine Terrain.detour regular 1
  exact ⟨regular, hadd, p, es, hcompile, hes, hledger, hplus Int.add hadd, hlengths⟩

end Pathfinder

end GridRoute
