import GridRoute.Proofs.Sighting

/-!
The chronicle of a board. However the cells are stored, a place on the map shows what was last put there and nothing
that was put elsewhere; there is no other place to put anything. Only moves move the agent, and they cannot leave the
range of coordinates, since they do not leave the map.
-/

namespace GridRoute

open Sequencing

def Position.beside (p : Position) (d : Direction) : Position := ⟨p.x + d.delta.1, p.y + d.delta.2⟩

def Position.Inner (p : Position) : Prop :=
  (Bounded.lowest < p.x ∧ p.x < Bounded.highest) ∧ Bounded.lowest < p.y ∧ p.y < Bounded.highest

instance (p : Position) : Decidable p.Inner := inferInstanceAs (Decidable (_ ∧ _))

theorem Position.Inner.step_eq_ok {p : Position} (h : p.Inner) (d : Direction) :
    p.step d = .ok (p.beside d) := by
  have bounds := d.delta_bounds
  obtain ⟨⟨lowX, highX⟩, lowY, highY⟩ := h
  unfold Bounded.lowest Bounded.highest at *
  refine Position.step_eq_ok rfl rfl ⟨Bounded.fits_iff.mpr ?_, Bounded.fits_iff.mpr ?_⟩
  · unfold beside
    dsimp only
    omega
  · unfold beside
    dsimp only
    omega

namespace Board

variable {b : Board} {p q : Position}

/-- What the cells of one kind show at a position; off the map they show nothing. -/
def shown {α : Type} (b : Board) (cells : Vector α (b.width * b.height)) (vacant : α) (p : Position) : α :=
  match b.index? p with
  | some i => cells[i]?.getD vacant
  | none => vacant

theorem index?_eq_none_iff : b.index? p = none ↔ b.contains p = false := by
  rw [contains, Option.isSome_eq_false_iff, Option.isNone_iff_eq_none]

section Cells

variable {α : Type} {cells : Vector α (b.width * b.height)} {vacant : α}

theorem shown_of_not_contains (h : b.contains p = false) : b.shown cells vacant p = vacant := by
  rw [shown, index?_eq_none_iff.mpr h]

theorem shown_set {i : Nat} (hp : b.index? p = some i) (value : α) (q : Position) :
    b.shown (cells.setIfInBounds i value) vacant q = if p = q then value else b.shown cells vacant q := by
  by_cases h : p = q
  · subst h
    rw [if_pos rfl, shown, hp]
    dsimp only
    rw [Vector.getElem?_setIfInBounds, if_pos rfl, if_pos (index?_lt hp), Option.getD_some]
  · rw [if_neg h, shown, shown]
    cases hq : b.index? q with
    | none => rfl
    | some j =>
      have apart : i ≠ j := by
        rintro rfl
        exact h (index?_injective hp hq)
      dsimp only
      rw [Vector.getElem?_setIfInBounds, if_neg apart]

theorem shown_replicate (value : α) (h : b.contains p = true) :
    b.shown (Vector.replicate _ value) vacant p = value := by
  obtain ⟨i, hi⟩ := Option.isSome_iff_exists.mp h
  rw [shown, hi]
  dsimp only
  rw [Vector.getElem?_replicate, if_pos (index?_lt hi), Option.getD_some]

end Cells

theorem setBlocked_of_not_contains (h : b.contains p = false) (value : Bool) : b.setBlocked p value = b := by
  rw [setBlocked, index?_eq_none_iff.mpr h]

theorem setRubble_of_not_contains (h : b.contains p = false) (value : Int) : b.setRubble p value = b := by
  rw [setRubble, index?_eq_none_iff.mpr h]

structure SameFrame (b next : Board) : Prop where
  width_eq : next.width = b.width
  height_eq : next.height = b.height
  agent_eq : next.agent = b.agent

theorem SameFrame.contains_eq {next : Board} (h : b.SameFrame next) (q : Position) :
    next.contains q = b.contains q := by
  unfold contains index?
  rw [h.width_eq, h.height_eq]

theorem sameFrame_setBlocked (b : Board) (p : Position) (value : Bool) : b.SameFrame (b.setBlocked p value) := by
  unfold setBlocked
  split <;> exact ⟨rfl, rfl, rfl⟩

theorem sameFrame_setRubble (b : Board) (p : Position) (value : Int) : b.SameFrame (b.setRubble p value) := by
  unfold setRubble
  split <;> exact ⟨rfl, rfl, rfl⟩

theorem sameFrame_fillRubble (b : Board) (value : Int) : b.SameFrame (b.fillRubble value) := ⟨rfl, rfl, rfl⟩

theorem ne_of_index?_eq_none (hp : b.index? p = none) (hq : b.contains q = true) : p ≠ q := by
  rintro rfl
  rw [index?_eq_none_iff.mp hp] at hq
  cases hq

theorem isBlocked_setBlocked (p : Position) (value : Bool) (hq : b.contains q = true) :
    (b.setBlocked p value).isBlocked q = if p = q then value else b.isBlocked q := by
  unfold setBlocked
  split
  · rename_i hp
    exact shown_set hp value q
  · rename_i hp
    rw [if_neg (ne_of_index?_eq_none hp hq)]

theorem rubbleAt_setRubble (p : Position) (value : Int) (hq : b.contains q = true) :
    (b.setRubble p value).rubbleAt q = if p = q then value else b.rubbleAt q := by
  unfold setRubble
  split
  · rename_i hp
    exact shown_set hp value q
  · rename_i hp
    rw [if_neg (ne_of_index?_eq_none hp hq)]

theorem rubbleAt_setBlocked (b : Board) (p : Position) (value : Bool) (q : Position) :
    (b.setBlocked p value).rubbleAt q = b.rubbleAt q := by
  unfold setBlocked
  split <;> rfl

theorem isBlocked_setRubble (b : Board) (p : Position) (value : Int) (q : Position) :
    (b.setRubble p value).isBlocked q = b.isBlocked q := by
  unfold setRubble
  split <;> rfl

def moves (b : Board) (d : Direction) : Bool := decide (d ≠ .center) && b.isTraversable (b.agent.beside d)

theorem moves_iff {d : Direction} :
    b.moves d = true ↔ d ≠ .center ∧ b.isTraversable (b.agent.beside d) = true := by
  rw [moves, Bool.and_eq_true, decide_eq_true_iff]

/-- A move never fails where the agent is not at an end of the range, and leaves everything else as it was. -/
theorem step_eq_of_inner (h : b.agent.Inner) (d : Direction) :
    b.step d = .ok (b.moves d, { b with agent := if b.moves d then b.agent.beside d else b.agent }) := by
  unfold step moves
  by_cases hstay : d = .center
  · rw [if_pos hstay, decide_eq_false (not_not_intro hstay)]
    rfl
  · rw [if_neg hstay, decide_eq_true hstay, h.step_eq_ok, ok_bind, Bool.true_and]
    cases b.isTraversable (b.agent.beside d) <;> rfl

inductive Change where
  | setBlocked (p : Position) (value : Bool)
  | setRubble (p : Position) (value : Int)
  | fillRubble (value : Int)
  | step (d : Direction)

namespace Change

def apply (b : Board) : Change → Except Fault Board
  | .setBlocked p value => .ok (b.setBlocked p value)
  | .setRubble p value => .ok (b.setRubble p value)
  | .fillRubble value => .ok (b.fillRubble value)
  | .step d => do
    let (_, b) ← b.step d
    return b

def blocked? (p : Position) : Change → Option Bool
  | .setBlocked q value => if q = p then some value else none
  | .setRubble .. | .fillRubble _ | .step _ => none

def rubble? (p : Position) : Change → Option Int
  | .setRubble q value => if q = p then some value else none
  | .fillRubble value => some value
  | .setBlocked .. | .step _ => none

def latest {α : Type} (tells : Change → Option α) (changes : List Change) : Option α :=
  (changes.filterMap tells).getLast?

theorem latest_concat {α : Type} (tells : Change → Option α) (changes : List Change) (change : Change) :
    latest tells (changes ++ [change]) = (tells change).or (latest tells changes) := by
  rw [latest, latest, List.filterMap_append, List.getLast?_append]
  cases h : tells change <;> simp [h]

end Change

def undergo (b : Board) (changes : List Change) : Except Fault Board := changes.foldlM Change.apply b

/-- The board has the given size, what it shows on the map is what the changes tell, and its agent has room. -/
structure Shows (width height : Nat) (changes : List Change) (b : Board) : Prop where
  width_eq : b.width = width
  height_eq : b.height = height
  agent_inner : b.agent.Inner
  isBlocked_eq : ∀ p, b.contains p = true →
    b.isBlocked p = (Change.latest (Change.blocked? p) changes).getD false
  rubbleAt_eq : ∀ p, b.contains p = true →
    b.rubbleAt p = (Change.latest (Change.rubble? p) changes).getD 0

theorem shows_empty {width height : Nat} {agent : Position} (hagent : agent.Inner) :
    (empty width height agent).Shows width height [] where
  width_eq := rfl
  height_eq := rfl
  agent_inner := hagent
  isBlocked_eq := fun _ hp => shown_replicate false hp
  rubbleAt_eq := fun _ hp => shown_replicate 0 hp

namespace Shows

variable {width height : Nat} {changes : List Change}

theorem contains_iff (h : b.Shows width height changes) :
    b.contains p = true ↔ 0 ≤ p.x ∧ p.x < width ∧ 0 ≤ p.y ∧ p.y < height := by
  rw [Board.contains_iff, h.width_eq, h.height_eq]

theorem inner_of_contains (h : b.Shows width height changes) (hwidth : width ≤ 2147483647)
    (hheight : height ≤ 2147483647) (hq : b.contains q = true) : q.Inner := by
  rw [h.contains_iff] at hq
  unfold Position.Inner Bounded.lowest Bounded.highest
  omega

theorem setBlocked (h : b.Shows width height changes) (p : Position) (value : Bool) :
    (b.setBlocked p value).Shows width height (changes ++ [.setBlocked p value]) := by
  have frame := b.sameFrame_setBlocked p value
  refine ⟨frame.width_eq.trans h.width_eq, frame.height_eq.trans h.height_eq, frame.agent_eq ▸ h.agent_inner,
    fun q hq => ?_, fun q hq => ?_⟩
  · rw [frame.contains_eq] at hq
    rw [isBlocked_setBlocked p value hq, h.isBlocked_eq q hq, Change.latest_concat, Change.blocked?]
    split <;> rfl
  · rw [frame.contains_eq] at hq
    rw [rubbleAt_setBlocked, h.rubbleAt_eq q hq, Change.latest_concat]
    rfl

theorem setRubble (h : b.Shows width height changes) (p : Position) (value : Int) :
    (b.setRubble p value).Shows width height (changes ++ [.setRubble p value]) := by
  have frame := b.sameFrame_setRubble p value
  refine ⟨frame.width_eq.trans h.width_eq, frame.height_eq.trans h.height_eq, frame.agent_eq ▸ h.agent_inner,
    fun q hq => ?_, fun q hq => ?_⟩
  · rw [frame.contains_eq] at hq
    rw [isBlocked_setRubble, h.isBlocked_eq q hq, Change.latest_concat]
    rfl
  · rw [frame.contains_eq] at hq
    rw [rubbleAt_setRubble p value hq, h.rubbleAt_eq q hq, Change.latest_concat, Change.rubble?]
    split <;> rfl

theorem fillRubble (h : b.Shows width height changes) (value : Int) :
    (b.fillRubble value).Shows width height (changes ++ [.fillRubble value]) := by
  have frame := b.sameFrame_fillRubble value
  refine ⟨h.width_eq, h.height_eq, h.agent_inner, fun q hq => ?_, fun q hq => ?_⟩
  · rw [frame.contains_eq] at hq
    rw [Change.latest_concat]
    exact h.isBlocked_eq q hq
  · rw [Change.latest_concat]
    exact shown_replicate value hq

/-- A move to a place on the map leaves the agent room for the next one. -/
theorem step (h : b.Shows width height changes) (hwidth : width ≤ 2147483647) (hheight : height ≤ 2147483647)
    (d : Direction) :
    ({ b with agent := if b.moves d then b.agent.beside d else b.agent } : Board).Shows width height
      (changes ++ [.step d]) := by
  refine ⟨h.width_eq, h.height_eq, ?_, fun q hq => ?_, fun q hq => ?_⟩
  · dsimp only
    split
    · rename_i hmoves
      have hopen := (moves_iff.mp hmoves).2
      rw [isTraversable, Bool.and_eq_true] at hopen
      exact h.inner_of_contains hwidth hheight hopen.1
    · exact h.agent_inner
  · rw [Change.latest_concat]
    exact h.isBlocked_eq q hq
  · rw [Change.latest_concat]
    exact h.rubbleAt_eq q hq

theorem exists_apply_eq_ok (h : b.Shows width height changes) (hwidth : width ≤ 2147483647)
    (hheight : height ≤ 2147483647) (change : Change) :
    ∃ next, change.apply b = .ok next ∧ next.Shows width height (changes ++ [change]) := by
  cases change with
  | setBlocked p value => exact ⟨_, rfl, h.setBlocked p value⟩
  | setRubble p value => exact ⟨_, rfl, h.setRubble p value⟩
  | fillRubble value => exact ⟨_, rfl, h.fillRubble value⟩
  | step d =>
    refine ⟨_, ?_, h.step hwidth hheight d⟩
    rw [Change.apply, step_eq_of_inner h.agent_inner, ok_bind]
    rfl

end Shows

theorem exists_undergo_eq_ok {width height : Nat} (hwidth : width ≤ 2147483647)
    (hheight : height ≤ 2147483647) {agent : Position} (hagent : agent.Inner) (changes : List Change) :
    ∃ b, (empty width height agent).undergo changes = .ok b ∧ b.Shows width height changes :=
  exists_foldlM_eq_ok (fun done b => Shows width height done b) (shows_empty hagent)
    fun _ change _ _ _ h => h.exists_apply_eq_ok hwidth hheight change

/-- A map that is no longer or wider than there are coordinates undergoes all changes without a fault, if its agent
does not start at an end of the range, on the map or off it. No cell is sought beyond those that are stored, and
a place on the map shows what it was told last, whichever other places the changes were about; off the map there is
nothing to change. A move changes nothing but the place of the agent, and that exactly when the agent is sent to
another place that it can enter. -/
theorem shows_latest_changes {width height : Nat} (hwidth : width ≤ 2147483647)
    (hheight : height ≤ 2147483647) {agent : Position} (hagent : agent.Inner) (changes : List Change) :
    ∃ b, (empty width height agent).undergo changes = .ok b ∧
      b.width * b.height ≤ Bounded.countLimit ∧
      (∀ p i, b.index? p = some i → i < b.blocked.toArray.size ∧ i < b.rubble.toArray.size) ∧
      (∀ p, b.contains p = true ↔ 0 ≤ p.x ∧ p.x < width ∧ 0 ≤ p.y ∧ p.y < height) ∧
      (∀ p, b.isBlocked p =
        if b.contains p then (Change.latest (Change.blocked? p) changes).getD false else false) ∧
      (∀ p, b.rubbleAt p =
        if b.contains p then (Change.latest (Change.rubble? p) changes).getD 0 else 0) ∧
      (∀ p, b.contains p = false →
        (∀ value, b.setBlocked p value = b) ∧ ∀ value, b.setRubble p value = b) ∧
      ∀ d, ∃ moved next, b.step d = .ok (moved, next) ∧
        (moved = true ↔ d ≠ .center ∧ b.isTraversable (b.agent.beside d) = true) ∧
        next = { b with agent := if moved then b.agent.beside d else b.agent } ∧
        (moved = true → next.isTraversable next.agent = true) := by
  obtain ⟨b, hb, shows⟩ := exists_undergo_eq_ok hwidth hheight hagent changes
  refine ⟨b, hb, ?_, fun p i hi => ?_, fun p => shows.contains_iff, fun p => ?_, fun p => ?_, fun p hp => ?_,
    fun d => ?_⟩
  · rw [shows.width_eq, shows.height_eq]
    exact Nat.le_trans (Nat.mul_le_mul hwidth hheight) (by decide)
  · rw [b.blocked.size_toArray, b.rubble.size_toArray]
    exact ⟨index?_lt hi, index?_lt hi⟩
  · split
    · rename_i hp
      exact shows.isBlocked_eq p hp
    · rename_i hp
      exact shown_of_not_contains (Bool.eq_false_iff.mpr hp)
  · split
    · rename_i hp
      exact shows.rubbleAt_eq p hp
    · rename_i hp
      exact shown_of_not_contains (Bool.eq_false_iff.mpr hp)
  · exact ⟨setBlocked_of_not_contains hp, setRubble_of_not_contains hp⟩
  · refine ⟨_, _, step_eq_of_inner shows.agent_inner d, moves_iff, rfl, fun hmoves => ?_⟩
    rw [if_pos hmoves]
    exact (moves_iff.mp hmoves).2

def bustle : List Change :=
  [.setBlocked ⟨2, 0⟩ true, .setBlocked ⟨3, 0⟩ true, .setBlocked ⟨1, 1⟩ true, .setBlocked ⟨1, 1⟩ false,
    .setRubble ⟨1, 1⟩ 40, .fillRubble 5, .setRubble ⟨2, 1⟩ 9, .setRubble ⟨-1, 1⟩ 7, .step .east, .step .center]

theorem shows_latest_changes_bustle :
    (⟨-1, 0⟩ : Position).Inner ∧ ∃ b, (empty 3 2 ⟨-1, 0⟩).undergo bustle = .ok b ∧
      b.isBlocked ⟨2, 0⟩ = true ∧ b.isBlocked ⟨0, 1⟩ = false ∧ b.isBlocked ⟨1, 1⟩ = false ∧
      b.rubbleAt ⟨1, 1⟩ = 5 ∧ b.rubbleAt ⟨2, 1⟩ = 9 ∧ b.rubbleAt ⟨-1, 1⟩ = 0 ∧
      b.setRubble ⟨0, 2⟩ 3 = b := by
  have hwidth : 3 ≤ 2147483647 := by decide
  have hheight : 2 ≤ 2147483647 := by decide
  have hagent : (⟨-1, 0⟩ : Position).Inner := by decide
  obtain ⟨b, hb, -, -, hcontains, hblocked, hrubble, hoff, -⟩ := shows_latest_changes hwidth hheight hagent bustle
  have inside {p : Position} (hp : 0 ≤ p.x ∧ p.x < 3 ∧ 0 ≤ p.y ∧ p.y < 2) : b.contains p = true :=
    (hcontains p).mpr hp
  have outside {p : Position} (hp : ¬ (0 ≤ p.x ∧ p.x < 3 ∧ 0 ≤ p.y ∧ p.y < 2)) : b.contains p = false :=
    Bool.eq_false_iff.mpr fun h => hp ((hcontains p).mp h)
  refine ⟨hagent, b, hb, ?_, ?_, ?_, ?_, ?_, ?_, (hoff _ (outside (by decide))).2 3⟩
  · rw [hblocked, if_pos (inside (by decide))]
    decide
  · rw [hblocked, if_pos (inside (by decide))]
    decide
  · rw [hblocked, if_pos (inside (by decide))]
    decide
  · rw [hrubble, if_pos (inside (by decide))]
    decide
  · rw [hrubble, if_pos (inside (by decide))]
    decide
  · rw [hrubble, if_neg (by rw [outside (by decide)]; decide)]

end Board

end GridRoute
