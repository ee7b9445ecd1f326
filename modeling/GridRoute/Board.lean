import GridRoute.Terrain

/-!
Boards: finite rectangular maps with one agent. Cells are stored row by row.
-/

namespace GridRoute

structure Board where
  width : Nat
  height : Nat
  agent : Position
  blocked : Vector Bool (width * height)
  rubble : Vector Int (width * height)

namespace Board

def empty (width height : Nat) (agent : Position) : Board where
  width := width
  height := height
  agent := agent
  blocked := Vector.replicate _ false
  rubble := Vector.replicate _ 0

def index? (b : Board) (p : Position) : Option Nat :=
  if 0 ≤ p.x ∧ p.x < b.width ∧ 0 ≤ p.y ∧ p.y < b.height then
    some (p.y.toNat * b.width + p.x.toNat)
  else none

theorem index?_lt {b : Board} {p : Position} {i : Nat} (h : b.index? p = some i) :
    i < b.width * b.height := by
  unfold index? at h
  split at h
  · injection h with h
    have row : p.y.toNat + 1 ≤ b.height := by omega
    have := Nat.mul_le_mul_right b.width row
    rw [Nat.add_mul, Nat.mul_comm b.height] at this
    omega
  · cases h

theorem index?_injective {b : Board} {p q : Position} {i : Nat} (hp : b.index? p = some i)
    (hq : b.index? q = some i) : p = q := by
  unfold index? at hp hq
  split at hp <;> split at hq <;> simp only [Option.some.injEq, reduceCtorEq] at hp hq
  rename_i hp' hq'
  have row (r : Position) (hr : 0 ≤ r.x ∧ r.x < b.width ∧ 0 ≤ r.y ∧ r.y < b.height)
      (hi : r.y.toNat * b.width + r.x.toNat = i) :
      i / b.width = r.y.toNat ∧ i % b.width = r.x.toNat := by
    have hx : r.x.toNat < b.width := by omega
    rw [← hi, Nat.add_comm, Nat.add_mul_div_right _ _ (by omega), Nat.add_mul_mod_self_right]
    exact ⟨by rw [Nat.div_eq_of_lt hx]; omega, Nat.mod_eq_of_lt hx⟩
  have hprow := row p hp' hp
  have hqrow := row q hq' hq
  cases p
  cases q
  simp only [Position.mk.injEq] at *
  omega

def contains (b : Board) (p : Position) : Bool := (b.index? p).isSome

theorem contains_iff {b : Board} {p : Position} :
    b.contains p = true ↔ 0 ≤ p.x ∧ p.x < b.width ∧ 0 ≤ p.y ∧ p.y < b.height := by
  unfold contains index?
  split
  · rename_i inside
    exact iff_of_true rfl inside
  · rename_i outside
    exact iff_of_false Bool.false_ne_true outside

def isBlocked (b : Board) (p : Position) : Bool :=
  match b.index? p with
  | some i => b.blocked[i]?.getD false
  | none => false

/-- The rubble at a position; off the map there is none. -/
def rubbleAt (b : Board) (p : Position) : Int :=
  match b.index? p with
  | some i => b.rubble[i]?.getD 0
  | none => 0

/-- Occupies or frees a position. Off the map nothing happens. -/
def setBlocked (b : Board) (p : Position) (value : Bool) : Board :=
  match b.index? p with
  | some i => { b with blocked := b.blocked.setIfInBounds i value }
  | none => b

def setRubble (b : Board) (p : Position) (value : Int) : Board :=
  match b.index? p with
  | some i => { b with rubble := b.rubble.setIfInBounds i value }
  | none => b

def fillRubble (b : Board) (value : Int) : Board :=
  { b with rubble := Vector.replicate _ value }

/-- On the map and free. The agent does not stand in its own way. -/
def isTraversable (b : Board) (p : Position) : Bool := b.contains p && !b.isBlocked p

/-- Moves the agent, and tells whether it moved: it stays when told to, and when the place it is sent
to cannot be entered. -/
def step (b : Board) (d : Direction) : Except Fault (Bool × Board) := do
  if d = .center then return (false, b)
  let destination ← b.agent.step d
  if b.isTraversable destination then return (true, { b with agent := destination })
  return (false, b)

def terrain (b : Board) : Terrain := ⟨b.agent, b.isTraversable, b.rubbleAt⟩

@[simp] theorem terrain_agent (b : Board) : b.terrain.agent = b.agent := rfl

end Board

end GridRoute
