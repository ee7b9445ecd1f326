import GridRoute.Proofs.OpenGround

/-!
Plain boards. A board without obstacles and with the same rubble everywhere is open ground around its agent, also
where its edges cut the window: going inward never leads off the board.
-/

namespace GridRoute.Board

open Position

variable {b : Board} {q target : Position} {rubble : Int}

/-- The agent stands on the board, which is small enough for all its places to be within reach of each other; none
of them is blocked, and all have the same rubble. -/
structure Plain (b : Board) (rubble : Int) : Prop where
  width_le : b.width ≤ 1073741824
  height_le : b.height ≤ 1073741824
  agent_mem : b.contains b.agent = true
  isBlocked_eq : ∀ q, b.contains q = true → b.isBlocked q = false
  rubbleAt_eq : ∀ q, b.contains q = true → b.rubbleAt q = rubble

theorem plain_fillRubble {width height : Nat} {agent : Position} (hwidth : width ≤ 1073741824)
    (hheight : height ≤ 1073741824) (hagent : (empty width height agent).contains agent = true)
    (rubble : Int) : ((empty width height agent).fillRubble rubble).Plain rubble where
  width_le := hwidth
  height_le := hheight
  agent_mem := hagent
  isBlocked_eq := by
    intro q _
    unfold isBlocked fillRubble empty
    dsimp only
    split
    · rw [Vector.getElem?_replicate]
      split <;> rfl
    · rfl
  rubbleAt_eq := by
    intro q hq
    obtain ⟨i, hi⟩ := Option.isSome_iff_exists.mp hq
    have hlt := index?_lt hi
    unfold rubbleAt
    rw [hi]
    unfold fillRubble empty at hlt ⊢
    dsimp only at hlt ⊢
    rw [Vector.getElem?_replicate, if_pos hlt, Option.getD_some]

namespace Plain

theorem move (h : b.Plain rubble) (hq : b.contains q = true) :
    ({ b with agent := q } : Board).Plain rubble :=
  ⟨h.width_le, h.height_le, hq, h.isBlocked_eq, h.rubbleAt_eq⟩

theorem isTraversable_iff (h : b.Plain rubble) : b.isTraversable q = true ↔ b.contains q = true := by
  unfold isTraversable
  rw [Bool.and_eq_true, Bool.not_eq_true']
  exact ⟨And.left, fun hq => ⟨hq, h.isBlocked_eq q hq⟩⟩

theorem enters_iff (h : b.Plain rubble) {o : Offset} :
    b.terrain.Enters o ↔ b.contains (b.agent.displaced o) = true :=
  h.isTraversable_iff

theorem contains_of_within (h : b.Plain rubble) (htarget : b.contains target = true)
    (hx : Within b.agent.x target.x q.x) (hy : Within b.agent.y target.y q.y) :
    b.contains q = true := by
  have hagent := contains_iff.mp h.agent_mem
  rw [contains_iff] at htarget ⊢
  unfold Within at hx hy
  omega

theorem inRange (h : b.Plain rubble) (r : Radius) : r.InRange b.terrain.agent := by
  intro o sees
  have hnear := sees.natAbs_le
  have hagent := contains_iff.mp h.agent_mem
  have hwidth := h.width_le
  have hheight := h.height_le
  change Bounded.Fits (b.agent.x + o.x) ∧ Bounded.Fits (b.agent.y + o.y)
  rw [Bounded.fits_iff, Bounded.fits_iff]
  omega

theorem inReach (h : b.Plain rubble) (htarget : b.contains target = true) :
    b.terrain.agent.InReach target := by
  have hagent := contains_iff.mp h.agent_mem
  rw [contains_iff] at htarget
  have hwidth := h.width_le
  have hheight := h.height_le
  refine ⟨?_, ?_, ?_⟩
  · rw [Fits, Bounded.fits_iff, Bounded.fits_iff]
    omega
  · change (target.x - b.agent.x).natAbs < _
    omega
  · change (target.y - b.agent.y).natAbs < _
    omega

theorem terrain_open (h : b.Plain rubble) (r : Radius) (nonneg : 0 ≤ rubble + Cost.step)
    (affordable : 64 * (rubble + Cost.step) + Cost.step < Cost.unreached) :
    b.terrain.Open r (rubble + Cost.step) where
  inRange := h.inRange r
  nonneg := nonneg
  affordable := affordable
  enters_inward := by
    intro o enters
    have hagent := contains_iff.mp h.agent_mem
    have hx := Offset.sign_bounds o.x
    have hy := Offset.sign_bounds o.y
    rw [h.enters_iff, contains_iff] at enters ⊢
    unfold displaced at enters ⊢
    unfold Offset.inward
    dsimp only at enters ⊢
    omega
  costAt_eq := by
    intro o enters
    change b.rubbleAt (b.agent.displaced o) + Cost.step = _
    rw [h.rubbleAt_eq _ (h.enters_iff.mp enters)]

end Plain

end GridRoute.Board
