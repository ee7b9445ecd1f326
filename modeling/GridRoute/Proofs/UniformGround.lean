import GridRoute.Proofs.PlainBoard

/-!
Uniform ground. On a board without obstacles and with the same rubble everywhere, the first pass is already final: it
gives every cell on the board one step for each ring up to its own, and a round that finds nothing shorter leaves even
the ties as they are. What the edges of the board cut off stays closed.
-/

namespace GridRoute

def Board.strip : Board := (Board.empty 70 5 ⟨69, 2⟩).fillRubble 17929421

theorem Board.strip_plain : strip.Plain 17929421 :=
  plain_fillRubble (by decide) (by decide) (by decide) 17929421

namespace Pathfinder

namespace Serves

variable {p : Pathfinder} {radius : Radius} {t : Terrain} {cost : Int}

theorem length_after_of_closed (h : p.Serves radius) (regular : t.Regular radius) {cell : Nat}
    {o : Offset} (hcell : p.window.offset? cell = some o) (blocked : ¬ t.Enters o) (rounds : Nat) :
    ((p.after t rounds).record cell).length = Cost.unreached := by
  rw [(h.sound_after regular rounds cell o hcell).eq_closed blocked]
  rfl

theorem after_eq_start_of_open (h : p.Serves radius) (ground : t.Open radius cost) (rounds : Nat) :
    p.after t rounds = p.after t 0 := by
  -- The lengths alone decide whether a round stands still, and they are the same after any number of rounds.
  refine after_eq_of_sameLengths (sameLengths_of_cells fun cell o hcell => ?_) (Nat.zero_le rounds)
  by_cases enters : t.Enters o
  · rw [h.length_after_eq_rings ground hcell enters, h.length_after_eq_rings ground hcell enters]
  · rw [h.length_after_of_closed ground.regular hcell enters,
      h.length_after_of_closed ground.regular hcell enters]

end Serves

/-- On a plain board all searches return the same estimates, whatever the number of rounds. In them the cells on the
board are as many steps long as there are rings up to theirs, and those beyond its edges are unreached. -/
theorem one_pass_suffices (radius : Radius) (b : Board) {rubble : Int} (plain : b.Plain rubble)
    (nonneg : 0 ≤ rubble + Cost.step)
    (affordable : 64 * (rubble + Cost.step) + Cost.step < Cost.unreached) :
    ∃ p es, compile radius.value = .ok p ∧ (∀ rounds, p.estimates b.terrain rounds = .ok es) ∧
      es.size = p.window.size ∧
      ∀ cell o, p.window.offset? cell = some o → ∃ e, es.cells[cell]? = some e ∧
        (b.contains (b.agent.displaced o) = true →
          e.length = o.chebyshev * (rubble + Cost.step) + Cost.step) ∧
        (b.contains (b.agent.displaced o) = false → e.length = Cost.unreached) := by
  obtain ⟨p, hcompile, h⟩ := exists_compile_eq_ok radius
  have ground := plain.terrain_open radius nonneg affordable
  refine ⟨p, p.after b.terrain 0, hcompile, fun rounds => ?_, p.size_after _ _,
    fun cell o hcell => ?_⟩
  · rw [h.estimates_eq_ok (plain.inRange radius), h.after_eq_start_of_open ground]
  · have hlt : cell < (p.after b.terrain 0).size :=
      (p.size_after b.terrain 0).symm ▸ Window.offset?_lt_size hcell
    refine ⟨_, Estimates.getElem?_eq_some_record hlt, fun inside => ?_, fun outside => ?_⟩
    · rw [h.length_after_eq_rings ground hcell (plain.enters_iff.mpr inside), Int.add_comm]
    · refine h.length_after_of_closed ground.regular hcell (fun enters => ?_) 0
      rw [plain.enters_iff, outside] at enters
      exact Bool.false_ne_true enters

theorem one_pass_suffices_strip :
    Board.strip.Plain 17929421 ∧ 0 ≤ 17929421 + Cost.step ∧
    64 * (17929421 + Cost.step) + Cost.step < Cost.unreached ∧
    ∃ p es, compile 4096 = .ok p ∧ (∀ rounds, p.estimates Board.strip.terrain rounds = .ok es) ∧
      es.size = p.window.size ∧
      ∀ cell o, p.window.offset? cell = some o → ∃ e, es.cells[cell]? = some e ∧
        (Board.strip.contains (Board.strip.agent.displaced o) = true →
          e.length = o.chebyshev * (17929421 + Cost.step) + Cost.step) ∧
        (Board.strip.contains (Board.strip.agent.displaced o) = false →
          e.length = Cost.unreached) :=
  ⟨Board.strip_plain, by decide, by decide,
    one_pass_suffices ⟨4096, by decide, by decide⟩ .strip Board.strip_plain (by decide) (by decide)⟩

end Pathfinder

end GridRoute
