import GridRoute.Proofs.Improvement

/-!
Searches that stay ahead of others. Where one search has a route no longer than another has, to every cell that
the other looks at, and is made all offers that the other is made, in the same order and any more besides, it
never falls behind: sums that stop at the ends of their range keep the order.
-/

namespace GridRoute

theorem Cost.add_le_add {a b c d : Int} (h : a ≤ b) (h' : c ≤ d) : Cost.add a c ≤ Cost.add b d := by
  unfold Cost.add Bounded.saturatingAdd
  omega

/-- Not farther than the other, and to be entered for no more wherever the other can be entered. -/
structure Estimate.Undercuts (low high : Estimate) : Prop where
  length_le : low.length ≤ high.length
  isSome_position : high.position.isSome → low.position.isSome
  cost_le : high.position.isSome → low.cost ≤ high.cost

theorem Estimate.Undercuts.improve {low high lowVia highVia : Estimate} (h : low.Undercuts high)
    (hopen : high.position.isSome) (hvia : lowVia.length ≤ highVia.length) (source : Nat) :
    (low.improve source lowVia).Undercuts (high.improve source highVia) where
  length_le := by
    have hown := h.length_le
    have hoffer := Cost.add_le_add hvia (h.cost_le hopen)
    rw [length_improve, length_improve]
    omega
  isSome_position := by
    rw [position_improve, position_improve]
    exact h.isSome_position
  cost_le := by
    rw [position_improve, cost_improve, cost_improve]
    exact h.cost_le

/-- The relaxation makes the same cell some of the offers that the other makes it, in the same order. -/
def Relaxation.Narrows (r wider : Relaxation) : Prop :=
  r.cell = wider.cell ∧ r.sources.Sublist wider.sources

instance : Std.Refl Relaxation.Narrows := ⟨fun _ => ⟨rfl, .refl _⟩⟩

theorem Relaxation.sublistForall₂_narrows {rs wider : List Relaxation}
    (sorted : rs.Pairwise fun a b => a.cell < b.cell)
    (sorted' : wider.Pairwise fun a b => a.cell < b.cell)
    (h : ∀ r ∈ rs, ∃ r' ∈ wider, r.Narrows r') : rs.SublistForall₂ Narrows wider := by
  induction wider generalizing rs with
  | nil =>
    cases rs with
    | nil => exact .nil
    | cons r rs =>
      obtain ⟨_, hmem, -⟩ := h r (by simp)
      cases hmem
  | cons w wider ih =>
    obtain ⟨hlater', hsorted'⟩ := List.pairwise_cons.mp sorted'
    cases rs with
    | nil => exact .nil
    | cons r rs =>
      obtain ⟨hlater, hsorted⟩ := List.pairwise_cons.mp sorted
      obtain ⟨r', hmem, hnarrows⟩ := h r (by simp)
      rcases List.mem_cons.mp hmem with rfl | hbehind
      · refine .cons hnarrows (ih hsorted hsorted' fun a ha => ?_)
        obtain ⟨a', ha', hnarrows'⟩ := h a (List.mem_cons_of_mem r ha)
        rcases List.mem_cons.mp ha' with rfl | ha'
        · have := hlater a ha
          have := hnarrows.1
          have := hnarrows'.1
          omega
        · exact ⟨a', ha', hnarrows'⟩
      · -- The other round comes to the first cell only later, and to the cells behind it later still.
        refine .cons_right (ih sorted hsorted' fun a ha => ?_)
        have hfirst : w.cell < r.cell := hnarrows.1 ▸ hlater' r' hbehind
        obtain ⟨a', ha', hnarrows'⟩ := h a ha
        rcases List.mem_cons.mp ha' with rfl | ha'
        · rcases List.mem_cons.mp ha with rfl | ha
          · have := hnarrows'.1
            omega
          · have := hlater a ha
            have := hnarrows'.1
            omega
        · exact ⟨a', ha', hnarrows'⟩

namespace Estimates

structure Undercuts (low high : Estimates) : Prop where
  size_le : high.size ≤ low.size
  record : ∀ cell < high.size, (low.record cell).Undercuts (high.record cell)

namespace Undercuts

variable {low high next : Estimates}

theorem of_shortens (h : low.Undercuts high) (shortens : low.Shortens next) :
    next.Undercuts high where
  size_le := shortens.size_eq.symm ▸ h.size_le
  record cell hcell :=
    { length_le := Int.le_trans (shortens.length_le cell) (h.record cell hcell).length_le
      isSome_position := shortens.position_eq cell ▸ (h.record cell hcell).isSome_position
      cost_le := shortens.cost_eq cell ▸ (h.record cell hcell).cost_le }

theorem offered (h : low.Undercuts high) {cell source : Nat} (hsource : source < high.size)
    (hopen : (high.record cell).position.isSome) :
    (offered cell low source).Undercuts (offered cell high source) where
  size_le := by
    rw [size_offered, size_offered]
    exact h.size_le
  record other hother := by
    rw [size_offered] at hother
    have hbefore := h.record other hother
    rw [Estimates.offered, Estimates.offered]
    by_cases hself : other = cell
    · subst hself
      rw [record_set_self hother, record_set_self (Nat.lt_of_lt_of_le hother h.size_le)]
      exact hbefore.improve hopen (h.record source hsource).length_le source
    · rw [record_set_of_ne _ hself, record_set_of_ne _ hself]
      exact hbefore

theorem offers {cell : Nat} {sources wider : List Nat} (hsub : sources.Sublist wider)
    (h : low.Undercuts high) (hsources : ∀ source ∈ sources, source < high.size)
    (hopen : (high.record cell).position.isSome) :
    (wider.foldl (Estimates.offered cell) low).Undercuts
      (sources.foldl (Estimates.offered cell) high) := by
  induction hsub generalizing low high with
  | slnil => exact h
  | cons source _ ih =>
    exact ih (h.of_shortens (shortens_offered cell low source)) hsources hopen
  | cons_cons source _ ih =>
    obtain ⟨hfirst, hrest⟩ := List.forall_mem_cons.mp hsources
    refine ih (h.offered hfirst hopen) ?_ ?_
    · rwa [size_offered]
    · rwa [(shortens_offered cell high source).position_eq]

/-- A cell that the other search cannot enter may be relaxed nevertheless. -/
theorem relaxed (h : low.Undercuts high) {r wider : Relaxation} (hnarrows : r.Narrows wider)
    (within : r.Within high.size) : (low.relaxed wider).Undercuts (high.relaxed r) := by
  by_cases hopen : (high.record r.cell).position.isSome
  · have hopen' := (h.record r.cell within.1).isSome_position hopen
    rw [hnarrows.1] at hopen hopen'
    rw [Estimates.relaxed, Estimates.relaxed, hnarrows.1,
      if_neg (by simp [Option.isSome_iff_ne_none.mp hopen']),
      if_neg (by simp [Option.isSome_iff_ne_none.mp hopen])]
    exact offers hnarrows.2 h within.2 hopen
  · rw [Estimates.relaxed.eq_def high, if_pos (by simpa using hopen)]
    exact h.of_shortens (shortens_relaxed low wider)

theorem swept {rs wider : List Relaxation} (hnarrows : rs.SublistForall₂ Relaxation.Narrows wider)
    (h : low.Undercuts high) (within : ∀ r ∈ rs, r.Within high.size) :
    (low.swept wider).Undercuts (high.swept rs) := by
  induction hnarrows generalizing low high with
  | nil => exact h.of_shortens (shortens_swept _ low)
  | cons hfirst _ ih =>
    obtain ⟨hwithin, hrest⟩ := List.forall_mem_cons.mp within
    refine ih (h.relaxed hfirst hwithin) ?_
    rwa [size_relaxed]
  | cons_right _ ih => exact ih (h.of_shortens (shortens_relaxed low _)) within

theorem iterate_swept {rs wider : List Relaxation}
    (hnarrows : rs.SublistForall₂ Relaxation.Narrows wider) (h : low.Undercuts high)
    (within : ∀ r ∈ rs, r.Within high.size) (rounds : Nat) :
    ((Estimates.swept wider)^[rounds] low).Undercuts ((Estimates.swept rs)^[rounds] high) := by
  induction rounds generalizing low high with
  | zero => exact h
  | succ rounds ih =>
    rw [Function.iterate_succ_apply, Function.iterate_succ_apply]
    refine ih (swept hnarrows h within) ?_
    rwa [size_swept]

end Undercuts

end Estimates

end GridRoute
