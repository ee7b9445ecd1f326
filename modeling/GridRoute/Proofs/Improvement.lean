import GridRoute.Proofs.Relaxation

/-!
What relaxation improves. Offers keep places and costs and shorten routes at most, and a round that shortens
nothing leaves every estimate as it was.
-/

namespace GridRoute.Estimates

/-- The same cells with routes that are no longer. -/
structure Shortens (es next : Estimates) : Prop where
  size_eq : next.size = es.size
  position_eq : ∀ cell, (next.record cell).position = (es.record cell).position
  cost_eq : ∀ cell, (next.record cell).cost = (es.record cell).cost
  length_le : ∀ cell, (next.record cell).length ≤ (es.record cell).length

namespace Shortens

variable {es next last : Estimates}

theorem refl (es : Estimates) : Shortens es es :=
  ⟨rfl, fun _ => rfl, fun _ => rfl, fun _ => Int.le_refl _⟩

theorem trans (h : Shortens es next) (h' : Shortens next last) : Shortens es last where
  size_eq := h'.size_eq.trans h.size_eq
  position_eq cell := (h'.position_eq cell).trans (h.position_eq cell)
  cost_eq cell := (h'.cost_eq cell).trans (h.cost_eq cell)
  length_le cell := Int.le_trans (h'.length_le cell) (h.length_le cell)

theorem foldl {α : Type} {g : Estimates → α → Estimates} (h : ∀ es x, Shortens es (g es x))
    (xs : List α) (es : Estimates) : Shortens es (xs.foldl g es) := by
  induction xs generalizing es with
  | nil => exact refl es
  | cons x xs ih => exact (h es x).trans (ih (g es x))

end Shortens

theorem shortens_offered (cell : Nat) (es : Estimates) (source : Nat) :
    Shortens es (offered cell es source) := by
  have keep (other : Nat) : other = cell ∧ other < es.size ∨
      (offered cell es source).record other = es.record other := by
    by_cases hself : other = cell ∧ other < es.size
    · exact .inl hself
    · exact .inr (by rw [offered, record_set, if_neg hself])
  refine ⟨size_offered .., ?_, ?_, ?_⟩
  · intro other
    rcases keep other with ⟨rfl, hlt⟩ | heq
    · rw [offered, record_set_self hlt, Estimate.position_improve]
    · rw [heq]
  · intro other
    rcases keep other with ⟨rfl, hlt⟩ | heq
    · rw [offered, record_set_self hlt, Estimate.cost_improve]
    · rw [heq]
  · intro other
    rcases keep other with ⟨rfl, hlt⟩ | heq
    · rw [offered, record_set_self hlt, Estimate.length_improve]
      exact Int.min_le_left _ _
    · exact Int.le_of_eq (congrArg Estimate.length heq)

theorem shortens_relaxed (es : Estimates) (r : Relaxation) : Shortens es (es.relaxed r) := by
  unfold relaxed
  split
  · exact .refl es
  · exact .foldl (shortens_offered r.cell) r.sources es

theorem shortens_swept (rs : List Relaxation) (es : Estimates) : Shortens es (es.swept rs) :=
  .foldl shortens_relaxed rs es

theorem shortens_iterate_swept (rs : List Relaxation) (n : Nat) (es : Estimates) :
    Shortens es ((swept rs)^[n] es) := by
  induction n with
  | zero => exact .refl es
  | succ n ih =>
    rw [Function.iterate_succ_apply']
    exact ih.trans (shortens_swept rs _)

def SameLengths (es next : Estimates) : Prop :=
  ∀ cell, (next.record cell).length = (es.record cell).length

/-- Steps that shorten something or change nothing: if all of them shorten nothing, nothing changes. -/
theorem foldl_eq_self {α : Type} {g : Estimates → α → Estimates}
    (shortens : ∀ es x, Shortens es (g es x))
    (still : ∀ es x, SameLengths es (g es x) → g es x = es) {xs : List α} {es : Estimates}
    (h : SameLengths es (xs.foldl g es)) : xs.foldl g es = es := by
  induction xs generalizing es with
  | nil => rfl
  | cons x xs ih =>
    rw [List.foldl_cons] at h ⊢
    have hfirst : g es x = es := by
      apply still
      intro cell
      have := (shortens es x).length_le cell
      have := (Shortens.foldl shortens xs (g es x)).length_le cell
      have := h cell
      omega
    rw [hfirst] at h ⊢
    exact ih h

theorem offered_eq_self {cell : Nat} {es : Estimates} {source : Nat}
    (h : SameLengths es (offered cell es source)) : offered cell es source = es := by
  by_cases hcell : cell < es.size
  · have hlength := h cell
    rw [offered, record_set_self hcell, Estimate.length_improve] at hlength
    rw [offered, Estimate.improve_of_le _ _ _ (by omega), set_record]
  · unfold offered set
    rw [Array.setIfInBounds_eq_of_size_le (Nat.le_of_not_lt hcell)]

theorem relaxed_eq_self {es : Estimates} {r : Relaxation} (h : SameLengths es (es.relaxed r)) :
    es.relaxed r = es := by
  unfold relaxed at h ⊢
  split at h
  · rename_i hclosed
    rw [if_pos hclosed]
  · rename_i hopen
    rw [if_neg hopen]
    exact foldl_eq_self (shortens_offered r.cell) (fun _ _ => offered_eq_self) h

theorem swept_eq_self {es : Estimates} {rs : List Relaxation} (h : SameLengths es (es.swept rs)) :
    es.swept rs = es :=
  foldl_eq_self shortens_relaxed (fun _ _ => relaxed_eq_self) h

theorem length_iterate_swept_le (rs : List Relaxation) (es : Estimates) {m n : Nat} (hmn : m ≤ n)
    (cell : Nat) :
    (((swept rs)^[n] es).record cell).length ≤ (((swept rs)^[m] es).record cell).length := by
  obtain ⟨k, rfl⟩ := Nat.exists_eq_add_of_le' hmn
  rw [Function.iterate_add_apply]
  exact (shortens_iterate_swept rs k _).length_le cell

theorem iterate_swept_eq_of_sameLengths {rs : List Relaxation} {es : Estimates} {n : Nat}
    (h : SameLengths ((swept rs)^[n] es) ((swept rs)^[n + 1] es)) {m : Nat} (hm : n ≤ m) :
    (swept rs)^[m] es = (swept rs)^[n] es := by
  rw [Function.iterate_succ_apply'] at h
  obtain ⟨k, rfl⟩ := Nat.exists_eq_add_of_le' hm
  rw [Function.iterate_add_apply]
  exact Function.iterate_fixed (swept_eq_self h) k

end GridRoute.Estimates
