import GridRoute.CompileError
import Mathlib.Data.List.Forall2

/-!
Computations that may fail, one after the other. A list of them succeeds when every single one does, and a
fold succeeds when every step keeps an invariant under which the next one succeeds.
-/

namespace GridRoute.Sequencing

variable {α β ε σ : Type}

theorem bind_eq_ok_iff {x : Except ε α} {f : α → Except ε β} {b : β} :
    x >>= f = .ok b ↔ ∃ a, x = .ok a ∧ f a = .ok b := by
  cases x with
  | error e => simp [bind, Except.bind]
  | ok a => simp [bind, Except.bind]

@[simp] theorem ok_bind (a : α) (f : α → Except ε β) : Except.ok a >>= f = f a := rfl

@[simp] theorem lift_ok (a : α) :
    (liftM (Except.ok a : Except Fault α) : Except CompileError α) = .ok a := rfl

theorem lift_eq_ok_iff {x : Except Fault α} {a : α} :
    (liftM x : Except CompileError α) = .ok a ↔ x = .ok a := by
  cases x with
  | error cause =>
    change Except.error (CompileError.fault cause) = .ok a ↔ _
    simp
  | ok value => simp

theorem mapM_eq_ok_iff {f : α → Except ε β} {xs : List α} {ys : List β} :
    xs.mapM f = .ok ys ↔ List.Forall₂ (fun x y => f x = .ok y) xs ys := by
  induction xs generalizing ys with
  | nil =>
    rw [List.mapM_nil, List.forall₂_nil_left_iff]
    exact ⟨fun h => (Except.ok.inj h).symm, fun h => congrArg Except.ok h.symm⟩
  | cons x xs ih =>
    rw [List.mapM_cons, bind_eq_ok_iff, List.forall₂_cons_left_iff]
    constructor
    · rintro ⟨y, hy, h⟩
      obtain ⟨rest, hrest, h⟩ := bind_eq_ok_iff.mp h
      exact ⟨y, rest, hy, ih.mp hrest, (Except.ok.inj h).symm⟩
    · rintro ⟨y, rest, hy, hrest, rfl⟩
      exact ⟨y, hy, bind_eq_ok_iff.mpr ⟨rest, ih.mpr hrest, rfl⟩⟩

theorem map_eq_range {f : α → Nat} {xs : List α} {n : Nat} (hlength : xs.length = n)
    (h : ∀ i x, xs[i]? = some x → f x = i) : xs.map f = List.range n := by
  refine List.ext_getElem (by rw [List.length_map, List.length_range, hlength]) fun i hi _ => ?_
  rw [List.getElem_map, List.getElem_range]
  exact h i _ (List.getElem?_eq_getElem (by simpa using hi))

/-- Where every success of one computation is one of the other, a longer list has the same results at first. -/
theorem isPrefix_of_mapM_eq_ok {f g : α → Except ε β} {xs zs : List α} {ys ws : List β}
    (hxs : xs <+: zs) (h : ∀ x y, f x = .ok y → g x = .ok y) (hys : xs.mapM f = .ok ys)
    (hws : zs.mapM g = .ok ws) : ys <+: ws := by
  obtain ⟨rest, rfl⟩ := hxs
  have hfirst : xs.mapM g = .ok ys := mapM_eq_ok_iff.mpr ((mapM_eq_ok_iff.mp hys).imp h)
  rw [List.mapM_append, hfirst, ok_bind, bind_eq_ok_iff] at hws
  obtain ⟨behind, -, hws⟩ := hws
  exact ⟨behind, Except.ok.inj hws⟩

/-- The invariant may speak of the part of the list that is done. -/
theorem exists_foldlM_eq_ok {f : σ → α → Except ε σ} {xs : List α} {s : σ}
    (invariant : List α → σ → Prop) (start : invariant [] s)
    (step : ∀ (done : List α) (x : α) (rest : List α) (s : σ), xs = done ++ x :: rest →
      invariant done s → ∃ next, f s x = .ok next ∧ invariant (done ++ [x]) next) :
    ∃ last, xs.foldlM f s = .ok last ∧ invariant xs last := by
  suffices h : ∀ (rest done : List α) (s : σ), xs = done ++ rest → invariant done s →
      ∃ last, rest.foldlM f s = .ok last ∧ invariant xs last from h xs [] s rfl start
  intro rest
  induction rest with
  | nil =>
    intro done s hxs hs
    rw [List.append_nil] at hxs
    exact ⟨s, rfl, hxs ▸ hs⟩
  | cons x rest ih =>
    intro done s hxs hs
    obtain ⟨next, hnext, hinvariant⟩ := step done x rest s hxs hs
    obtain ⟨last, hlast, hdone⟩ := ih (done ++ [x]) next (by simp [hxs]) hinvariant
    refine ⟨last, ?_, hdone⟩
    rw [List.foldlM_cons, hnext, ok_bind]
    exact hlast

theorem foldlM_eq_ok_foldl {f : σ → α → Except ε σ} {g : σ → α → σ} {xs : List α} {s : σ}
    (invariant : σ → Prop) (start : invariant s)
    (step : ∀ x ∈ xs, ∀ s, invariant s → f s x = .ok (g s x) ∧ invariant (g s x)) :
    xs.foldlM f s = .ok (xs.foldl g s) := by
  induction xs generalizing s with
  | nil => rfl
  | cons x xs ih =>
    obtain ⟨hx, hinvariant⟩ := step x (by simp) s start
    rw [List.foldlM_cons, hx, ok_bind, List.foldl_cons]
    exact ih hinvariant fun y hy => step y (List.mem_cons_of_mem x hy)

theorem foldlM_append_eq_ok {f : List β → α → Except ε (List β)} {g : α → List β} {xs : List α}
    (found : List β) (step : ∀ x ∈ xs, ∀ found, f found x = .ok (found ++ g x)) :
    xs.foldlM f found = .ok (found ++ xs.flatMap g) := by
  rw [foldlM_eq_ok_foldl (fun _ => True) trivial fun x hx found _ => ⟨step x hx found, trivial⟩,
    List.foldl_append_eq_append, List.flatMap_def]

end GridRoute.Sequencing
