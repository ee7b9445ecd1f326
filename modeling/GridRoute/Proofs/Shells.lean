import GridRoute.Proofs.WindowGrowth
import Mathlib.Data.Prod.Lex

/-!
Discs shell by shell. A disc can also be listed without sorting it: for one distance after the other, every offset of
a square is measured, and taken if it is at that distance. How large the square has to be is counted out anew for each
distance. No number on the way is too large, and the list comes out in the order of the disc.
-/

namespace GridRoute

open Sequencing

/-- Counts on from `root` until the square is at least `n`. Squares are unsigned numbers of 32 bits. -/
def rootFrom (n root : Nat) : Except Fault Nat :=
  if fits : root * root < 4294967296 then
    if root * root < n then rootFrom n (root + 1) else .ok root
  else .error .mulOverflow
termination_by 65536 - root
decreasing_by
  have : root < 65536 := Nat.mul_self_lt_mul_self_iff.mp fits
  omega

theorem rootFrom_eq_ok {n root : Nat} (small : ceilSqrt n < 65536) (hle : root ≤ ceilSqrt n) :
    rootFrom n root = .ok (ceilSqrt n) := by
  have fits : root * root < 65536 * 65536 := Nat.mul_self_lt_mul_self (by omega)
  -- Every candidate below the root has too small a square, so each call closes the gap to it by one.
  induction hgap : ceilSqrt n - root generalizing root with
  | zero =>
    obtain rfl : root = ceilSqrt n := by omega
    rw [rootFrom, dif_pos fits, if_neg (Nat.not_lt.mpr (le_ceilSqrt_sq n))]
  | succ gap ih =>
    have less : root * root < n := by
      by_contra hsquare
      have := ceilSqrt_le_of_le_sq (Nat.le_of_not_lt hsquare)
      omega
    rw [rootFrom, dif_pos fits, if_pos less]
    exact ih (by omega) (Nat.mul_self_lt_mul_self (by omega)) (by omega)

namespace Offset

/-- Nearest first; at one distance by column from the west, in a column from the south. -/
def key (o : Offset) : Nat ×ₗ Int ×ₗ Int := toLex (o.norm, toLex (o.x, o.y))

theorem key_lt_key_iff {a b : Offset} : a.key < b.key ↔
    a.norm < b.norm ∨ a.norm = b.norm ∧ (a.x < b.x ∨ a.x = b.x ∧ a.y < b.y) := by
  rw [key, key, Prod.Lex.toLex_lt_toLex, Prod.Lex.toLex_lt_toLex]

theorem noLater_of_key_lt {a b : Offset} (h : a.key < b.key) : a.NoLater b := by
  rw [key_lt_key_iff] at h
  unfold NoLater
  omega

theorem pairwise_square (reach : Nat) :
    (square reach).Pairwise fun a b => a.x < b.x ∨ a.x = b.x ∧ a.y < b.y := by
  rw [square, List.pairwise_flatMap]
  constructor
  · intro column _
    rw [List.pairwise_map]
    exact List.pairwise_lt_range.imp fun hrows => .inr ⟨rfl, by dsimp only; omega⟩
  · refine List.pairwise_lt_range.imp fun hcolumns a ha b hb => .inl ?_
    obtain ⟨_, _, rfl⟩ := List.mem_map.mp ha
    obtain ⟨_, _, rfl⟩ := List.mem_map.mp hb
    dsimp only
    omega

def shell (n : Nat) : List Offset := (square (ceilSqrt n)).filter fun o => o.norm = n

theorem mem_shell {n : Nat} {o : Offset} : o ∈ shell n ↔ o.norm = n := by
  rw [shell, List.mem_filter, decide_eq_true_eq]
  exact ⟨And.right, fun h => ⟨mem_square_ceilSqrt (Nat.le_of_eq h), h⟩⟩

theorem pairwise_shell (n : Nat) : (shell n).Pairwise fun a b => a.key < b.key := by
  rw [shell, List.pairwise_filter]
  refine (pairwise_square _).imp fun hscan ha hb => ?_
  simp only [decide_eq_true_eq] at ha hb
  exact key_lt_key_iff.mpr (.inr ⟨ha.trans hb.symm, hscan⟩)

def shells (radius : Nat) : List Offset := (List.range' 1 radius).flatMap shell

theorem mem_shells {radius : Nat} {o : Offset} :
    o ∈ shells radius ↔ 1 ≤ o.norm ∧ o.norm ≤ radius := by
  simp only [shells, List.mem_flatMap, List.mem_range'_1, mem_shell]
  constructor
  · rintro ⟨n, hn, rfl⟩
    omega
  · intro h
    exact ⟨o.norm, by omega, rfl⟩

theorem pairwise_shells (radius : Nat) : (shells radius).Pairwise fun a b => a.key < b.key := by
  rw [shells, List.pairwise_flatMap]
  refine ⟨fun n _ => pairwise_shell n, (List.pairwise_lt_range' 1).imp fun hdistances a ha b hb => ?_⟩
  rw [mem_shell] at ha hb
  exact key_lt_key_iff.mpr (.inl (by omega))

theorem nodup_shells (radius : Nat) : (shells radius).Nodup :=
  (pairwise_shells radius).imp fun hless => ne_of_apply_ne key (ne_of_lt hless)

def take (n : Nat) (found : List Offset) (o : Offset) : Except Fault (List Offset) := do
  if (← o.squaredDistance) = n then return found ++ [o]
  return found

def takeShell (found : List Offset) (n : Nat) : Except Fault (List Offset) := do
  let reach ← rootFrom n 0
  (square reach).foldlM (take n) found

def takeShells (radius : Nat) : Except Fault (List Offset) :=
  (List.range' 1 radius).foldlM takeShell []

theorem take_eq_ok {n : Nat} {o : Offset} (moderate : o.Moderate) (found : List Offset) :
    take n found o = .ok (found ++ [o].filter fun o => o.norm = n) := by
  rw [take, moderate.squaredDistance_eq, ok_bind]
  by_cases h : o.norm = n
  · rw [if_pos h, List.filter_eq_self.mpr (by simpa using h)]
    rfl
  · rw [if_neg h, List.filter_eq_nil_iff.mpr (by simpa using h), List.append_nil]
    rfl

/-- Near the origin everything can be measured, out to the corners of the square. -/
theorem takeShell_eq_ok {n : Nat} (h : n ≤ 1073741824) (found : List Offset) :
    takeShell found n = .ok (found ++ shell n) := by
  have hreach : ceilSqrt n ≤ 32768 := ceilSqrt_le_of_le_sq h
  have hstep : ∀ o ∈ square (ceilSqrt n), ∀ found,
      take n found o = .ok (found ++ [o].filter fun o => o.norm = n) := by
    intro o ho
    have hin := mem_square.mp ho
    exact take_eq_ok ⟨by omega, by omega⟩
  rw [takeShell, rootFrom_eq_ok (by omega) (Nat.zero_le _), ok_bind, foldlM_append_eq_ok found hstep,
    ← List.filter_flatMap, List.flatMap_singleton', shell]

theorem takeShells_eq_ok {radius : Nat} (h : radius ≤ 1073741824) :
    takeShells radius = .ok (shells radius) := by
  refine foldlM_append_eq_ok [] fun n hn found => takeShell_eq_ok ?_ found
  have hin := List.mem_range'_1.mp hn
  omega

theorem disc_eq_ok {radius : Nat} (h : radius ≤ 1073741824) :
    disc radius = .ok (shells radius) := by
  obtain ⟨offsets, hdisc, sorted, nodup, hmem⟩ := exists_disc_eq_ok h
  have hperm : offsets.Perm (shells radius) := by
    rw [List.perm_ext_iff_of_nodup nodup (nodup_shells radius)]
    intro o
    rw [hmem, mem_shells, one_le_norm_iff]
  have hsorted := (pairwise_shells radius).imp fun hkeys => noLater_of_key_lt hkeys
  rw [hdisc, hperm.eq_of_pairwise (fun _ _ _ _ => NoLater.antisymm) sorted hsorted]

/-- A disc lists every offset with a squared distance from 1 to its radius once and nothing else, in the strict order
of their keys; taking shell after shell lists the same, and neither overflows. -/
theorem disc_lists_shells {radius : Nat} (h : radius ≤ 1073741824) :
    ∃ offsets, disc radius = .ok offsets ∧ takeShells radius = .ok offsets ∧
      (∀ o, offsets.count o = if 1 ≤ o.norm ∧ o.norm ≤ radius then 1 else 0) ∧
      offsets.Pairwise fun a b => a.key < b.key := by
  refine ⟨_, disc_eq_ok h, takeShells_eq_ok h, fun o => ?_, pairwise_shells radius⟩
  rw [(nodup_shells radius).count]
  simp only [mem_shells]

theorem disc_lists_shells_widest :
    1073741824 ≤ 1073741824 ∧
    ∃ offsets, disc 1073741824 = .ok offsets ∧ takeShells 1073741824 = .ok offsets ∧
      (∀ o, offsets.count o = if 1 ≤ o.norm ∧ o.norm ≤ 1073741824 then 1 else 0) ∧
      offsets.Pairwise fun a b => a.key < b.key :=
  ⟨Nat.le_refl _, disc_lists_shells (Nat.le_refl _)⟩

end Offset

end GridRoute
