import GridRoute.Disc
import GridRoute.Proofs.Neighborhood
import Mathlib.Data.List.Nodup

/-!
Growing windows. Offsets that come nearest first, each of them once, make a window, and the offsets of a
disc come that way: the window of a radius holds everything in sight.
-/

namespace GridRoute

open Sequencing

theorem ceilSqrt_le_of_le_sq {n k : Nat} (h : n ≤ k * k) : ceilSqrt n ≤ k := by
  obtain ⟨lower, upper⟩ := floorSqrt_bounds n
  unfold ceilSqrt
  dsimp only
  by_contra hk
  split at hk
  · have := Nat.mul_le_mul (show k ≤ floorSqrt n by omega) (show k ≤ floorSqrt n by omega)
    omega
  · have := Nat.mul_self_lt_mul_self (show k < floorSqrt n by omega)
    omega

namespace Offset

theorem nodup_square (reach : Nat) : (square reach).Nodup := by
  unfold square
  rw [List.nodup_flatMap]
  constructor
  · intro column _
    refine List.Nodup.map ?_ List.nodup_range
    intro a b hab
    have := congrArg Offset.y hab
    dsimp only at this
    omega
  · refine List.nodup_range.imp ?_
    intro a b hab o ha hb
    rw [List.mem_map] at ha hb
    obtain ⟨_, _, rfl⟩ := ha
    obtain ⟨_, _, heq⟩ := hb
    have := congrArg Offset.x heq
    dsimp only at this
    omega

theorem one_le_norm_iff {o : Offset} : 1 ≤ o.norm ↔ o ≠ origin := by
  rw [Nat.one_le_iff_ne_zero, Ne, norm_eq_zero_iff]

theorem natAbs_le_of_norm_le {o : Offset} {k : Nat} (h : o.norm ≤ k * k) :
    o.x.natAbs ≤ k ∧ o.y.natAbs ≤ k := by
  unfold norm at h
  exact ⟨Nat.mul_self_le_mul_self_iff.mp (by omega), Nat.mul_self_le_mul_self_iff.mp (by omega)⟩

theorem mem_square_ceilSqrt {o : Offset} {radius : Nat} (h : o.norm ≤ radius) :
    o ∈ square (ceilSqrt radius) := by
  unfold norm at h
  exact mem_square.mpr ⟨le_ceilSqrt_of_sq_le (by omega), le_ceilSqrt_of_sq_le (by omega)⟩

/-- A disc of moderate size is listed without a fault: everything in it once, nearest first. -/
theorem exists_disc_eq_ok {radius : Nat} (h : radius ≤ 1073741824) :
    ∃ offsets, disc radius = .ok offsets ∧ offsets.Pairwise NoLater ∧ offsets.Nodup ∧
      ∀ o, o ∈ offsets ↔ o ≠ origin ∧ o.norm ≤ radius := by
  have hreach : ceilSqrt radius ≤ 32768 := ceilSqrt_le_of_le_sq h
  have corner : (⟨ceilSqrt radius, ceilSqrt radius⟩ : Offset).Moderate := by
    constructor <;> (dsimp only; omega)
  let inside := (square (ceilSqrt radius)).filter fun o => 1 ≤ o.norm ∧ o.norm ≤ radius
  refine ⟨inside.mergeSort fun a b => a.NoLater b, ?_, ?_, ?_, ?_⟩
  · rw [disc, corner.squaredDistance_eq]
    rfl
  · have sorted : (inside.mergeSort fun a b => a.NoLater b).Pairwise
        fun a b => decide (a.NoLater b) = true :=
      List.pairwise_mergeSort (by simpa using fun _ _ _ => NoLater.trans)
        (by simpa using NoLater.total) inside
    simpa using sorted
  · exact (List.mergeSort_perm _ _).nodup_iff.mpr ((nodup_square _).filter _)
  · intro o
    rw [List.mem_mergeSort, List.mem_filter]
    simp only [decide_eq_true_eq, one_le_norm_iff]
    constructor
    · rintro ⟨-, hne, hle⟩
      exact ⟨hne, hle⟩
    · rintro ⟨hne, hle⟩
      exact ⟨mem_square_ceilSqrt hle, hne, hle⟩

end Offset

namespace Window

theorem mem_offsets_iff {w : Window} {o : Offset} :
    o ∈ w.offsets ↔ ∃ cell, w.offset? cell = some o := by
  rw [Array.mem_iff_getElem?]
  rfl

theorem offset?_lt_size {w : Window} {cell : Nat} {o : Offset} (h : w.offset? cell = some o) :
    cell < w.size := by
  obtain ⟨hlt, -⟩ := Array.getElem?_eq_some_iff.mp h
  exact hlt

theorem exists_offset? {w : Window} {cell : Nat} (h : cell < w.size) :
    ∃ o, w.offset? cell = some o :=
  ⟨_, Array.getElem?_eq_some_iff.mpr ⟨h, rfl⟩⟩

theorem offset?_injective {w : Window} {a b : Nat} {o : Offset} (ha : w.offset? a = some o)
    (hb : w.offset? b = some o) : a = b :=
  Option.some.inj ((index?_eq_some_iff.mpr ha).symm.trans (index?_eq_some_iff.mpr hb))

theorem norm_pos_of_offset? {w : Window} {cell : Nat} {o : Offset} (h : w.offset? cell = some o) :
    o ≠ Offset.origin ∧ o.norm ≤ w.radius := by
  have hmem := mem_offsets_iff.mpr ⟨cell, h⟩
  exact ⟨w.ne_origin o hmem, w.norm_le_radius o hmem⟩

theorem lt_of_norm_lt {w : Window} {i j : Nat} {a b : Offset} (ha : w.offset? i = some a)
    (hb : w.offset? j = some b) (h : a.norm < b.norm) : i < j := by
  obtain ⟨hi, rfl⟩ := Array.getElem?_eq_some_iff.mp ha
  obtain ⟨hj, rfl⟩ := Array.getElem?_eq_some_iff.mp hb
  by_contra hle
  rcases Nat.lt_or_eq_of_le (Nat.le_of_not_lt hle) with hlt | rfl
  · have := List.pairwise_iff_getElem.mp w.ordered j i (by simpa using hj) (by simpa using hi) hlt
    simp only [Array.getElem_toList] at this
    omega
  · omega

theorem exists_push_eq_ok {w : Window} {o : Offset} (away : o ≠ Offset.origin)
    (hdistance : o.squaredDistance = .ok o.norm) (inside : o.norm ≤ w.radius)
    (later : ∀ previous ∈ w.offsets, previous.norm ≤ o.norm) (new : o ∉ w.offsets) :
    ∃ next, w.push o = .ok next ∧ next.radius = w.radius ∧
      next.offsets.toList = w.offsets.toList ++ [o] := by
  have hindex : w.indices[o]? = none := by
    rw [Option.eq_none_iff_forall_ne_some]
    intro cell hcell
    exact new (mem_offsets_iff.mpr ⟨cell, index?_eq_some_iff.mp hcell⟩)
  unfold push
  rw [dif_neg away]
  split
  · rename_i cause hfault
    rw [hdistance] at hfault
    cases hfault
  · rename_i distance hok
    obtain rfl : distance = o.norm := by
      rw [hdistance] at hok
      exact (Except.ok.inj hok).symm
    rw [dif_neg (Nat.not_lt.mpr inside)]
    split
    · rename_i previous hlast
      obtain ⟨hback, hless⟩ := Option.filter_eq_some_iff.mp hlast
      have := later previous (Array.mem_of_back? hback)
      simp only [decide_eq_true_eq] at hless
      omega
    · split
      · rename_i cell hsome
        rw [hindex] at hsome
        cases hsome
      · exact ⟨_, rfl, rfl, Array.toList_push⟩

theorem exists_ofOffsets_eq_ok (radius : Nat) {offsets : List Offset}
    (away : ∀ o ∈ offsets, o ≠ Offset.origin)
    (hdistance : ∀ o ∈ offsets, o.squaredDistance = .ok o.norm)
    (inside : ∀ o ∈ offsets, o.norm ≤ radius)
    (ordered : offsets.Pairwise fun a b => a.norm ≤ b.norm) (nodup : offsets.Nodup) :
    ∃ w, ofOffsets radius offsets = .ok w ∧ w.radius = radius ∧ w.offsets.toList = offsets := by
  refine exists_foldlM_eq_ok (fun done (w : Window) => w.radius = radius ∧ w.offsets.toList = done)
    ⟨rfl, rfl⟩ ?_
  rintro done o rest w hoffsets ⟨rfl, rfl⟩
  have hmem : o ∈ offsets := by simp [hoffsets]
  rw [hoffsets] at ordered nodup
  obtain ⟨next, hpush, hradius, hnext⟩ := exists_push_eq_ok (away o hmem) (hdistance o hmem)
    (inside o hmem)
    (fun previous hprevious => (List.pairwise_append.mp ordered).2.2 previous
      (Array.mem_toList_iff.mpr hprevious) o (by simp))
    (fun hold => (List.nodup_append.mp nodup).2.2 o (Array.mem_toList_iff.mpr hold) o (by simp) rfl)
  exact ⟨next, hpush, hradius, hnext⟩

/-- The window holds everything in sight, nearest first. -/
structure IsDisc (w : Window) : Prop where
  mem_iff : ∀ o, o ∈ w.offsets ↔ o ≠ Offset.origin ∧ o.norm ≤ w.radius
  moderate : ∀ o ∈ w.offsets, o.Moderate
  sorted : w.offsets.toList.Pairwise Offset.NoLater

theorem IsDisc.exists_index {w : Window} (h : w.IsDisc) {o : Offset} (hne : o ≠ Offset.origin)
    (hle : o.norm ≤ w.radius) : ∃ cell, w.offset? cell = some o :=
  mem_offsets_iff.mp ((h.mem_iff o).mpr ⟨hne, hle⟩)

theorem IsDisc.moderate_of_offset? {w : Window} (h : w.IsDisc) {cell : Nat} {o : Offset}
    (hcell : w.offset? cell = some o) : o.Moderate :=
  h.moderate o (mem_offsets_iff.mpr ⟨cell, hcell⟩)

theorem IsDisc.lt_of_not_noLater {w : Window} (h : w.IsDisc) {i j : Nat} {a b : Offset}
    (ha : w.offset? i = some a) (hb : w.offset? j = some b) (hab : ¬ b.NoLater a) : i < j := by
  by_contra hle
  obtain ⟨hi, rfl⟩ := Array.getElem?_eq_some_iff.mp ha
  obtain ⟨hj, rfl⟩ := Array.getElem?_eq_some_iff.mp hb
  rcases Nat.lt_or_eq_of_le (Nat.le_of_not_lt hle) with hlt | rfl
  · exact hab (List.pairwise_iff_getElem.mp h.sorted j i hj hi hlt)
  · exact hab (.inr ⟨rfl, .inr ⟨rfl, Int.le_refl _⟩⟩)

theorem exists_ofRadius_eq_ok {radius : Nat} (h : radius ≤ 1073741824) :
    ∃ w, ofRadius radius = .ok w ∧ w.radius = radius ∧ w.IsDisc := by
  obtain ⟨offsets, hdisc, sorted, nodup, hmem⟩ := Offset.exists_disc_eq_ok h
  have moderate : ∀ o ∈ offsets, o.Moderate := fun o ho =>
    Offset.natAbs_le_of_norm_le (k := 32768) (by have := ((hmem o).mp ho).2; omega)
  obtain ⟨w, hw, hradius, hoffsets⟩ := exists_ofOffsets_eq_ok radius
    (fun o ho => ((hmem o).mp ho).1) (fun o ho => (moderate o ho).squaredDistance_eq)
    (fun o ho => ((hmem o).mp ho).2)
    (sorted.imp fun hab => by unfold Offset.NoLater at hab; omega) nodup
  refine ⟨w, ?_, hradius, ⟨?_, ?_, ?_⟩⟩
  · rw [ofRadius, hdisc, lift_ok, ok_bind, hw]
  · intro o
    rw [← Array.mem_toList_iff, hoffsets, hmem, hradius]
  · intro o ho
    rw [← Array.mem_toList_iff, hoffsets] at ho
    exact moderate o ho
  · rw [hoffsets]
    exact sorted

end Window

end GridRoute
