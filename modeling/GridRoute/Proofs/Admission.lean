import GridRoute.Proofs.ScheduleContent
import Mathlib.Data.List.Chain
import Mathlib.Data.List.Induction

/-!
Admission. A list of offsets becomes a window if all of them can follow those before them. If one cannot, the first
of these is refused whatever comes behind it, for the gravest of the things that are wrong with it. In a window
numbers and offsets are two names for the entries of the list.
-/

namespace GridRoute

open Sequencing

namespace Offset

/-- In the square whose corners still have squared distances of 32 bits. -/
def Measurable (o : Offset) : Prop := o.x.natAbs ≤ 46340 ∧ o.y.natAbs ≤ 46340

instance (o : Offset) : Decidable o.Measurable := inferInstanceAs (Decidable (_ ∧ _))

theorem Measurable.squaredDistance_eq {o : Offset} (h : o.Measurable) :
    o.squaredDistance = .ok o.norm := by
  have hx := Nat.mul_le_mul h.1 h.1
  have hy := Nat.mul_le_mul h.2 h.2
  apply Offset.squaredDistance_eq
  unfold norm
  omega

end Offset

namespace Window

structure Orderly (radius : Nat) (offsets : List Offset) : Prop where
  ne_origin : ∀ o ∈ offsets, o ≠ Offset.origin
  norm_le : ∀ o ∈ offsets, o.norm ≤ radius
  ascending : offsets.IsChain fun a b => a.norm ≤ b.norm
  nodup : offsets.Nodup

/-- What is wrong with an offset that comes after others, the gravest first. -/
def objections (radius : Nat) (before : List Offset) (o : Offset) : List CompileError :=
  (if o = Offset.origin then [.originInWindow] else []) ++
    (if radius < o.norm then [.outsideRadius o radius] else []) ++
    (before.getLast?.filter fun previous => o.norm < previous.norm).toList.map (.outOfOrder · o) ++
    if o ∈ before then [.repeatedCell o] else []

section Lists

variable {radius : Nat} {before offsets : List Offset} {o : Offset}

theorem objections_eq_nil_iff : objections radius before o = [] ↔
    o ≠ Offset.origin ∧ o.norm ≤ radius ∧
      (∀ previous ∈ before.getLast?, previous.norm ≤ o.norm) ∧ o ∉ before := by
  simp only [objections, List.append_eq_nil_iff, List.map_eq_nil_iff, Option.toList_eq_nil_iff,
    Option.filter_eq_none_iff, ite_eq_right_iff, List.cons_ne_nil, imp_false, decide_eq_true_eq,
    Nat.not_lt, and_assoc]
  rfl

theorem orderly_nil : Orderly radius [] := ⟨by simp, by simp, by simp, by simp⟩

theorem orderly_concat_iff :
    Orderly radius (before ++ [o]) ↔ Orderly radius before ∧ objections radius before o = [] := by
  rw [objections_eq_nil_iff]
  constructor
  · rintro ⟨away, inside, ascending, nodup⟩
    rw [List.forall_mem_append, List.forall_mem_singleton] at away inside
    obtain ⟨hbefore, -, hlast⟩ := List.isChain_append.mp ascending
    obtain ⟨hdistinct, -, hnew⟩ := List.nodup_append.mp nodup
    exact ⟨⟨away.1, inside.1, hbefore, hdistinct⟩, away.2, inside.2,
      fun previous hprevious => hlast previous hprevious o rfl, fun hmem => hnew o hmem o (by simp) rfl⟩
  · rintro ⟨h, away, inside, later, new⟩
    exact {
      ne_origin := List.forall_mem_append.mpr ⟨h.ne_origin, List.forall_mem_singleton.mpr away⟩
      norm_le := List.forall_mem_append.mpr ⟨h.norm_le, List.forall_mem_singleton.mpr inside⟩
      ascending := List.isChain_append.mpr ⟨h.ascending, List.isChain_singleton o, by simpa using later⟩
      nodup := List.nodup_append.mpr ⟨h.nodup, List.nodup_singleton o, by grind⟩ }

theorem exists_objection (h : ¬ Orderly radius offsets) :
    ∃ before o after error, offsets = before ++ o :: after ∧ Orderly radius before ∧
      ¬ Orderly radius (before ++ [o]) ∧ (objections radius before o).head? = some error := by
  induction offsets using List.reverseRecOn with
  | nil => exact absurd orderly_nil h
  | append_singleton front last ih =>
    by_cases hfront : Orderly radius front
    · have hobjections : objections radius front last ≠ [] := fun hnil =>
        h (orderly_concat_iff.mpr ⟨hfront, hnil⟩)
      exact ⟨front, last, [], _, rfl, hfront, h, List.head?_eq_some_head hobjections⟩
    · obtain ⟨before, o, after, error, rfl, hrest⟩ := ih hfront
      exact ⟨before, o, after ++ [last], error, by simp, hrest⟩

end Lists

theorem push_eq_error {w : Window} {o : Offset} (measurable : o.Measurable) {error : CompileError}
    (h : (objections w.radius w.offsets.toList o).head? = some error) : w.push o = .error error := by
  rw [objections, Array.getLast?_toList] at h
  unfold push
  by_cases away : o = Offset.origin
  · rw [dif_pos away]
    rw [if_pos away] at h
    exact congrArg Except.error (Option.some.inj h)
  · rw [dif_neg away]
    rw [if_neg away, List.nil_append] at h
    split
    · rename_i cause hfault
      rw [measurable.squaredDistance_eq] at hfault
      cases hfault
    · rename_i distance hok
      obtain rfl : distance = o.norm := by
        rw [measurable.squaredDistance_eq] at hok
        exact (Except.ok.inj hok).symm
      by_cases outside : w.radius < o.norm
      · rw [dif_pos outside]
        rw [if_pos outside] at h
        exact congrArg Except.error (Option.some.inj h)
      · rw [dif_neg outside]
        rw [if_neg outside, List.nil_append] at h
        split
        · rename_i previous hlast
          rw [hlast] at h
          exact congrArg Except.error (Option.some.inj h)
        · rename_i hlast
          rw [hlast] at h
          have hmem : o ∈ w.offsets.toList := by
            by_contra hnew
            rw [if_neg hnew] at h
            cases h
          rw [if_pos hmem] at h
          split
          · exact congrArg Except.error (Option.some.inj h)
          · rename_i hnew
            obtain ⟨cell, hcell⟩ := mem_offsets_iff.mp (Array.mem_toList_iff.mp hmem)
            exact absurd (hnew.symm.trans (index?_eq_some_iff.mpr hcell)) (by simp)

section Offsets

variable {radius : Nat} {offsets : List Offset}

theorem Orderly.exists_ofOffsets_eq_ok (h : Orderly radius offsets)
    (measurable : ∀ o ∈ offsets, o.Measurable) :
    ∃ w, ofOffsets radius offsets = .ok w ∧ w.radius = radius ∧ w.offsets.toList = offsets := by
  have : IsTrans Offset fun a b => a.norm ≤ b.norm := ⟨fun _ _ _ => Nat.le_trans⟩
  exact Window.exists_ofOffsets_eq_ok radius h.ne_origin (fun o ho => (measurable o ho).squaredDistance_eq)
    h.norm_le (List.isChain_iff_pairwise.mp h.ascending) h.nodup

/-- Nothing that comes behind the first entry with an objection matters. -/
theorem Orderly.ofOffsets_eq_error {before after : List Offset} {o : Offset} {error : CompileError}
    (h : Orderly radius before) (measurable : ∀ n ∈ before ++ o :: after, n.Measurable)
    (hfirst : (objections radius before o).head? = some error) :
    ofOffsets radius (before ++ o :: after) = .error error := by
  rw [List.forall_mem_append, List.forall_mem_cons] at measurable
  obtain ⟨w, hw, rfl, rfl⟩ := h.exists_ofOffsets_eq_ok measurable.1
  unfold ofOffsets at hw ⊢
  rw [List.foldlM_append, hw, ok_bind, List.foldlM_cons, push_eq_error measurable.2.1 hfirst]
  rfl

theorem exists_ofOffsets_eq_ok_iff (measurable : ∀ o ∈ offsets, o.Measurable) :
    (∃ w, ofOffsets radius offsets = .ok w) ↔ Orderly radius offsets := by
  constructor
  · rintro ⟨w, hw⟩
    by_contra hunfit
    obtain ⟨before, o, after, error, rfl, hbefore, -, hfirst⟩ := exists_objection hunfit
    rw [hbefore.ofOffsets_eq_error measurable hfirst] at hw
    cases hw
  · intro h
    obtain ⟨w, hw, -⟩ := h.exists_ofOffsets_eq_ok measurable
    exact ⟨w, hw⟩

theorem ofOffsets_eq_error_iff (measurable : ∀ o ∈ offsets, o.Measurable) {error : CompileError} :
    ofOffsets radius offsets = .error error ↔
      ∃ before o after, offsets = before ++ o :: after ∧ Orderly radius before ∧
        ¬ Orderly radius (before ++ [o]) ∧ (objections radius before o).head? = some error := by
  constructor
  · intro herror
    have hunfit : ¬ Orderly radius offsets := by
      rw [← exists_ofOffsets_eq_ok_iff measurable, herror]
      simp
    obtain ⟨before, o, after, first, rfl, hbefore, hrefused, hfirst⟩ := exists_objection hunfit
    rw [hbefore.ofOffsets_eq_error measurable hfirst] at herror
    exact ⟨before, o, after, rfl, hbefore, hrefused, Except.error.inj herror ▸ hfirst⟩
  · rintro ⟨before, o, after, rfl, hbefore, -, hfirst⟩
    exact hbefore.ofOffsets_eq_error measurable hfirst

theorem of_ofOffsets_eq_ok (measurable : ∀ o ∈ offsets, o.Measurable) {w : Window}
    (h : ofOffsets radius offsets = .ok w) : w.radius = radius ∧ w.offsets.toList = offsets := by
  obtain ⟨next, hnext, hparts⟩ :=
    ((exists_ofOffsets_eq_ok_iff measurable).mp ⟨w, h⟩).exists_ofOffsets_eq_ok measurable
  rw [h] at hnext
  exact Except.ok.inj hnext ▸ hparts

/-- Whether an offset is admitted depends on those before it only: the list makes a window if none is refused, and
else the error is the gravest objection to the first that is. The window has the entries of the list as its cells,
by their places, and finds no others. -/
theorem ofOffsets_admits (radius : Nat) {offsets : List Offset}
    (measurable : ∀ o ∈ offsets, o.Measurable) :
    ((∃ w, ofOffsets radius offsets = .ok w) ↔ Orderly radius offsets) ∧
    (∀ error, ofOffsets radius offsets = .error error ↔
      ∃ before o after, offsets = before ++ o :: after ∧ Orderly radius before ∧
        ¬ Orderly radius (before ++ [o]) ∧ (objections radius before o).head? = some error) ∧
    ∀ w, ofOffsets radius offsets = .ok w →
      w.radius = radius ∧ (∀ cell, w.offset? cell = offsets[cell]?) ∧
      (∀ cell o, w.offset? cell = some o ↔ w.index? o = some cell) ∧
      (∀ cell o, w.require o = .ok cell ↔ w.index? o = some cell) ∧
      ∀ o, w.index? o = none → w.require o = .error (.missingCell o) := by
  refine ⟨exists_ofOffsets_eq_ok_iff measurable, fun error => ofOffsets_eq_error_iff measurable,
    fun w hw => ?_⟩
  obtain ⟨hradius, rfl⟩ := of_ofOffsets_eq_ok measurable hw
  refine ⟨hradius, fun cell => (Array.getElem?_toList).symm, fun cell o => index?_eq_some_iff.symm,
    fun cell o => require_eq_ok_iff.trans index?_eq_some_iff.symm, fun o hnone => ?_⟩
  rw [require, hnone]

def corners : List Offset := [⟨-46340, 46340⟩, ⟨46340, -46340⟩, ⟨-46340, 46340⟩, Offset.origin]

theorem ofOffsets_admits_corners :
    (∀ o ∈ corners, o.Measurable) ∧
    ofOffsets 4294791200 corners = .error (.repeatedCell ⟨-46340, 46340⟩) ∧
    (∀ o ∈ corners.take 2, o.Measurable) ∧
    ∃ w, ofOffsets 4294791200 (corners.take 2) = .ok w ∧ w.index? ⟨46340, -46340⟩ = some 1 ∧
      w.require Offset.origin = .error (.missingCell Offset.origin) := by
  have measurable : ∀ o ∈ corners, o.Measurable := by decide
  have hbefore : Orderly 4294791200 (corners.take 2) :=
    ⟨by decide, by decide, by decide, by decide⟩
  have hrefused : ¬ Orderly 4294791200 (corners.take 2 ++ [⟨-46340, 46340⟩]) := fun h =>
    absurd h.nodup (by decide)
  have hmeasurable : ∀ o ∈ corners.take 2, o.Measurable := by decide
  obtain ⟨-, herror, -⟩ := ofOffsets_admits 4294791200 measurable
  obtain ⟨hok, -, hcells⟩ := ofOffsets_admits 4294791200 hmeasurable
  obtain ⟨w, hw⟩ := hok.mpr hbefore
  obtain ⟨-, hoffset, hindex, -, hmissing⟩ := hcells w hw
  have hnone : w.index? Offset.origin = none := by
    rw [Option.eq_none_iff_forall_ne_some]
    intro cell hcell
    have hget := (hoffset cell).symm.trans ((hindex cell _).mpr hcell)
    exact absurd (List.mem_of_getElem? hget) (by decide)
  exact ⟨measurable, (herror _).mpr ⟨_, _, [Offset.origin], rfl, hbefore, hrefused, by decide⟩,
    hmeasurable, w, hw, (hindex 1 _).mp (hoffset 1), hmissing _ hnone⟩

end Offsets

end Window

end GridRoute
