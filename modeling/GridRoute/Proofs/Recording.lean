import GridRoute.Proofs.Tabulation

/-!
Recording. Whatever is entered into a table, one after another and over again, the table answers with the latest cell
of an offset, and its columns and rows stand in the order in which they were first needed: what comes in again takes
the old place.
-/

namespace GridRoute

section Keys

variable {κ β : Type} [DecidableEq κ]

theorem map_fst_upsert (key : κ) (change : Option β → β) (entries : List (κ × β)) :
    (upsert key change entries).map Prod.fst =
      if key ∈ entries.map Prod.fst then entries.map Prod.fst else entries.map Prod.fst ++ [key] := by
  induction entries with
  | nil => rfl
  | cons entry entries ih =>
    obtain ⟨first, value⟩ := entry
    rw [upsert]
    by_cases h : first = key
    · simp [h]
    · simp only [if_neg h, List.map_cons, ih, List.mem_cons, Ne.symm h, false_or]
      split <;> rfl

/-- A table whose keys are those of a history still is one when a key comes in. -/
theorem map_fst_upsert_eraseDups {keys : List κ} {entries : List (κ × β)}
    (h : entries.map Prod.fst = keys.eraseDups) (key : κ) (change : Option β → β) :
    (upsert key change entries).map Prod.fst = (keys ++ [key]).eraseDups := by
  simp only [map_fst_upsert, eraseDups_concat, h, List.mem_eraseDups]

theorem lookup_of_mem {entries : List (κ × β)} (nodup : (entries.map Prod.fst).Nodup) {key : κ} {value : β}
    (h : (key, value) ∈ entries) : entries.lookup key = some value := by
  induction entries with
  | nil => cases h
  | cons entry entries ih =>
    obtain ⟨first, other⟩ := entry
    obtain ⟨hfirst, hrest⟩ := List.nodup_cons.mp nodup
    rw [lookup_cons_ite]
    rcases List.mem_cons.mp h with heq | hmem
    · obtain ⟨rfl, rfl⟩ := Prod.mk.inj heq
      rw [if_pos rfl]
    · have apart : key ≠ first := by
        rintro rfl
        exact hfirst (List.mem_map.mpr ⟨_, hmem, rfl⟩)
      rw [if_neg apart, ih hrest hmem]

theorem eraseDups_eq_nil_iff {keys : List κ} : keys.eraseDups = [] ↔ keys = [] := by
  simp only [List.eq_nil_iff_forall_not_mem, List.mem_eraseDups]

end Keys

namespace TargetTable

/-- Enters cells one after another, and tells what each of them replaces. -/
def record (t : TargetTable) : List (Offset × Nat) → List (Option Nat) × TargetTable
  | [] => ([], t)
  | (o, cell) :: rest =>
    let (replaced, next) := t.insert o cell
    let (later, last) := next.record rest
    (replaced :: later, last)

theorem record_append (t : TargetTable) (first second : List (Offset × Nat)) :
    t.record (first ++ second) =
      ((t.record first).1 ++ ((t.record first).2.record second).1, ((t.record first).2.record second).2) := by
  induction first generalizing t with
  | nil => rfl
  | cons entry first ih => simp only [List.cons_append, record, ih]

theorem length_record (t : TargetTable) (history : List (Offset × Nat)) :
    (t.record history).1.length = history.length := by
  induction history generalizing t with
  | nil => rfl
  | cons entry history ih => simp only [record, List.length_cons, ih]

theorem rows_insert (t : TargetTable) (o : Offset) (cell : Nat) (dx : Int) :
    (t.insert o cell).2.rows dx = if dx = o.x then upsert o.y (fun _ => cell) (t.rows dx) else t.rows dx := by
  simp only [rows, insert, lookup_upsert]
  by_cases h : dx = o.x
  · rw [if_pos h, if_pos h, h, Option.getD_some]
  · rw [if_neg h, if_neg h]

structure Recalls (history : List (Offset × Nat)) (t : TargetTable) : Prop where
  columns_eq : t.columns.map Prod.fst = (history.map fun entry => entry.1.x).eraseDups
  rows_eq : ∀ dx, (t.rows dx).map Prod.fst =
    ((history.filter fun entry => entry.1.x = dx).map fun entry => entry.1.y).eraseDups
  lookup_eq : ∀ dx dy, t.lookup dx dy = history.reverse.lookup ⟨dx, dy⟩
  size_eq : t.size = (history.map Prod.fst).eraseDups.length

theorem recalls_empty : empty.Recalls [] where
  columns_eq := rfl
  rows_eq := fun _ => rfl
  lookup_eq := fun _ _ => rfl
  size_eq := rfl

namespace Recalls

variable {history : List (Offset × Nat)} {t : TargetTable}

theorem mem_rows_iff (h : t.Recalls history) (o : Offset) :
    o.y ∈ (t.rows o.x).map Prod.fst ↔ o ∈ history.map Prod.fst := by
  rw [h.rows_eq, List.mem_eraseDups, List.mem_map, List.mem_map]
  constructor
  · rintro ⟨⟨⟨x, y⟩, cell⟩, hentry, hy⟩
    obtain ⟨hmem, hx⟩ := List.mem_filter.mp hentry
    exact ⟨_, hmem, Offset.mk.injEq .. |>.mpr ⟨of_decide_eq_true hx, hy⟩⟩
  · rintro ⟨entry, hmem, rfl⟩
    exact ⟨entry, List.mem_filter.mpr ⟨hmem, decide_eq_true rfl⟩, rfl⟩

theorem insert (h : t.Recalls history) (o : Offset) (cell : Nat) :
    (t.insert o cell).2.Recalls (history ++ [(o, cell)]) where
  columns_eq := by
    rw [List.map_append]
    exact map_fst_upsert_eraseDups h.columns_eq o.x _
  rows_eq := by
    intro dx
    rw [rows_insert, List.filter_append]
    by_cases hx : dx = o.x
    · subst hx
      rw [if_pos rfl, List.filter_singleton, decide_eq_true rfl, cond_true, List.map_append]
      exact map_fst_upsert_eraseDups (h.rows_eq o.x) o.y _
    · rw [if_neg hx, List.filter_singleton, decide_eq_false (Ne.symm hx), cond_false, List.append_nil]
      exact h.rows_eq dx
  lookup_eq := by
    intro dx dy
    obtain ⟨x, y⟩ := o
    rw [lookup_insert, List.reverse_append, List.reverse_singleton, List.singleton_append, lookup_cons_ite,
      h.lookup_eq]
    simp only [Offset.mk.injEq]
  size_eq := by
    have hgrowth := t.size_insert_add o cell
    have hcolumn := congrArg List.length (map_fst_upsert o.y (fun _ => cell) (t.rows o.x))
    rw [List.map_append, List.map_singleton, eraseDups_concat]
    -- The column gets a row more just when the offset is new.
    by_cases hmem : o ∈ history.map Prod.fst
    · rw [if_pos ((h.mem_rows_iff o).mpr hmem), List.length_map, List.length_map] at hcolumn
      rw [if_pos hmem, ← h.size_eq]
      omega
    · rw [if_neg (fun hrow => hmem ((h.mem_rows_iff o).mp hrow)), List.length_append, List.length_map,
        List.length_map, List.length_singleton] at hcolumn
      rw [if_neg hmem, List.length_append, List.length_singleton, ← h.size_eq]
      omega

theorem rows_of_mem (h : t.Recalls history) {column : Int × List (Int × Nat)} (hcolumn : column ∈ t.columns) :
    t.rows column.1 = column.2 := by
  have nodup : (t.columns.map Prod.fst).Nodup := h.columns_eq ▸ nodup_eraseDups _
  rw [rows, lookup_of_mem nodup hcolumn, Option.getD_some]

theorem ne_nil_of_mem (h : t.Recalls history) {column : Int × List (Int × Nat)} (hcolumn : column ∈ t.columns) :
    column.2 ≠ [] := by
  have hkey : column.1 ∈ t.columns.map Prod.fst := List.mem_map.mpr ⟨column, hcolumn, rfl⟩
  rw [h.columns_eq, List.mem_eraseDups] at hkey
  obtain ⟨entry, hentry, hx⟩ := List.mem_map.mp hkey
  have hrow := (h.mem_rows_iff entry.1).mpr (List.mem_map.mpr ⟨entry, hentry, rfl⟩)
  rw [hx, h.rows_of_mem hcolumn] at hrow
  intro hnil
  rw [hnil] at hrow
  cases hrow

theorem isEmpty_iff (h : t.Recalls history) : t.isEmpty = true ↔ t.size = 0 := by
  rw [isEmpty, List.isEmpty_iff, ← List.map_eq_nil_iff (f := Prod.fst), h.columns_eq, h.size_eq,
    List.length_eq_zero_iff, eraseDups_eq_nil_iff, eraseDups_eq_nil_iff, List.map_eq_nil_iff, List.map_eq_nil_iff]

end Recalls

theorem recalls_record (history : List (Offset × Nat)) : (empty.record history).2.Recalls history := by
  induction history using List.reverseRecOn with
  | nil => exact recalls_empty
  | append_singleton history entry ih =>
    rw [record_append]
    exact ih.insert entry.1 entry.2

/-- Each entry of a history is told the latest cell before it at its offset, and behind the history the table answers
about every offset with its latest cell. It counts each offset once, has no column without rows, and keeps columns,
and rows in a column, in the order in which they first came in, whatever took whose place since. -/
theorem record_recalls_latest (history : List (Offset × Nat)) :
    ∃ replaced t, empty.record history = (replaced, t) ∧ replaced.length = history.length ∧
      (∀ before o cell after, history = before ++ (o, cell) :: after →
        replaced[before.length]? = some (before.reverse.lookup o)) ∧
      (∀ dx dy, t.lookup dx dy = history.reverse.lookup ⟨dx, dy⟩) ∧
      t.size = (history.map Prod.fst).eraseDups.length ∧
      (t.isEmpty = true ↔ t.size = 0) ∧
      t.columns.map Prod.fst = (history.map fun entry => entry.1.x).eraseDups ∧
      ∀ column ∈ t.columns, column.2 ≠ [] ∧ column.2.map Prod.fst =
        ((history.filter fun entry => entry.1.x = column.1).map fun entry => entry.1.y).eraseDups := by
  have h := recalls_record history
  refine ⟨_, _, rfl, length_record _ _, ?_, h.lookup_eq, h.size_eq, h.isEmpty_iff, h.columns_eq,
    fun column hcolumn => ⟨h.ne_nil_of_mem hcolumn, ?_⟩⟩
  · rintro before o cell after rfl
    rw [record_append, List.getElem?_append_right (Nat.le_of_eq (length_record _ _)), length_record, Nat.sub_self,
      record, List.getElem?_cons_zero, insert_fst, (recalls_record before).lookup_eq]
  · rw [← h.rows_of_mem hcolumn, h.rows_eq]

theorem record_recalls_latest_interleaved :
    ∃ replaced t, empty.record [(⟨1, 0⟩, 4), (⟨0, 0⟩, 5), (⟨1, 2⟩, 6), (⟨1, 0⟩, 7)] = (replaced, t) ∧
      replaced[3]? = some (some 4) ∧ t.lookup 1 0 = some 7 ∧ t.lookup 0 2 = none ∧ t.size = 3 ∧
      t.isEmpty = false ∧ t.columns.map Prod.fst = [1, 0] ∧
      ∀ column ∈ t.columns, column.1 = 1 → column.2.map Prod.fst = [0, 2] := by
  obtain ⟨replaced, t, hrecord, -, hreplaced, hlookup, hsize, hempty, hcolumns, hrows⟩ :=
    record_recalls_latest [(⟨1, 0⟩, 4), (⟨0, 0⟩, 5), (⟨1, 2⟩, 6), (⟨1, 0⟩, 7)]
  have hthree : t.size = 3 := hsize
  refine ⟨replaced, t, hrecord, hreplaced [(⟨1, 0⟩, 4), (⟨0, 0⟩, 5), (⟨1, 2⟩, 6)] ⟨1, 0⟩ 7 [] rfl, hlookup 1 0,
    hlookup 0 2, hthree, Bool.eq_false_iff.mpr fun h => ?_, hcolumns, fun column hcolumn hx => ?_⟩
  · have := hempty.mp h
    omega
  · rw [(hrows column hcolumn).2, hx]
    rfl

end TargetTable

end GridRoute
