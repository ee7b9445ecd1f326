import GridRoute.TargetTable
import GridRoute.Proofs.ScheduleContent
import Mathlib.Data.List.Induction

/-!
Tabulation. A table that is filled with different offsets has a column for each distance to the east, in the order in
which these first appear, and in a column the rows in the order of the entries, though the columns are filled by turns.
-/

namespace GridRoute

open Sequencing

section Keys

variable {κ β : Type} [DecidableEq κ]

theorem eraseDups_concat (keys : List κ) (key : κ) :
    (keys ++ [key]).eraseDups = if key ∈ keys then keys.eraseDups else keys.eraseDups ++ [key] := by
  rw [List.eraseDups_append]
  by_cases h : key ∈ keys
  · simp [List.removeAll, h]
  · simp [List.removeAll, h, List.eraseDups_cons]

theorem nodup_eraseDups (keys : List κ) : keys.eraseDups.Nodup := by
  induction keys using List.reverseRecOn with
  | nil => simp
  | append_singleton keys key ih =>
    rw [eraseDups_concat]
    split
    · exact ih
    · rename_i hnew
      exact List.nodup_append.mpr ⟨ih, List.nodup_singleton key, by grind [List.mem_eraseDups]⟩

theorem upsert_of_lookup_eq_none {key : κ} {entries : List (κ × β)} (h : entries.lookup key = none)
    (change : Option β → β) : upsert key change entries = entries ++ [(key, change none)] := by
  induction entries with
  | nil => rfl
  | cons entry entries ih =>
    obtain ⟨first, value⟩ := entry
    rw [lookup_cons_ite] at h
    split at h
    · cases h
    · rename_i hne
      rw [upsert, if_neg (Ne.symm hne), ih h, List.cons_append]

theorem lookup_map_keys (keys : List κ) (f : κ → β) (key : κ) :
    (keys.map fun k => (k, f k)).lookup key = if key ∈ keys then some (f key) else none := by
  induction keys with
  | nil => rfl
  | cons first keys ih =>
    rw [List.map_cons, lookup_cons_ite, ih]
    by_cases h : key = first
    · simp [h]
    · simp [h]

theorem upsert_of_mem {keys : List κ} (nodup : keys.Nodup) {key : κ} (h : key ∈ keys) {f g : κ → β}
    {change : Option β → β} (hkey : change (some (f key)) = g key) (hothers : ∀ k, k ≠ key → f k = g k) :
    upsert key change (keys.map fun k => (k, f k)) = keys.map fun k => (k, g k) := by
  induction keys with
  | nil => cases h
  | cons first keys ih =>
    obtain ⟨hfirst, hrest⟩ := List.nodup_cons.mp nodup
    rw [List.map_cons, List.map_cons, upsert]
    by_cases heq : first = key
    · subst heq
      rw [if_pos rfl, hkey]
      refine congrArg _ (List.map_congr_left fun k hk => ?_)
      rw [hothers k (fun hk' => hfirst (hk' ▸ hk))]
    · rw [if_neg heq, hothers first heq,
        ih hrest ((List.mem_cons.mp h).resolve_left (Ne.symm heq))]

/-- Keys that come one after another stand in the order in which they first came. -/
theorem upsert_eraseDups {keys : List κ} {key : κ} {f g : κ → β} {change : Option β → β}
    (hold : key ∈ keys → change (some (f key)) = g key) (hnew : key ∉ keys → change none = g key)
    (hothers : ∀ k, k ≠ key → f k = g k) :
    upsert key change (keys.eraseDups.map fun k => (k, f k)) =
      (keys ++ [key]).eraseDups.map fun k => (k, g k) := by
  rw [eraseDups_concat]
  by_cases h : key ∈ keys
  · rw [if_pos h]
    exact upsert_of_mem (nodup_eraseDups keys) (List.mem_eraseDups.mpr h) (hold h) hothers
  · rw [if_neg h, List.map_append, List.map_singleton, ← hnew h]
    have hkey : key ∉ keys.eraseDups := fun hkey => h (List.mem_eraseDups.mp hkey)
    rw [upsert_of_lookup_eq_none (by rw [lookup_map_keys, if_neg hkey])]
    refine congrArg (· ++ _) (List.map_congr_left fun k hk => ?_)
    rw [hothers k (fun heq => hkey (heq ▸ hk))]

theorem length_flatMap_upsert {γ : Type} (f : κ × β → List γ) (key : κ) (change : Option β → β)
    (entries : List (κ × β)) :
    ((upsert key change entries).flatMap f).length +
        ((entries.lookup key).elim 0 fun value => (f (key, value)).length) =
      (entries.flatMap f).length + (f (key, change (entries.lookup key))).length := by
  induction entries with
  | nil => simp [upsert]
  | cons entry entries ih =>
    obtain ⟨first, value⟩ := entry
    rw [upsert, lookup_cons_ite]
    by_cases h : first = key
    · subst h
      simp only [if_true, List.flatMap_cons, List.length_append, Option.elim_some]
      omega
    · simp only [if_neg h, if_neg (Ne.symm h), List.flatMap_cons, List.length_append]
      omega

end Keys

namespace TargetTable

def rowsAt (entries : List (Offset × Nat)) (dx : Int) : List (Int × Nat) :=
  (entries.filter fun entry => entry.1.x = dx).map fun entry => (entry.1.y, entry.2)

def ofEntries (entries : List (Offset × Nat)) : TargetTable :=
  ⟨(entries.map fun entry => entry.1.x).eraseDups.map fun dx => (dx, rowsAt entries dx)⟩

theorem rowsAt_eq_nil {entries : List (Offset × Nat)} {dx : Int}
    (h : dx ∉ entries.map fun entry => entry.1.x) : rowsAt entries dx = [] := by
  rw [rowsAt, List.map_eq_nil_iff, List.filter_eq_nil_iff]
  intro entry hentry
  simpa using fun heq => h (List.mem_map.mpr ⟨entry, hentry, heq⟩)

theorem rowsAt_concat (entries : List (Offset × Nat)) (o : Offset) (cell : Nat) (dx : Int) :
    rowsAt (entries ++ [(o, cell)]) dx =
      if dx = o.x then rowsAt entries dx ++ [(o.y, cell)] else rowsAt entries dx := by
  by_cases h : o.x = dx
  · simp [rowsAt, h]
  · simp [rowsAt, h, Ne.symm h]

theorem rows_ofEntries (entries : List (Offset × Nat)) (dx : Int) :
    (ofEntries entries).rows dx = rowsAt entries dx := by
  rw [rows, ofEntries, lookup_map_keys]
  split
  · rfl
  · rename_i h
    exact (rowsAt_eq_nil (fun hmem => h (List.mem_eraseDups.mpr hmem))).symm

/-- In two steps the table finds what stands for the offset among the entries. -/
theorem lookup_ofEntries (entries : List (Offset × Nat)) (dx dy : Int) :
    (ofEntries entries).lookup dx dy = entries.lookup ⟨dx, dy⟩ := by
  rw [lookup, rows_ofEntries]
  induction entries with
  | nil => rfl
  | cons entry entries ih =>
    obtain ⟨⟨x, y⟩, cell⟩ := entry
    rw [lookup_cons_ite, ← ih, rowsAt, rowsAt]
    by_cases hx : x = dx
    · simp [hx, lookup_cons_ite]
    · simp [hx, Ne.symm hx]

theorem insert_ofEntries {entries : List (Offset × Nat)} {o : Offset} (h : entries.lookup o = none)
    (cell : Nat) : ((ofEntries entries).insert o cell).2 = ofEntries (entries ++ [(o, cell)]) := by
  have hrow : (rowsAt entries o.x).lookup o.y = none := by
    rw [← h, ← lookup_ofEntries, lookup, rows_ofEntries]
  have hrows : upsert o.y (fun _ => cell) (rowsAt entries o.x) = rowsAt (entries ++ [(o, cell)]) o.x := by
    rw [rowsAt_concat, if_pos rfl, upsert_of_lookup_eq_none hrow]
  simp only [ofEntries, insert, List.map_append, List.map_singleton]
  refine congrArg _ (upsert_eraseDups (fun _ => hrows) (fun hnew => ?_) fun dx hdx => ?_)
  · rw [← hrows, rowsAt_eq_nil hnew, Option.getD_none]
  · rw [rowsAt_concat, if_neg hdx]

/-- A table grows by as much as the column does into which a cell comes. -/
theorem size_insert_add (t : TargetTable) (o : Offset) (cell : Nat) :
    (t.insert o cell).2.size + (t.rows o.x).length =
      t.size + (upsert o.y (fun _ => cell) (t.rows o.x)).length := by
  have hrows (rows : Option (List (Int × Nat))) : rows.elim 0 List.length = (rows.getD []).length := by
    cases rows <;> rfl
  have hsize := length_flatMap_upsert
    (fun column => column.2.map fun row => (Offset.mk column.1 row.1, row.2)) o.x
    (fun rows => upsert o.y (fun _ => cell) (rows.getD [])) t.columns
  simp only [List.length_map, hrows] at hsize
  exact hsize

theorem size_insert {t : TargetTable} {o : Offset} (h : t.lookup o.x o.y = none) (cell : Nat) :
    (t.insert o cell).2.size = t.size + 1 := by
  have hsize := t.size_insert_add o cell
  rw [upsert_of_lookup_eq_none h, List.length_append, List.length_singleton] at hsize
  omega

end TargetTable

namespace Window

theorem nodup_cells (w : Window) : w.cells.Nodup := by
  refine List.Nodup.of_map Prod.snd ?_
  rw [cells, List.zipIdx_map_snd]
  exact List.nodup_range'

theorem length_cells (w : Window) : w.cells.length = w.size := by
  rw [cells, List.length_zipIdx, Array.length_toList, size]

theorem of_cells_eq {w : Window} {done rest : List (Offset × Nat)} {o : Offset} {cell : Nat}
    (h : w.cells = done ++ (o, cell) :: rest) : w.offset? cell = some o ∧ cell = done.length := by
  have hcell : w.offset? cell = some o := mem_cells_iff.mp (by simp [h])
  have hget : w.cells[done.length]? = some (o, cell) := by simp [h]
  rw [cells, List.getElem?_zipIdx] at hget
  obtain ⟨n, -, heq⟩ := Option.map_eq_some_iff.mp hget
  exact ⟨hcell, by simpa using (congrArg Prod.snd heq).symm⟩

theorem lookup_eq_none_of_cells_eq {w : Window} {done rest : List (Offset × Nat)} {o : Offset}
    {cell : Nat} (h : w.cells = done ++ (o, cell) :: rest) : done.lookup o = none := by
  rw [List.lookup_eq_none_iff]
  rintro ⟨other, place⟩ hmem
  refine bne_iff_ne.mpr ?_
  rintro rfl
  obtain rfl : place = cell := offset?_injective
    (mem_cells_iff.mp (by rw [h]; exact List.mem_append_left _ hmem))
    (mem_cells_iff.mp (by rw [h]; simp))
  have nodup := w.nodup_cells
  rw [h] at nodup
  exact (List.nodup_append.mp nodup).2.2 _ hmem _ (by simp) rfl

theorem lookup_cells (w : Window) (o : Offset) : w.cells.lookup o = w.index? o := by
  refine Option.ext fun cell => ?_
  rw [index?_eq_some_iff, ← mem_cells_iff, List.lookup_eq_some_iff]
  constructor
  · rintro ⟨done, rest, h, -⟩
    simp [h]
  · intro hmem
    obtain ⟨done, rest, h⟩ := List.append_of_mem hmem
    exact ⟨done, rest, h, List.lookup_eq_none_iff.mp (lookup_eq_none_of_cells_eq h)⟩

theorem targetTable_eq {w : Window} (h : w.isEmpty = false) :
    w.targetTable = .ok (.ofEntries w.cells) ∧ (TargetTable.ofEntries w.cells).size = w.size := by
  obtain ⟨t, ht, rfl, hsize⟩ : ∃ t, w.targetTable = .ok t ∧ t = TargetTable.ofEntries w.cells ∧
      t.size = w.cells.length := by
    rw [targetTable, if_neg (by simp [h])]
    refine exists_foldlM_eq_ok
      (fun done (t : TargetTable) => t = TargetTable.ofEntries done ∧ t.size = done.length)
      ⟨rfl, rfl⟩ ?_
    rintro done ⟨o, cell⟩ rest t hcells ⟨rfl, hsize⟩
    have hentries := lookup_eq_none_of_cells_eq hcells
    have hnone : (TargetTable.ofEntries done).lookup o.x o.y = none := by
      rw [TargetTable.lookup_ofEntries, hentries]
    refine ⟨((TargetTable.ofEntries done).insert o cell).2, by simp only [TargetTable.insert, hnone],
      TargetTable.insert_ofEntries hentries cell, ?_⟩
    rw [TargetTable.size_insert hnone, hsize, List.length_append, List.length_singleton]
  exact ⟨ht, hsize.trans w.length_cells⟩

/-- The table and the window give the same answer about every offset. The columns stand in the order in which they
first appear among the cells, and the rows of a column in the order of its cells; an empty window has no table. -/
theorem targetTable_answers (w : Window) :
    (w.isEmpty = true → w.targetTable = .error (.emptyWindow w.radius)) ∧
    (w.isEmpty = false → ∃ t, w.targetTable = .ok t ∧ t.size = w.size ∧
      (∀ dx dy, t.lookup dx dy = w.index? ⟨dx, dy⟩) ∧
      t.columns.map Prod.fst = (w.offsets.toList.map Offset.x).eraseDups ∧
      ∀ column ∈ t.columns, column.2 =
        (w.cells.filter fun entry => entry.1.x = column.1).map fun entry => (entry.1.y, entry.2)) := by
  refine ⟨fun h => by rw [targetTable, if_pos h], fun h => ?_⟩
  obtain ⟨ht, hsize⟩ := targetTable_eq h
  refine ⟨_, ht, hsize, fun dx dy => ?_, ?_, fun column hcolumn => ?_⟩
  · rw [TargetTable.lookup_ofEntries, lookup_cells]
  · have hx : w.cells.map (fun entry => entry.1.x) = w.offsets.toList.map Offset.x := by
      rw [← List.zipIdx_map_fst 0 w.offsets.toList, List.map_map]
      rfl
    rw [TargetTable.ofEntries, List.map_map, hx]
    exact List.map_id _
  · obtain ⟨dx, -, rfl⟩ := List.mem_map.mp hcolumn
    rfl

theorem targetTable_answers_interleaved :
    (empty 3).isEmpty = true ∧ (empty 3).targetTable = .error (.emptyWindow 3) ∧
    ∃ w, ofOffsets 1 [⟨0, -1⟩, ⟨1, 0⟩, ⟨0, 1⟩] = .ok w ∧ w.isEmpty = false ∧
      ∃ t, w.targetTable = .ok t ∧ t.size = 3 ∧ t.lookup 0 1 = w.index? ⟨0, 1⟩ ∧
        t.columns.map Prod.fst = [0, 1] ∧
        ∀ column ∈ t.columns, column.1 = 0 → column.2 = [(-1, 0), (1, 2)] := by
  obtain ⟨w, hw, -, hoffsets⟩ : ∃ w, ofOffsets 1 [⟨0, -1⟩, ⟨1, 0⟩, ⟨0, 1⟩] = .ok w ∧ w.radius = 1 ∧
      w.offsets.toList = [⟨0, -1⟩, ⟨1, 0⟩, ⟨0, 1⟩] :=
    exists_ofOffsets_eq_ok 1 (by decide) (by decide) (by decide) (by decide) (by decide)
  have hne : w.isEmpty = false := by
    rw [isEmpty, ← Array.isEmpty_toList, hoffsets]
    rfl
  obtain ⟨t, ht, hsize, hlookup, hcolumns, hrows⟩ := (targetTable_answers w).2 hne
  refine ⟨rfl, (targetTable_answers (empty 3)).1 rfl, w, hw, hne, t, ht, ?_, hlookup 0 1, ?_, ?_⟩
  · rw [hsize, size, ← Array.length_toList, hoffsets]
    rfl
  · rw [hcolumns, hoffsets]
    decide
  · intro column hcolumn hx
    rw [hrows column hcolumn, hx, cells, hoffsets]
    decide

end Window

end GridRoute
