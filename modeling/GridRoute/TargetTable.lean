import GridRoute.Window

/-!
Two-level tables from a target's offset to the cell that answers for it. Columns, and rows in a column,
keep the order in which they first came in; a later cell for the same offset takes the old one's place.
-/

namespace GridRoute

/-- Changes the value of a key in place, or adds the key at the end. -/
def upsert [DecidableEq κ] (key : κ) (change : Option β → β) : List (κ × β) → List (κ × β)
  | [] => [(key, change none)]
  | (other, value) :: rest =>
    if other = key then (other, change (some value)) :: rest
    else (other, value) :: upsert key change rest

theorem lookup_cons_ite [DecidableEq κ] (key other : κ) (value : β) (rest : List (κ × β)) :
    ((other, value) :: rest).lookup key = if key = other then some value else rest.lookup key := by
  by_cases h : key = other
  · simp [h]
  · simp [List.lookup_cons, h, beq_eq_false_iff_ne.mpr h]

theorem lookup_upsert [DecidableEq κ] (key other : κ) (change : Option β → β)
    (entries : List (κ × β)) :
    (upsert key change entries).lookup other =
      if other = key then some (change (entries.lookup key)) else entries.lookup other := by
  induction entries with
  | nil => simp [upsert, lookup_cons_ite]
  | cons entry rest ih =>
    obtain ⟨first, value⟩ := entry
    rw [upsert]
    by_cases hfirst : first = key
    · subst hfirst
      rw [if_pos rfl]
      simp only [lookup_cons_ite]
      split <;> simp
    · rw [if_neg hfirst]
      simp only [lookup_cons_ite, ih]
      grind

structure TargetTable where
  columns : List (Int × List (Int × Nat))
deriving DecidableEq, Repr

namespace TargetTable

def empty : TargetTable := ⟨[]⟩

def rows (t : TargetTable) (dx : Int) : List (Int × Nat) := (t.columns.lookup dx).getD []

def lookup (t : TargetTable) (dx dy : Int) : Option Nat := (t.rows dx).lookup dy

/-- Records the cell of an offset and tells which one it replaces. -/
def insert (t : TargetTable) (o : Offset) (cell : Nat) : Option Nat × TargetTable :=
  (t.lookup o.x o.y,
    ⟨upsert o.x (fun rows => upsert o.y (fun _ => cell) (rows.getD [])) t.columns⟩)

@[simp] theorem insert_fst (t : TargetTable) (o : Offset) (cell : Nat) :
    (t.insert o cell).1 = t.lookup o.x o.y := rfl

theorem lookup_insert (t : TargetTable) (o : Offset) (cell : Nat) (dx dy : Int) :
    (t.insert o cell).2.lookup dx dy =
      if dx = o.x ∧ dy = o.y then some cell else t.lookup dx dy := by
  simp only [lookup, rows, insert, lookup_upsert]
  by_cases hx : dx = o.x
  · subst hx
    simp [lookup_upsert]
  · simp [hx]

def entries (t : TargetTable) : List (Offset × Nat) :=
  t.columns.flatMap fun (dx, rows) => rows.map fun (dy, cell) => (⟨dx, dy⟩, cell)

def size (t : TargetTable) : Nat := t.entries.length

def isEmpty (t : TargetTable) : Bool := t.columns.isEmpty

end TargetTable

def Window.targetTable (w : Window) : Except CompileError TargetTable :=
  if w.isEmpty then .error (.emptyWindow w.radius)
  else
    w.cells.foldlM (fun (table : TargetTable) (o, cell) =>
      match table.insert o cell with
      | (some _, _) => .error (.repeatedCell o)
      | (none, table) => .ok table) TargetTable.empty

end GridRoute
