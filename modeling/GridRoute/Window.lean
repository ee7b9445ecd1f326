import GridRoute.Radius
import Std.Data.HashMap

/-!
Windows: the cells an agent can see, in the order in which a route program visits them. A window is
grown one cell at a time, and every cell is checked as it comes in.
-/

namespace GridRoute

/-- The cells around the origin, nearest first. A cell is known by its place in this order, and
`indices` finds that place again. -/
structure Window where
  radius : Nat
  offsets : Array Offset
  indices : Std.HashMap Offset Nat
  indices_eq_some_iff : ∀ (o : Offset) (i : Nat), indices[o]? = some i ↔ offsets[i]? = some o
  ne_origin : ∀ o ∈ offsets, o ≠ Offset.origin
  norm_le_radius : ∀ o ∈ offsets, o.norm ≤ radius
  ordered : offsets.toList.Pairwise fun a b => a.norm ≤ b.norm

namespace Window

def empty (radius : Nat) : Window where
  radius := radius
  offsets := #[]
  indices := ∅
  indices_eq_some_iff := by simp
  ne_origin := by simp
  norm_le_radius := by simp
  ordered := by simp

def size (w : Window) : Nat := w.offsets.size

def isEmpty (w : Window) : Bool := w.offsets.isEmpty

def offset? (w : Window) (cell : Nat) : Option Offset := w.offsets[cell]?

def index? (w : Window) (o : Offset) : Option Nat := w.indices[o]?

theorem index?_eq_some_iff {w : Window} {o : Offset} {cell : Nat} :
    w.index? o = some cell ↔ w.offset? cell = some o :=
  w.indices_eq_some_iff o cell

def contains (w : Window) (o : Offset) : Bool := (w.index? o).isSome

def require (w : Window) (o : Offset) : Except CompileError Nat :=
  match w.index? o with
  | some cell => .ok cell
  | none => .error (.missingCell o)

def cells (w : Window) : List (Offset × Nat) := w.offsets.toList.zipIdx

theorem norm_le_back {w : Window} {last : Offset} (h : w.offsets.back? = some last) :
    ∀ o ∈ w.offsets, o.norm ≤ last.norm := by
  intro o ho
  rw [← Array.getLast?_toList, List.getLast?_eq_some_iff] at h
  obtain ⟨front, hfront⟩ := h
  have ordered := w.ordered
  rw [← Array.mem_toList_iff] at ho
  rw [hfront] at ho ordered
  rcases List.mem_append.mp ho with ho | ho
  · exact (List.pairwise_append.mp ordered).2.2 o ho last (by simp)
  · simp_all

private def grow (w : Window) (o : Offset) (new : w.indices[o]? = none)
    (away : o ≠ Offset.origin) (inside : o.norm ≤ w.radius)
    (last : ∀ previous, w.offsets.back? = some previous → previous.norm ≤ o.norm) : Window where
  radius := w.radius
  offsets := w.offsets.push o
  indices := w.indices.insert o w.offsets.size
  indices_eq_some_iff := by
    intro other i
    have hother := w.indices_eq_some_iff other i
    rw [Std.HashMap.getElem?_insert, Array.getElem?_push]
    by_cases heq : o = other
    · subst heq
      by_cases hi : i = w.offsets.size
      · simp [hi]
      · rw [new] at hother
        simp only [reduceCtorEq, false_iff] at hother
        simp [hi, hother, Ne.symm hi]
    · by_cases hi : i = w.offsets.size
      · simp_all
      · simp [heq, hi, hother]
  ne_origin := by
    intro other hother
    rcases Array.mem_push.mp hother with h | rfl
    · exact w.ne_origin other h
    · exact away
  norm_le_radius := by
    intro other hother
    rcases Array.mem_push.mp hother with h | rfl
    · exact w.norm_le_radius other h
    · exact inside
  ordered := by
    rw [Array.toList_push, List.pairwise_append]
    refine ⟨w.ordered, by simp, ?_⟩
    intro a ha b hb
    obtain rfl : b = o := by simpa using hb
    cases hback : w.offsets.back? with
    | none => simp_all
    | some previous =>
      exact Nat.le_trans (norm_le_back hback a (Array.mem_toList_iff.mp ha)) (last previous hback)

/-- Adds the next cell: not the origin, inside the radius, not nearer than the last and not there yet. -/
def push (w : Window) (o : Offset) : Except CompileError Window :=
  if away : o = Offset.origin then .error .originInWindow
  else
    match hdistance : o.squaredDistance with
    | .error cause => .error (.fault cause)
    | .ok distance =>
      have norm_eq : distance = o.norm := (Offset.squaredDistance_eq_ok_iff.mp hdistance).2
      if outside : w.radius < distance then .error (.outsideRadius o w.radius)
      else
        match hlast : w.offsets.back?.filter fun previous => distance < previous.norm with
        | some previous => .error (.outOfOrder previous o)
        | none =>
          match hnew : w.indices[o]? with
          | some _ => .error (.repeatedCell o)
          | none =>
            .ok (w.grow o hnew away (by omega) (by
              intro previous hprevious
              rw [hprevious] at hlast
              simp only [Option.filter_some, decide_eq_true_eq] at hlast
              split at hlast
              · cases hlast
              · omega))

def ofOffsets (radius : Nat) (offsets : List Offset) : Except CompileError Window :=
  offsets.foldlM push (empty radius)

end Window

end GridRoute
