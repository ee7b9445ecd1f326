import GridRoute.Proofs.Remarks
import Mathlib.Data.List.DropRight

/-!
Landmarks. The lines of a text that are counted are told by how they begin, indentation apart. No remark is one of
them, so they can be counted in the code alone.
-/

namespace GridRoute.Source

def stripped (line : List Char) : List Char := (trimmed line).rdropWhile isSpace

def Begins (words : String) (line : List Char) : Prop := words.toList <+: stripped line

def Reads (words : String) (line : List Char) : Prop := stripped line = words.toList

instance (words : String) : DecidablePred (Begins words) := fun line =>
  inferInstanceAs (Decidable (_ <+: stripped line))

instance (words : String) : DecidablePred (Reads words) := fun line =>
  inferInstanceAs (Decidable (stripped line = _))

/-- What the lines do that are counted. -/
inductive Landmark where
  /-- Repeats what is below it. -/
  | loop
  /-- Names a case. -/
  | label
  | leave
  /-- Takes over a place that is in range. -/
  | pull
  /-- Compares a route with the one that a cell has. -/
  | offer
deriving DecidableEq, Repr

namespace Landmark

def words : Landmark → String
  | loop => "for ("
  | label => "case "
  | leave => "break;"
  | pull => "safe = next;"
  | offer => "if (pathLength["

def isWhole : Landmark → Bool
  | leave | pull => true
  | loop | label | offer => false

def Marks (landmark : Landmark) (line : List Char) : Prop :=
  if landmark.isWhole then Reads landmark.words line else Begins landmark.words line

instance (landmark : Landmark) : DecidablePred landmark.Marks := fun _ =>
  inferInstanceAs (Decidable (if landmark.isWhole then _ else _))

def all : List Landmark := [loop, label, leave, pull, offer]

theorem mem_all (landmark : Landmark) : landmark ∈ all := by
  cases landmark <;> decide

theorem head?_words_injective : Function.Injective fun landmark => (words landmark).toList.head? := by
  intro landmark other
  cases landmark <;> cases other <;> decide

theorem Marks.begins {landmark : Landmark} {line : List Char} (h : landmark.Marks line) :
    Begins landmark.words line := by
  unfold Marks at h
  split at h
  · have hreads : stripped line = landmark.words.toList := h
    unfold Begins
    exact hreads ▸ List.prefix_rfl
  · exact h

theorem Marks.head?_eq {landmark : Landmark} {line : List Char} (h : landmark.Marks line) :
    (stripped line).head? = landmark.words.toList.head? := by
  obtain ⟨rest, hrest⟩ := h.begins
  rw [← hrest]
  cases landmark <;> simp [words]

def of? (line : List Char) : Option Landmark := all.find? fun landmark => landmark.Marks line

theorem of?_eq_some_iff {landmark : Landmark} {line : List Char} :
    of? line = some landmark ↔ landmark.Marks line := by
  constructor
  · intro h
    simpa using List.find?_some h
  · intro h
    cases hfound : of? line with
    | none =>
      have hnone := List.find?_eq_none.mp hfound landmark landmark.mem_all
      exact absurd h (by simpa using hnone)
    | some other =>
      have hother : other.Marks line := by simpa using List.find?_some hfound
      exact congrArg some (head?_words_injective (hother.head?_eq.symm.trans h.head?_eq))

theorem countP_marks (landmark : Landmark) (lines : List (List Char)) :
    lines.countP (fun line => landmark.Marks line) = (lines.filterMap of?).count landmark := by
  induction lines with
  | nil => rfl
  | cons line lines ih =>
    rw [List.countP_cons, ih, List.filterMap_cons]
    cases hline : of? line with
    | none =>
      have hnot : ¬ landmark.Marks line := fun h => by simp [of?_eq_some_iff.mpr h] at hline
      simp [hnot]
    | some other =>
      have hiff : landmark.Marks line ↔ other = landmark := by
        rw [← of?_eq_some_iff, hline, Option.some.injEq]
      simp [hiff, List.count_cons]

end Landmark

theorem trimmed_trimmed (line : List Char) : trimmed (trimmed line) = trimmed line :=
  List.dropWhile_idempotent _ _

theorem stripped_trimmed (line : List Char) : stripped (trimmed line) = stripped line := by
  rw [stripped, trimmed_trimmed, stripped]

theorem stripped_prefix_trimmed (line : List Char) : stripped line <+: trimmed line :=
  List.rdropWhile_prefix isSpace (trimmed line)

theorem trimmed_cons {c : Char} (h : ¬ isSpace c) (rest : List Char) : trimmed (c :: rest) = c :: rest :=
  List.dropWhile_cons_of_neg h

/-- No landmark begins as the signs do. -/
def Apart (cs : List Char) : Prop :=
  (∃ c ∈ cs.head?, ¬ isSpace c) ∧
    ∀ landmark ∈ Landmark.all, ¬ landmark.words.toList <+: cs ∧ ¬ cs <+: landmark.words.toList

instance (cs : List Char) : Decidable (Apart cs) :=
  -- the first sign itself is tested, not every sign that there is
  have : Decidable (∃ c ∈ cs.head?, ¬ isSpace c) := Option.decidableExistsMem _
  inferInstanceAs (Decidable (_ ∧ _))

theorem Apart.of?_append {cs : List Char} (h : Apart cs) (rest : List Char) :
    Landmark.of? (cs ++ rest) = none := by
  obtain ⟨⟨c, hhead, hblank⟩, hnot⟩ := h
  obtain ⟨tail, rfl⟩ := List.head?_eq_some_iff.mp hhead
  have htrimmed : trimmed (c :: tail ++ rest) = c :: tail ++ rest := trimmed_cons hblank (tail ++ rest)
  rw [Option.eq_none_iff_forall_ne_some]
  intro landmark hsome
  have hbegins := (Landmark.of?_eq_some_iff.mp hsome).begins
  have hwords := hbegins.trans (htrimmed ▸ stripped_prefix_trimmed _)
  have hor := List.prefix_or_prefix_of_prefix hwords (List.prefix_append (c :: tail) rest)
  exact hor.elim (hnot landmark landmark.mem_all).1 (hnot landmark landmark.mem_all).2

theorem Landmark.marks_trimmed {landmark : Landmark} {line : List Char} :
    landmark.Marks (trimmed line) ↔ landmark.Marks line := by
  rw [Marks, Reads, Begins, stripped_trimmed]
  rfl

@[simp] theorem Landmark.of?_trimmed (line : List Char) : of? (trimmed line) = of? line := by
  simp only [of?, marks_trimmed]

theorem Remark.of?_eq_none {line : List Char} (h : Remark line) : Landmark.of? line = none := by
  obtain ⟨mark, hmark, rest, hrest⟩ := h
  have hapart : ∀ mark ∈ ["//", "/**", "*"], Apart mark.toList := by
    decide
  rw [← Landmark.of?_trimmed, ← hrest]
  exact (hapart mark hmark).of?_append rest

/-- The landmarks of a text stand in its code. -/
theorem filterMap_codeOf (text : List Char) :
    (codeOf text).filterMap Landmark.of? = (linesOf text).filterMap Landmark.of? := by
  have htrimmed : Landmark.of? ∘ trimmed = Landmark.of? := funext Landmark.of?_trimmed
  rw [codeOf, List.filterMap_map, htrimmed, List.filterMap_filter]
  refine List.filterMap_congr fun line _ => ?_
  by_cases hremark : Remark line
  · simp [hremark, hremark.of?_eq_none]
  · simp [hremark]

def Plain (text : String) : Prop := ∃ front rest, Apart front ∧ text.toList = front ++ rest

namespace Plain

variable {text : String}

theorem literal {cs : List Char} (h : Apart cs) : Plain (String.ofList cs) := ⟨cs, [], h, by simp⟩

theorem append (h : Plain text) (more : String) : Plain (text ++ more) := by
  obtain ⟨front, rest, hapart, heq⟩ := h
  exact ⟨front, rest ++ more.toList, hapart, by rw [String.toList_append, heq, List.append_assoc]⟩

theorem of?_eq_none (h : Plain text) : Landmark.of? text.toList = none := by
  obtain ⟨front, rest, hapart, heq⟩ := h
  rw [heq]
  exact hapart.of?_append rest

end Plain

/-- A text between signs that are no white space. -/
structure Solid (text : String) : Prop where
  exists_head : ∃ c ∈ text.toList.head?, ¬ isSpace c
  exists_last : ∃ c ∈ text.toList.getLast?, ¬ isSpace c

theorem Solid.stripped_eq {text : String} (h : Solid text) : stripped text.toList = text.toList := by
  obtain ⟨c, hhead, hblank⟩ := h.exists_head
  obtain ⟨rest, hrest⟩ := List.head?_eq_some_iff.mp hhead
  rw [stripped, hrest, trimmed_cons hblank, ← hrest, List.rdropWhile_eq_self_iff]
  intro hne
  obtain ⟨last, hlast, hsolid⟩ := h.exists_last
  rw [List.getLast?_eq_some_getLast hne, Option.mem_def, Option.some.injEq] at hlast
  exact hlast ▸ hsolid

end GridRoute.Source
