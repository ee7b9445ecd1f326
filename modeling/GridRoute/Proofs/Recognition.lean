import Mathlib.Data.List.Basic
import Std.Data.String.ToInt

/-!
Reading back. What is written one after the other can be told apart again, if the code of no value is the front of
another one's: items of a sequence up to a mark that begins none of them, numbers up to the next sign, and the lines
of a text.
-/

namespace GridRoute

/-- The code of a value can be cut off the front of any longer sequence. -/
def PrefixFree {α σ : Type} (f : α → List σ) : Prop :=
  ∀ ⦃a b rest rest'⦄, f a ++ rest = f b ++ rest' → a = b ∧ rest = rest'

namespace PrefixFree

variable {α σ : Type} {f : α → List σ}

theorem of_head {first : α → σ} {rest : α → List σ} (injective : Function.Injective first)
    (hf : ∀ a, f a = first a :: rest a) : PrefixFree f := by
  intro a b more more' h
  rw [hf, hf] at h
  obtain ⟨hfirst, hrest⟩ := List.cons.inj h
  obtain rfl := injective hfirst
  exact ⟨rfl, List.append_cancel_left hrest⟩

/-- A sequence is read item by item up to its mark. -/
theorem flatMap_append_cons (h : PrefixFree f) {stop : σ}
    (hstop : ∀ a, ∃ first ∈ (f a).head?, first ≠ stop) {as bs : List α} {rest rest' : List σ}
    (heq : as.flatMap f ++ stop :: rest = bs.flatMap f ++ stop :: rest') :
    as = bs ∧ rest = rest' := by
  have hitem (a : α) (more rest : List σ) : f a ++ more ≠ stop :: rest := by
    obtain ⟨first, hfirst, hne⟩ := hstop a
    obtain ⟨tail, htail⟩ := List.head?_eq_some_iff.mp hfirst
    intro heq
    rw [htail] at heq
    exact hne (List.cons.inj heq).1
  induction as generalizing bs with
  | nil =>
    cases bs with
    | nil => exact ⟨rfl, (List.cons.inj heq).2⟩
    | cons b bs =>
      rw [List.flatMap_cons, List.append_assoc] at heq
      exact absurd heq.symm (hitem b _ rest)
  | cons a as ih =>
    cases bs with
    | nil =>
      rw [List.flatMap_cons, List.append_assoc] at heq
      exact absurd heq (hitem a _ rest')
    | cons b bs =>
      rw [List.flatMap_cons, List.flatMap_cons, List.append_assoc, List.append_assoc] at heq
      obtain ⟨rfl, hbehind⟩ := h heq
      obtain ⟨rfl, hrest⟩ := ih hbehind
      exact ⟨rfl, hrest⟩

end PrefixFree

theorem append_cons_inj_of_notMem {σ : Type} {front front' rest rest' : List σ} {stop : σ}
    (hfront : stop ∉ front) (hfront' : stop ∉ front')
    (heq : front ++ stop :: rest = front' ++ stop :: rest') : front = front' ∧ rest = rest' := by
  induction front generalizing front' with
  | nil =>
    cases front' with
    | nil => exact ⟨rfl, (List.cons.inj heq).2⟩
    | cons c front' => exact absurd (List.cons.inj heq).1 (List.ne_of_not_mem_cons hfront')
  | cons c front ih =>
    cases front' with
    | nil => exact absurd (List.cons.inj heq).1.symm (List.ne_of_not_mem_cons hfront)
    | cons c' front' =>
      obtain ⟨rfl, hbehind⟩ := List.cons.inj heq
      obtain ⟨rfl, hrest⟩ := ih (List.not_mem_of_not_mem_cons hfront)
        (List.not_mem_of_not_mem_cons hfront') hbehind
      exact ⟨rfl, hrest⟩

theorem notMem_toList_repr {c : Char} (hc : c.isDigit = false) (n : Nat) : c ∉ n.repr.toList := by
  rw [Nat.toList_repr]
  intro hmem
  have hdigit := Nat.isDigit_of_mem_toDigits (by decide) (Nat.le_refl 10) hmem
  exact Bool.false_ne_true (hc.symm.trans hdigit)

theorem notMem_toList_repr_int {c : Char} (hc : c.isDigit = false) (hminus : c ≠ '-') (n : Int) :
    c ∉ n.repr.toList := by
  rw [Int.repr_eq_if]
  split
  · exact notMem_toList_repr hc n.toNat
  · rw [String.toList_append, List.mem_append, not_or]
    exact ⟨by simpa using hminus, notMem_toList_repr hc (-n).toNat⟩

theorem repr_append_inj {c : Char} (hc : c.isDigit = false) {m n : Nat} {rest rest' : List Char}
    (h : m.repr.toList ++ c :: rest = n.repr.toList ++ c :: rest') : m = n ∧ rest = rest' := by
  obtain ⟨hnumber, hrest⟩ :=
    append_cons_inj_of_notMem (notMem_toList_repr hc m) (notMem_toList_repr hc n) h
  exact ⟨Nat.repr_inj.mp (String.toList_inj.mp hnumber), hrest⟩

theorem repr_int_append_inj {c : Char} (hc : c.isDigit = false) (hminus : c ≠ '-') {m n : Int}
    {rest rest' : List Char} (h : m.repr.toList ++ c :: rest = n.repr.toList ++ c :: rest') :
    m = n ∧ rest = rest' := by
  obtain ⟨hnumber, hrest⟩ := append_cons_inj_of_notMem (notMem_toList_repr_int hc hminus m)
    (notMem_toList_repr_int hc hminus n) h
  exact ⟨Int.repr_inj.mp (String.toList_inj.mp hnumber), hrest⟩

def linesOf : List Char → List (List Char)
  | [] => []
  | c :: rest =>
    if c = '\n' then [] :: linesOf rest
    else
      match linesOf rest with
      | [] => [[c]]
      | line :: more => (c :: line) :: more

theorem linesOf_append_cons {line : List Char} (hline : '\n' ∉ line) (rest : List Char) :
    linesOf (line ++ '\n' :: rest) = line :: linesOf rest := by
  induction line with
  | nil => rw [List.nil_append, linesOf, if_pos rfl]
  | cons c line ih =>
    rw [List.mem_cons, not_or] at hline
    rw [List.cons_append, linesOf, if_neg (Ne.symm hline.1), ih hline.2]

theorem linesOf_flatMap {lines : List (List Char)} (h : ∀ line ∈ lines, '\n' ∉ line) :
    linesOf (lines.flatMap fun line => line ++ ['\n']) = lines := by
  induction lines with
  | nil => rfl
  | cons line lines ih =>
    obtain ⟨hline, hrest⟩ := List.forall_mem_cons.mp h
    rw [List.flatMap_cons, List.append_assoc, List.singleton_append, linesOf_append_cons hline,
      ih hrest]

end GridRoute
