import GridRoute.ClassName
import Mathlib.Data.List.Basic
import Mathlib.Tactic.MkIffOfInductiveProp

/-!
The grammar of names. An identifier is a sign that opens one and any number of signs that continue it, unless it is a
keyword; the name of a package is one identifier or several, joined by single dots. Names are accepted exactly by this
grammar. There is no dot in an identifier, so a package name is put together from its identifiers in one way only.
-/

namespace GridRoute.ClassName

def Opens (c : Char) : Prop := 'A' ≤ c ∧ c ≤ 'Z' ∨ 'a' ≤ c ∧ c ≤ 'z' ∨ c = '_' ∨ c = '$'

def Continues (c : Char) : Prop := Opens c ∨ '0' ≤ c ∧ c ≤ '9'

@[mk_iff]
structure Identifier (name : String) : Prop where
  opens : ∃ c ∈ name.toList.head?, Opens c
  continues : ∀ c ∈ name.toList.tail, Continues c
  not_keyword : name ∉ keywords

/-- The words are identifiers, and joined by single dots they are the name. -/
structure Spells (words : List String) (name : String) : Prop where
  ne_nil : words ≠ []
  identifier : ∀ word ∈ words, Identifier word
  joined : ".".intercalate words = name

section Signs

variable {c : Char}

theorem isUpper_iff : c.isUpper ↔ 'A' ≤ c ∧ c ≤ 'Z' := decide_eq_true_iff

theorem isLower_iff : c.isLower ↔ 'a' ≤ c ∧ c ≤ 'z' :=
  Bool.and_eq_true_iff.trans (and_congr decide_eq_true_iff decide_eq_true_iff)

theorem isDigit_iff : c.isDigit ↔ '0' ≤ c ∧ c ≤ '9' :=
  Bool.and_eq_true_iff.trans (and_congr decide_eq_true_iff decide_eq_true_iff)

theorem isAlpha_iff : c.isAlpha ↔ 'A' ≤ c ∧ c ≤ 'Z' ∨ 'a' ≤ c ∧ c ≤ 'z' :=
  Bool.or_eq_true_iff.trans (or_congr isUpper_iff isLower_iff)

theorem isStart_iff : isStart c ↔ Opens c := by
  simp only [isStart, Bool.or_eq_true, isAlpha_iff, beq_iff_eq, Opens, or_assoc]

theorem isPart_iff : isPart c ↔ Continues c := by
  simp only [isPart, Char.isAlphanum, Bool.or_eq_true, isAlpha_iff, isDigit_iff, beq_iff_eq, Continues, Opens]
  tauto

theorem not_continues_dot : ¬ Continues '.' := by
  rw [← isPart_iff]
  decide

end Signs

theorem toList_injective : Function.Injective String.toList := fun _ _ => String.toList_injective

theorem isIdentifier_iff {name : String} : isIdentifier name ↔ Identifier name := by
  have hkeyword : name.toList ∈ keywords.map String.toList ↔ name ∈ keywords :=
    List.mem_map_of_injective toList_injective
  rw [identifier_iff, ← hkeyword, isIdentifier]
  cases name.toList with
  | nil => simp [isIdentifierText]
  | cons first rest => simp [isIdentifierText, isStart_iff, isPart_iff, and_assoc]

theorem Identifier.dot_notMem {name : String} (h : Identifier name) : '.' ∉ name.toList := by
  obtain ⟨first, hfirst, opens⟩ := h.opens
  obtain ⟨rest, hname⟩ := List.head?_eq_some_iff.mp hfirst
  have continues := h.continues
  rw [hname] at continues ⊢
  intro hdot
  rcases List.mem_cons.mp hdot with rfl | hrest
  · exact not_continues_dot (.inl opens)
  · exact not_continues_dot (continues _ hrest)

theorem segments_eq_splitOn (cs : List Char) : segments cs = cs.splitOn '.' := by
  induction cs with
  | nil => rfl
  | cons c rest ih =>
    have hne := segments_ne_nil rest
    rw [segments, List.splitOn_cons_eq_if_modifyHead, ← ih]
    simp only [beq_iff_eq]
    split
    · rfl
    · split
      · contradiction
      · rename_i hsegments
        rw [hsegments, List.modifyHead_cons]

namespace Spells

variable {words others : List String} {name : String}

theorem segments_eq (h : Spells words name) : segments name.toList = words.map String.toList := by
  rw [segments_eq_splitOn, ← h.joined, String.toList_intercalate]
  refine List.splitOn_intercalate '.' (List.forall_mem_map.mpr fun word hword => ?_) (by simpa using h.ne_nil)
  exact (h.identifier word hword).dot_notMem

theorem unique (h : Spells words name) (h' : Spells others name) : words = others :=
  List.map_injective_iff.mpr toList_injective (h.segments_eq.symm.trans h'.segments_eq)

end Spells

theorem isPackage_iff {name : String} :
    isPackage name ↔ ∀ segment ∈ segments name.toList, Identifier (String.ofList segment) := by
  rw [isPackage, List.all_eq_true]
  refine forall₂_congr fun segment _ => ?_
  rw [← isIdentifier_iff, isIdentifier, String.toList_ofList]

theorem spells_segments {name : String} (h : isPackage name) :
    Spells ((segments name.toList).map String.ofList) name where
  ne_nil := by simpa using segments_ne_nil name.toList
  identifier := List.forall_mem_map.mpr (isPackage_iff.mp h)
  joined := by
    apply String.toList_injective
    have hback : (String.toList ∘ String.ofList) = id := funext fun _ => String.toList_ofList
    rw [String.toList_intercalate, List.map_map, hback, List.map_id, segments_eq_splitOn]
    exact List.intercalate_splitOn '.'

theorem Spells.isPackage {words : List String} {name : String} (h : Spells words name) : isPackage name := by
  rw [isPackage_iff, h.segments_eq, List.forall_mem_map]
  intro word hword
  rw [String.ofList_toList]
  exact h.identifier word hword

theorem isPackage_append_dot (a b : String) : isPackage (a ++ "." ++ b) ↔ isPackage a ∧ isPackage b := by
  have hdot : (a ++ "." ++ b).toList = a.toList ++ '.' :: b.toList := by
    simp
  rw [ClassName.isPackage, hdot, segments_eq_splitOn, List.splitOn_append_cons_self, List.all_append,
    Bool.and_eq_true, ← segments_eq_splitOn, ← segments_eq_splitOn]
  rfl

/-- What is accepted as the name of a class is an identifier and nothing else, and what is accepted as the name of a
package is spelled by identifiers with single dots between them. No other identifiers spell the same name. Two texts
with a dot between them make a package name exactly if each of them is one. -/
theorem names_spelled_uniquely :
    (∀ name, isIdentifier name ↔ Identifier name) ∧
      (∀ name, isPackage name ↔ ∃ words, Spells words name) ∧
      (∀ name words others, Spells words name → Spells others name → words = others) ∧
      ∀ a b, isPackage (a ++ "." ++ b) ↔ isPackage a ∧ isPackage b :=
  ⟨fun _ => isIdentifier_iff, fun _ => ⟨fun h => ⟨_, spells_segments h⟩, fun ⟨_, h⟩ => h.isPackage⟩,
    fun _ _ _ h h' => h.unique h', isPackage_append_dot⟩

theorem names_spelled_uniquely_newcomer :
    Spells ["$bot", "newcomer", "_2"] "$bot.newcomer._2" ∧
      Spells ((segments "$bot.newcomer._2".toList).map String.ofList) "$bot.newcomer._2" ∧
      ["$bot", "newcomer", "_2"] = (segments "$bot.newcomer._2".toList).map String.ofList := by
  have hspells : Spells ["$bot", "newcomer", "_2"] "$bot.newcomer._2" := by
    refine ⟨by decide, fun word hword => isIdentifier_iff.mp ?_, by decide⟩
    revert word
    decide
  have hpieces := spells_segments hspells.isPackage
  exact ⟨hspells, hpieces, names_spelled_uniquely.2.2.1 _ _ _ hspells hpieces⟩

example : ¬ isPackage "bot..util" ∧ ¬ isPackage "bot.new" ∧ ¬ isPackage "bot.2d" ∧ ¬ isPackage "bot.été" := by
  decide

end GridRoute.ClassName
