import GridRoute.Proofs.Layout
import Mathlib.Algebra.Order.BigOperators.Group.List
import Mathlib.Algebra.Ring.Int.Defs

/-!
Braces. The blocks that a text leaves open are those the writer counts, as long as no block fails. A block that
fails sets the depth back and writes no brace: what its body has left open, its own brace included, stays open in
the text, and what the body has closed too much stays closed. These gaps are all that depth and text differ by.
-/

namespace GridRoute.Source

inductive Brace where
  | opening
  | closing
deriving DecidableEq, Repr

namespace Brace

def step : Brace → Int
  | opening => 1
  | closing => -1

def height (braces : List Brace) : Int := braces.count .opening - braces.count .closing

@[simp] theorem height_append (front rest : List Brace) :
    height (front ++ rest) = height front + height rest := by
  simp only [height, List.count_append]
  omega

@[simp] theorem height_singleton (b : Brace) : height [b] = b.step := by
  cases b <;> rfl

end Brace

/-- Text in which the braces of blocks are told from whatever else is written. -/
abbrev Marked := List (Char × Option Brace)

namespace Marked

def plain (text : String) : Marked := text.toList.map fun c => (c, none)

def braces (text : Marked) : List Brace := text.filterMap Prod.snd

structure Balanced (text : Marked) : Prop where
  count_eq : text.braces.count .opening = text.braces.count .closing
  count_le : ∀ front : Marked, front <+: text →
    front.braces.count .closing ≤ front.braces.count .opening

@[simp] theorem map_fst_plain (text : String) : (plain text).map Prod.fst = text.toList := by
  simp [plain, Function.comp_def]

@[simp] theorem braces_plain (text : String) : braces (plain text) = [] := by
  simp [plain, braces]

theorem braces_append (front rest : Marked) : braces (front ++ rest) = front.braces ++ rest.braces :=
  List.filterMap_append

end Marked

namespace Line

/-- The braces of the line: a block is closed before its sibling is opened. -/
def braces (line : Line) : List Brace :=
  List.replicate line.closers .closing ++ List.replicate line.openers .opening

def markedContent : Line → Marked
  | opening _ header =>
    Marked.plain (if header.isEmpty then "" else header ++ " ") ++ [('\x7b', some .opening)]
  | closing _ => [('\x7d', some .closing)]
  | reopening _ header =>
    ('\x7d', some .closing) :: Marked.plain (" " ++ header ++ " ") ++ [('\x7b', some .opening)]
  | line => Marked.plain line.content

def marked (indent : String) (line : Line) : Marked :=
  Marked.plain (String.join (List.replicate line.level indent)) ++ line.markedContent

theorem map_fst_markedContent (line : Line) :
    line.markedContent.map Prod.fst = line.content.toList := by
  cases line with
  | opening level header =>
    rw [markedContent, content, List.map_append, Marked.map_fst_plain]
    split <;> simp
  | closing level => simp [markedContent, content]
  | reopening level header => simp [markedContent, content]
  | blank => rfl
  | text level content => exact Marked.map_fst_plain _

theorem map_fst_marked (indent : String) (line : Line) :
    (line.marked indent).map Prod.fst = (line.render indent).toList := by
  rw [marked, render, List.map_append, Marked.map_fst_plain, map_fst_markedContent,
    String.toList_append]

theorem braces_marked (indent : String) (line : Line) :
    (line.marked indent).braces = line.braces := by
  rw [marked, Marked.braces_append, Marked.braces_plain, List.nil_append]
  cases line with
  | opening level header =>
    rw [markedContent, Marked.braces_append, Marked.braces_plain]
    rfl
  | closing level => rfl
  | reopening level header =>
    rw [markedContent, List.cons_append, ← List.singleton_append, Marked.braces_append,
      Marked.braces_append, Marked.braces_plain]
    rfl
  | blank => rfl
  | text level content => exact Marked.braces_plain _

@[simp] theorem braces_ofText (level : Nat) (content : String) : (ofText level content).braces = [] := by
  unfold ofText
  split <;> rfl

end Line

namespace Writer

variable {w next : Writer} {gaps : List Int}

def marked (w : Writer) : Marked :=
  w.lines.toList.flatMap fun line => line.marked w.indent ++ Marked.plain "\n"

def braces (w : Writer) : List Brace := w.lines.toList.flatMap Line.braces

theorem map_fst_marked (w : Writer) : w.marked.map Prod.fst = w.text.toList := by
  rw [text_eq, printed, marked, String.toList_join, List.map_flatMap, List.flatMap_map]
  simp only [List.map_append, Line.map_fst_marked, Marked.map_fst_plain, String.toList_append]

theorem braces_marked (w : Writer) : w.marked.braces = w.braces := by
  rw [marked, braces]
  induction w.lines.toList with
  | nil => rfl
  | cons line lines ih =>
    rw [List.flatMap_cons, List.flatMap_cons, Marked.braces_append, Marked.braces_append,
      Line.braces_marked, Marked.braces_plain, List.append_nil, ih]

theorem braces_push (w : Writer) (line : Line) (depth : Nat) :
    braces { w with lines := w.lines.push line, depth := depth } = w.braces ++ line.braces := by
  simp [braces]

theorem braces_putAll (w : Writer) (lines : List Line) :
    (w.putAll lines).braces = w.braces ++ lines.flatMap Line.braces := by
  simp [braces, putAll]

/-- More braces are open than the depth says by what the gaps add up to, and none is closed that was not opened
unless a gap is negative. -/
structure Tallied (w : Writer) (gaps : List Int) : Prop where
  height_eq : Brace.height w.braces = w.depth + gaps.sum
  height_nonneg : (∀ gap ∈ gaps, 0 ≤ gap) → ∀ front, front <+: w.braces → 0 ≤ Brace.height front

namespace Tallied

theorem withIndent (indent : String) : (withIndent indent).Tallied [] where
  height_eq := rfl
  height_nonneg := by
    intro _ front hfront
    rw [List.prefix_nil.mp hfront]
    rfl

theorem putAll (h : w.Tallied gaps) {lines : List Line} (hlines : ∀ line ∈ lines, line.braces = []) :
    (w.putAll lines).Tallied gaps := by
  have hbraces : (w.putAll lines).braces = w.braces := by
    rw [braces_putAll, List.flatMap_eq_nil_iff.mpr hlines, List.append_nil]
  constructor
  · rw [hbraces, putAll_depth]
    exact h.height_eq
  · rw [hbraces]
    exact h.height_nonneg

theorem line (h : w.Tallied gaps) (text : String) : (w.line text).Tallied gaps := by
  rw [line_eq]
  exact h.putAll (by simp)

theorem writeLines (h : w.Tallied gaps) (texts : List String) : (w.writeLines texts).Tallied gaps := by
  rw [writeLines_eq]
  exact h.putAll (List.forall_mem_map.mpr fun _ _ => Line.braces_ofText ..)

theorem brace (h : w.Tallied gaps) {b : Brace} (hbraces : next.braces = w.braces ++ [b])
    (hdepth : (next.depth : Int) = w.depth + b.step) : next.Tallied gaps := by
  have hheight : Brace.height next.braces = next.depth + gaps.sum := by
    rw [hbraces, Brace.height_append, Brace.height_singleton, h.height_eq, hdepth]
    omega
  refine ⟨hheight, fun nonneg front hfront => ?_⟩
  rw [hbraces] at hfront
  rcases List.prefix_concat_iff.mp hfront with rfl | hfront
  · have := List.sum_nonneg nonneg
    rw [← hbraces, hheight]
    omega
  · exact h.height_nonneg nonneg front hfront

theorem enterBlock (h : w.Tallied gaps) (header : String) : (w.enterBlock header).Tallied gaps :=
  h.brace (b := .opening) (w.braces_push _ _) rfl

theorem exitBlock (h : w.Tallied gaps) : w.exitBlock.2.Tallied gaps := by
  unfold Writer.exitBlock
  split
  · exact h
  · rename_i depth hdepth
    refine h.brace (b := .closing) (w.braces_push _ _) ?_
    rw [hdepth, Brace.step]
    dsimp only
    omega

theorem reopenBlock (h : w.Tallied gaps) (header : String) :
    (w.reopenBlock header).2.Tallied gaps := by
  have hclosed := h.exitBlock
  unfold Writer.exitBlock at hclosed
  unfold Writer.reopenBlock
  split
  · exact h
  · rename_i depth hdepth
    rw [hdepth] at hclosed
    refine hclosed.brace (b := .opening) ?_ ?_
    · simp [braces, Line.braces, Line.closers, Line.openers]
    · rw [hdepth]
      rfl

theorem count_eq (h : w.Tallied gaps) :
    (w.marked.braces.count .opening : Int) =
      w.marked.braces.count .closing + w.depth + gaps.sum := by
  have hheight := h.height_eq
  rw [braces_marked]
  unfold Brace.height at hheight
  omega

theorem count_le (h : w.Tallied gaps) (nonneg : ∀ gap ∈ gaps, 0 ≤ gap) {front : Marked}
    (hfront : front <+: w.marked) : front.braces.count .closing ≤ front.braces.count .opening := by
  have hbraces : front.braces <+: w.braces := w.braces_marked ▸ hfront.filterMap Prod.snd
  have hheight := h.height_nonneg nonneg _ hbraces
  unfold Brace.height at hheight
  omega

/-- A depth that is set without a brace leaves a gap. -/
theorem setDepth (h : w.Tallied gaps) (depth : Nat) :
    ({ w with depth := depth } : Writer).Tallied (gaps ++ [(w.depth : Int) - depth]) := by
  constructor
  · rw [List.sum_append, List.sum_singleton]
    have := h.height_eq
    change Brace.height w.braces = _
    dsimp only
    omega
  · intro nonneg
    exact h.height_nonneg fun gap hgap => nonneg gap (List.mem_append_left _ hgap)

end Tallied

end Writer

/-- How much deeper than at its start a block was left that fails. -/
def Outcome.gap (entry : Nat) (body : Outcome) : List Int :=
  match (endBlock entry body).1 with
  | .ok () => []
  | .error _ => [(body.2.depth : Int) - entry]

theorem Writer.Tallied.endBlock {body : Outcome} {gaps : List Int} (h : body.2.Tallied gaps)
    (entry : Nat) : (Outcome.endBlock entry body).2.Tallied (gaps ++ Outcome.gap entry body) := by
  obtain ⟨error | ⟨⟩, w⟩ := body
  · exact h.setDepth entry
  · rw [Outcome.gap, Outcome.endBlock, Writer.closeBlock]
    by_cases hunclosed : entry + 1 < w.depth
    · rw [if_pos hunclosed]
      exact h.setDepth entry
    · by_cases hunbalanced : w.depth < entry + 1
      · rw [if_neg hunclosed, if_pos hunbalanced]
        exact h.setDepth entry
      · have hdepth : w.depth = entry + 1 := by omega
        have hexit := h.exitBlock
        rw [if_neg hunclosed, if_neg hunbalanced]
        unfold Writer.exitBlock at hexit ⊢
        simp only [hdepth] at hexit ⊢
        rw [Outcome.ofWriter_ok, List.append_nil]
        exact hexit

mutual

def Step.gaps : Step → Writer → List Int
  | .block header body, w =>
    scriptGaps body (w.enterBlock header) ++
      Outcome.gap w.depth (runScript body (w.enterBlock header))
  | .loop counter bound body, w =>
    scriptGaps body (w.enterBlock (loopHeader counter bound)) ++
      Outcome.gap w.depth (runScript body (w.enterBlock (loopHeader counter bound)))
  | .attempt step, w => step.gaps w
  | .line _, _ | .lines _, _ | .blank, _ | .comment _, _ | .blockComment _, _ | .setComments _, _
  | .enterBlock _, _ | .exitBlock, _ | .reopenBlock _, _ | .finish, _ | .abort, _ => []

def scriptGaps : Script → Writer → List Int
  | [], _ => []
  | step :: rest, w =>
    step.gaps w ++
      match step.run w with
      | (.ok (), w) => scriptGaps rest w
      | (.error _, _) => []

end

mutual

theorem Step.tallied_run : ∀ (step : Step) {w : Writer} {gaps : List Int}, w.Tallied gaps →
    (step.run w).2.Tallied (gaps ++ step.gaps w)
  | .line text, w, gaps, h => by
    rw [Step.run, Step.gaps, List.append_nil]
    exact h.line text
  | .lines texts, w, gaps, h => by
    rw [Step.run, Step.gaps, List.append_nil]
    exact h.writeLines texts
  | .blank, w, gaps, h => by
    rw [Step.run, Step.gaps, List.append_nil, Writer.blank, Writer.put_eq]
    exact h.putAll (by simp [Line.braces, Line.closers, Line.openers])
  | .comment text, w, gaps, h => by
    rw [Step.run, Step.gaps, List.append_nil, Writer.comment]
    split
    · exact h.line ("// " ++ text)
    · exact h
  | .blockComment texts, w, gaps, h => by
    rw [Step.run, Step.gaps, List.append_nil, Writer.blockComment]
    split
    · exact h.writeLines _
    · exact h
  | .setComments enabled, w, gaps, h => by
    rw [Step.run, Step.gaps, List.append_nil]
    exact ⟨h.height_eq, h.height_nonneg⟩
  | .enterBlock header, w, gaps, h => by
    rw [Step.run, Step.gaps, List.append_nil]
    exact h.enterBlock header
  | .exitBlock, w, gaps, h => by
    rw [Step.run, Step.gaps, List.append_nil]
    exact h.exitBlock
  | .reopenBlock header, w, gaps, h => by
    rw [Step.run, Step.gaps, List.append_nil]
    exact h.reopenBlock header
  | .block header body, w, gaps, h => by
    rw [Step.run, Step.gaps, ← List.append_assoc]
    exact (tallied_runScript body (h.enterBlock header)).endBlock w.depth
  | .loop counter bound body, w, gaps, h => by
    rw [Step.run, Step.gaps, ← List.append_assoc]
    exact (tallied_runScript body (h.enterBlock (loopHeader counter bound))).endBlock w.depth
  | .finish, w, gaps, h => by
    rw [Step.run, Step.gaps, List.append_nil]
    exact h
  | .abort, w, gaps, h => by
    rw [Step.run, Step.gaps, List.append_nil]
    exact h
  | .attempt step, w, gaps, h => by
    rw [Step.run, Step.gaps]
    exact step.tallied_run h

theorem tallied_runScript : ∀ (script : Script) {w : Writer} {gaps : List Int}, w.Tallied gaps →
    (runScript script w).2.Tallied (gaps ++ scriptGaps script w)
  | [], w, gaps, h => by
    rw [runScript, scriptGaps, List.append_nil]
    exact h
  | step :: rest, w, gaps, h => by
    have hstep := step.tallied_run h
    rw [runScript, scriptGaps, ← List.append_assoc]
    rcases hrun : step.run w with ⟨error | ⟨⟩, after⟩
    · rw [hrun] at hstep
      rw [List.append_nil]
      exact hstep
    · rw [hrun] at hstep
      exact tallied_runScript rest hstep

end

def Step.isBlock : Step → Bool
  | .block .. | .loop .. => true
  | _ => false

theorem Outcome.gap_eq_nil_iff {entry : Nat} {body : Outcome} :
    gap entry body = [] ↔ (endBlock entry body).1 = .ok () := by
  unfold gap
  rcases (endBlock entry body).1 with error | ⟨⟩ <;> simp

mutual

theorem Step.gaps_eq_nil_iff : ∀ (step : Step) (w : Writer), step.gaps w = [] ↔
    ∀ entry ∈ step.log w, entry.step.isBlock → entry.result = .ok ()
  | .block header body, w => by
    rw [Step.gaps, Step.log, List.append_eq_nil_iff, scriptGaps_eq_nil_iff, Outcome.gap_eq_nil_iff,
      List.forall_mem_append, List.forall_mem_singleton]
    simp [LogEntry.ofRun, Step.isBlock, Step.run]
  | .loop counter bound body, w => by
    rw [Step.gaps, Step.log, List.append_eq_nil_iff, scriptGaps_eq_nil_iff, Outcome.gap_eq_nil_iff,
      List.forall_mem_append, List.forall_mem_singleton]
    simp [LogEntry.ofRun, Step.isBlock, Step.run]
  | .attempt step, w => by
    rw [Step.gaps, Step.log]
    exact step.gaps_eq_nil_iff w
  | .line _, _ | .lines _, _ | .blank, _ | .comment _, _ | .blockComment _, _ | .setComments _, _
  | .enterBlock _, _ | .exitBlock, _ | .reopenBlock _, _ | .finish, _ | .abort, _ => by
    simp [Step.gaps, Step.log, LogEntry.ofRun, Step.isBlock]

theorem scriptGaps_eq_nil_iff : ∀ (script : Script) (w : Writer), scriptGaps script w = [] ↔
    ∀ entry ∈ logScript script w, entry.step.isBlock → entry.result = .ok ()
  | [], w => by
    simp [scriptGaps, logScript]
  | step :: rest, w => by
    rw [scriptGaps, logScript, List.append_eq_nil_iff, step.gaps_eq_nil_iff, List.forall_mem_append]
    rcases step.run w with ⟨error | ⟨⟩, after⟩
    · simp
    · exact and_congr_right fun _ => scriptGaps_eq_nil_iff rest after

end

/-- The finished text of a script, whatever fails in it and is caught, opens as many more blocks than it closes as
the gaps add up to, and closes none before it opens it unless a gap is negative. If no block fails, then all of
them are closed. -/
theorem braces_balance {script : Script} {indent text : String} {w : Writer}
    (hrun : (runScript script (.withIndent indent)).2 = w) (hfinish : w.finish = .ok text) :
    w.marked.map Prod.fst = text.toList ∧
    (w.marked.braces.count .opening : Int) =
      w.marked.braces.count .closing + (scriptGaps script (.withIndent indent)).sum ∧
    ((∀ gap ∈ scriptGaps script (.withIndent indent), 0 ≤ gap) → ∀ front : Marked, front <+: w.marked →
      front.braces.count .closing ≤ front.braces.count .opening) ∧
    ((∀ entry ∈ logScript script (.withIndent indent), entry.step.isBlock → entry.result = .ok ()) →
      w.marked.Balanced) := by
  have tallied := tallied_runScript script (.withIndent indent)
  rw [hrun, List.nil_append] at tallied
  rw [Writer.finish] at hfinish
  split at hfinish
  · cases hfinish
  · rename_i hdepth
    obtain rfl : w.text = text := Except.ok.inj hfinish
    have hcount := tallied.count_eq
    refine ⟨w.map_fst_marked, by omega, fun nonneg front => tallied.count_le nonneg, fun succeeds => ?_⟩
    rw [(scriptGaps_eq_nil_iff script _).mpr succeeds] at tallied hcount
    rw [List.sum_nil] at hcount
    exact ⟨by omega, fun front => tallied.count_le (by simp)⟩

def caughtScript : Script :=
  [.attempt .exitBlock, .block "a" [.attempt .abort, .line "\x7d", .reopenBlock "b"]]

theorem braces_balance_caught :
    ∃ w, (runScript caughtScript (.withIndent " ")).2 = w ∧
      w.finish = .ok "a \x7b\n \x7d\n\x7d b \x7b\n\x7d\n" ∧
      w.marked.map Prod.fst = "a \x7b\n \x7d\n\x7d b \x7b\n\x7d\n".toList ∧ w.marked.Balanced := by
  have hfinish : (runScript caughtScript (.withIndent " ")).2.finish =
      .ok "a \x7b\n \x7d\n\x7d b \x7b\n\x7d\n" := rfl
  obtain ⟨hchars, -, -, hbalanced⟩ := braces_balance rfl hfinish
  exact ⟨_, rfl, hfinish, hchars, hbalanced ((scriptGaps_eq_nil_iff ..).mp rfl)⟩

/-- A block whose body fails stays open in the finished text, and one whose body closes too much closes a block
that is closed once more behind it. -/
theorem not_balanced_of_failed_block :
    (∃ w, (runScript [.attempt (.block "o" [.abort])] .new).2 = w ∧ w.finish = .ok "o \x7b\n" ∧
      ¬ w.marked.Balanced) ∧
    ∃ w, (runScript [.enterBlock "a", .attempt (.block "b" [.exitBlock, .exitBlock]), .exitBlock]
        (.withIndent "")).2 = w ∧
      w.finish = .ok "a \x7b\nb \x7b\n\x7d\n\x7d\n\x7d\n" ∧ ¬ w.marked.Balanced := by
  refine ⟨⟨_, rfl, rfl, fun balanced => ?_⟩, _, rfl, rfl, fun balanced => ?_⟩
  · have hcount := balanced.count_eq
    rw [Writer.braces_marked] at hcount
    exact absurd hcount (by decide)
  · have hcount := balanced.count_eq
    rw [Writer.braces_marked] at hcount
    exact absurd hcount (by decide)

end GridRoute.Source
