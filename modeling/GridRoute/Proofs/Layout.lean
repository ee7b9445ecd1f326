import GridRoute.Source.Script

/-!
Layouts. The lines that a script writes can be told from the script alone, from the level it starts at and
from whether there are comments. Running a script whose blocks nest well appends these lines, never fails
and leaves the depth as it was.
-/

namespace GridRoute.Source

def printed (indent : String) (lines : List Line) : String :=
  String.join (lines.map fun line => line.render indent ++ "\n")

def Line.ofText (level : Nat) (content : String) : Line :=
  if content.isEmpty then .blank else .text level content

namespace Writer

def putAll (w : Writer) (lines : List Line) : Writer := { w with lines := w.lines ++ lines.toArray }

variable {w : Writer}

@[simp] theorem putAll_depth (lines : List Line) : (w.putAll lines).depth = w.depth := rfl

@[simp] theorem putAll_nil : w.putAll [] = w := by
  simp [putAll]

@[simp] theorem putAll_putAll (front rest : List Line) :
    (w.putAll front).putAll rest = w.putAll (front ++ rest) := by
  simp [putAll]

theorem put_eq (line : Line) : w.put line = w.putAll [line] := by
  simp [put, putAll]

theorem line_eq (text : String) : w.line text = w.putAll [.ofText w.depth text] := by
  unfold line Line.ofText blank
  split <;> exact put_eq _

theorem writeLines_eq (texts : List String) :
    w.writeLines texts = w.putAll (texts.map (.ofText w.depth)) := by
  unfold writeLines
  induction texts generalizing w with
  | nil => simp
  | cons text texts ih =>
    rw [List.foldl_cons, ih, line_eq, putAll_putAll]
    rfl

theorem text_eq (w : Writer) : w.text = printed w.indent w.lines.toList := by
  rw [text, printed, String.join, List.foldl_map, ← Array.foldl_toList]
  simp only [String.append_assoc]

/-- What is written while no block is open, and leaves none open, is the finished text. -/
theorem finish_putAll (lines : List Line) (hdepth : w.depth = 0) (hlines : w.lines = #[]) :
    (w.putAll lines).finish = .ok (printed w.indent lines) := by
  rw [finish, putAll_depth, hdepth, if_neg (Nat.lt_irrefl 0), text_eq, putAll, hlines]
  simp

end Writer

mutual

def Step.layout (comments : Bool) (level : Nat) : Step → List Line
  | .line text => [.ofText level text]
  | .lines texts => texts.map (.ofText level)
  | .blank => [.blank]
  | .comment text => if comments then [.ofText level ("// " ++ text)] else []
  | .blockComment texts =>
    if comments then
      ("/**" :: texts.map Writer.commentLine ++ [" */"]).map (.ofText level)
    else []
  | .reopenBlock header => [.reopening (level - 1) header]
  | .block header body =>
    .opening level header :: layoutScript comments (level + 1) body ++ [.closing level]
  | .loop counter bound body =>
    .opening level (loopHeader counter bound) :: layoutScript comments (level + 1) body ++
      [.closing level]
  | .setComments _ | .enterBlock _ | .exitBlock | .finish | .abort | .attempt _ => []

def layoutScript (comments : Bool) (level : Nat) : Script → List Line
  | [] => []
  | step :: rest => step.layout comments level ++ layoutScript comments level rest

end

mutual

/-- The step closes the blocks that it opens and no others, and cannot fail at the level. -/
def Step.Nests (level : Nat) : Step → Prop
  | .line _ | .lines _ | .blank | .comment _ | .blockComment _ => True
  | .reopenBlock _ => 0 < level
  | .block _ body | .loop _ _ body => NestsScript (level + 1) body
  | .setComments _ | .enterBlock _ | .exitBlock | .finish | .abort | .attempt _ => False

def NestsScript (level : Nat) : Script → Prop
  | [] => True
  | step :: rest => step.Nests level ∧ NestsScript level rest

end

theorem runScript_append (script rest : Script) (w : Writer) :
    runScript (script ++ rest) w =
      match runScript script w with
      | (.ok (), w) => runScript rest w
      | (.error error, w) => (.error error, w) := by
  induction script generalizing w with
  | nil => rw [List.nil_append, runScript]
  | cons step script ih =>
    rw [List.cons_append, runScript, runScript]
    rcases step.run w with ⟨⟨error⟩ | ⟨⟩, w⟩
    · rfl
    · exact ih w

/-- Wherever it starts at the level, the script writes exactly the lines. -/
def Writes (comments : Bool) (level : Nat) (script : Script) (lines : List Line) : Prop :=
  ∀ w : Writer, w.comments = comments → w.depth = level →
    runScript script w = (.ok (), w.putAll lines)

namespace Writes

variable {comments : Bool} {level : Nat} {script rest : Script} {lines more : List Line}

theorem nil : Writes comments level [] [] := by
  intro w _ _
  rw [runScript, Writer.putAll_nil]

theorem append (h : Writes comments level script lines) (hrest : Writes comments level rest more) :
    Writes comments level (script ++ rest) (lines ++ more) := by
  intro w hcomments hdepth
  rw [runScript_append, h w hcomments hdepth, ← Writer.putAll_putAll]
  exact hrest _ hcomments hdepth

theorem single {step : Step} (h : ∀ w : Writer, w.comments = comments → w.depth = level →
    step.run w = (.ok (), w.putAll lines)) : Writes comments level [step] lines := by
  intro w hcomments hdepth
  rw [runScript, h w hcomments hdepth]
  dsimp only
  rw [runScript]

theorem cons {step : Step} (h : Writes comments level [step] lines)
    (hrest : Writes comments level rest more) : Writes comments level (step :: rest) (lines ++ more) :=
  h.append hrest

theorem endBlock_eq (h : Writes comments (level + 1) script lines) (header : String) {w : Writer}
    (hcomments : w.comments = comments) (hdepth : w.depth = level) :
    Outcome.endBlock w.depth (runScript script (w.enterBlock header)) =
      (.ok (), w.putAll (.opening level header :: lines ++ [.closing level])) := by
  subst hdepth
  rw [h (w.enterBlock header) hcomments rfl]
  simp [Outcome.endBlock, Writer.closeBlock, Writer.exitBlock, Writer.enterBlock, Writer.putAll]

theorem block (h : Writes comments (level + 1) script lines) (header : String) :
    Writes comments level [.block header script]
      (.opening level header :: lines ++ [.closing level]) := by
  refine single fun w hcomments hdepth => ?_
  rw [Step.run]
  exact h.endBlock_eq header hcomments hdepth

end Writes

mutual

theorem Step.run_eq_layout {comments : Bool} : ∀ (step : Step) {level : Nat}, step.Nests level →
    ∀ w : Writer, w.comments = comments → w.depth = level →
      step.run w = (.ok (), w.putAll (step.layout comments level))
  | .line text, _, _, w, _, rfl => by
    rw [Step.run, Writer.line_eq, Step.layout]
  | .lines texts, _, _, w, _, rfl => by
    rw [Step.run, Writer.writeLines_eq, Step.layout]
  | .blank, _, _, w, _, _ => by
    rw [Step.run, Writer.blank, Writer.put_eq, Step.layout]
  | .comment text, _, _, w, hcomments, rfl => by
    rw [Step.run, Writer.comment, Step.layout, hcomments]
    cases comments with
    | true => rw [if_pos rfl, if_pos rfl, Writer.line_eq]
    | false => simp
  | .blockComment texts, _, _, w, hcomments, rfl => by
    rw [Step.run, Writer.blockComment, Step.layout, hcomments]
    cases comments with
    | true => rw [if_pos rfl, if_pos rfl, Writer.writeLines_eq]
    | false => simp
  | .reopenBlock header, level, h, w, _, hdepth => by
    obtain ⟨outer, rfl⟩ := Nat.exists_eq_succ_of_ne_zero (Nat.ne_of_gt (show 0 < level from h))
    rw [Step.run, Writer.reopenBlock, Step.layout]
    simp [hdepth, Writer.putAll]
  | .block header body, _, h, w, hcomments, hdepth => by
    rw [Step.run, Step.layout]
    exact (writes_layout body h).endBlock_eq header hcomments hdepth
  | .loop counter bound body, _, h, w, hcomments, hdepth => by
    rw [Step.run, Step.layout]
    exact (writes_layout body h).endBlock_eq (loopHeader counter bound) hcomments hdepth

theorem writes_layout {comments : Bool} : ∀ (script : Script) {level : Nat},
    NestsScript level script → Writes comments level script (layoutScript comments level script)
  | [], _, _ => .nil
  | step :: rest, _, h => by
    rw [NestsScript] at h
    rw [layoutScript]
    exact .cons (.single (step.run_eq_layout h.1)) (writes_layout rest h.2)

end

theorem layoutScript_append (comments : Bool) (level : Nat) (script rest : Script) :
    layoutScript comments level (script ++ rest) =
      layoutScript comments level script ++ layoutScript comments level rest := by
  induction script with
  | nil => rfl
  | cons step script ih => rw [List.cons_append, layoutScript, ih, layoutScript, List.append_assoc]

theorem nestsScript_append {level : Nat} {script rest : Script} :
    NestsScript level (script ++ rest) ↔ NestsScript level script ∧ NestsScript level rest := by
  induction script with
  | nil => simp [NestsScript]
  | cons step script ih => rw [List.cons_append, NestsScript, NestsScript, ih, and_assoc]

end GridRoute.Source
