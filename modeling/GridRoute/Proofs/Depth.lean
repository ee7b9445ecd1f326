import GridRoute.Proofs.Layout

/-!
Depth. However the body of a block ends, the depth behind the block is the one in front of it, so that only the steps
of a body itself move its depth. And whatever a step does, it adds to the text and changes nothing in it.
-/

namespace GridRoute.Source

theorem printed_append (indent : String) (front rest : List Line) :
    printed indent (front ++ rest) = printed indent front ++ printed indent rest := by
  simp [printed]

namespace Writer

/-- The other writer has the same text, and may have more behind it. -/
structure Grows (w next : Writer) : Prop where
  indent_eq : next.indent = w.indent
  lines_isPrefix : w.lines.toList <+: next.lines.toList

namespace Grows

variable {w next last : Writer}

theorem exists_text_eq (h : w.Grows next) : ∃ more, next.text = w.text ++ more := by
  obtain ⟨more, hmore⟩ := h.lines_isPrefix
  rw [text_eq, h.indent_eq, ← hmore, printed_append, ← text_eq]
  exact ⟨_, rfl⟩

theorem refl (w : Writer) : w.Grows w := ⟨rfl, List.prefix_refl _⟩

theorem trans (h : w.Grows next) (h' : next.Grows last) : w.Grows last :=
  ⟨h'.indent_eq.trans h.indent_eq, h.lines_isPrefix.trans h'.lines_isPrefix⟩

theorem putAll (w : Writer) (lines : List Line) : w.Grows (w.putAll lines) :=
  ⟨rfl, by simp [Writer.putAll]⟩

theorem push (w : Writer) (line : Line) (depth : Nat) :
    w.Grows { w with lines := w.lines.push line, depth := depth } :=
  ⟨rfl, by simp⟩

theorem setDepth (h : w.Grows next) (depth : Nat) : w.Grows { next with depth := depth } :=
  ⟨h.indent_eq, h.lines_isPrefix⟩

theorem line (w : Writer) (text : String) : w.Grows (w.line text) := line_eq text ▸ putAll w _

theorem writeLines (w : Writer) (texts : List String) : w.Grows (w.writeLines texts) :=
  writeLines_eq texts ▸ putAll w _

theorem comment (w : Writer) (text : String) : w.Grows (w.comment text) := by
  unfold Writer.comment
  split
  · exact line w _
  · exact refl w

theorem blockComment (w : Writer) (texts : List String) : w.Grows (w.blockComment texts) := by
  unfold Writer.blockComment
  split
  · exact writeLines w _
  · exact refl w

theorem exitBlock (w : Writer) : w.Grows w.exitBlock.2 := by
  unfold Writer.exitBlock
  split
  · exact refl w
  · exact push w _ _

theorem reopenBlock (w : Writer) (header : String) : w.Grows (w.reopenBlock header).2 := by
  unfold Writer.reopenBlock
  split
  · exact refl w
  · exact push w _ w.depth

theorem closeBlock (h : w.Grows next) (entry : Nat) : w.Grows (next.closeBlock entry).2 := by
  unfold Writer.closeBlock
  split
  · exact h.setDepth entry
  · split
    · exact h.setDepth entry
    · exact h.trans (exitBlock next)

end Grows

theorem depth_closeBlock (w : Writer) (entry : Nat) : (w.closeBlock entry).2.depth = entry := by
  unfold closeBlock
  split
  · rfl
  · split
    · rfl
    · have hdepth : w.depth = entry + 1 := by omega
      rw [exitBlock, hdepth]

end Writer

theorem Outcome.grows_endBlock {w : Writer} {body : Outcome} (h : w.Grows body.2) (entry : Nat) :
    w.Grows (endBlock entry body).2 := by
  obtain ⟨error | ⟨⟩, next⟩ := body
  · exact h.setDepth entry
  · exact h.closeBlock entry

mutual

theorem Step.grows_run : ∀ (step : Step) (w : Writer), w.Grows (step.run w).2
  | .line text, w => .line w text
  | .lines texts, w => .writeLines w texts
  | .blank, w => .push w .blank w.depth
  | .comment text, w => .comment w text
  | .blockComment texts, w => .blockComment w texts
  | .setComments _, _ => ⟨rfl, List.prefix_refl _⟩
  | .enterBlock _, w => .push w _ _
  | .exitBlock, w => .exitBlock w
  | .reopenBlock header, w => .reopenBlock w header
  | .block _ body, w =>
    Outcome.grows_endBlock ((Writer.Grows.push w _ _).trans (grows_runScript body _)) w.depth
  | .loop _ _ body, w =>
    Outcome.grows_endBlock ((Writer.Grows.push w _ _).trans (grows_runScript body _)) w.depth
  | .finish, w => .refl w
  | .abort, w => .refl w
  | .attempt step, w => step.grows_run w

theorem grows_runScript : ∀ (script : Script) (w : Writer), w.Grows (runScript script w).2
  | [], w => .refl w
  | step :: rest, w => by
    have hstep := step.grows_run w
    rw [runScript]
    rcases hrun : step.run w with ⟨error | ⟨⟩, next⟩
    · rwa [hrun] at hstep
    · rw [hrun] at hstep
      exact hstep.trans (grows_runScript rest next)

end

/-- How many more blocks a step leaves open than there were. A block leaves none, whatever its body does. -/
def Step.rise : Step → Writer → Int
  | .enterBlock _, _ => 1
  | .exitBlock, w =>
    match w.exitBlock.1 with
    | .ok () => -1
    | .error _ => 0
  | .attempt step, w => step.rise w
  | .line _, _ | .lines _, _ | .blank, _ | .comment _, _ | .blockComment _, _ | .setComments _, _
  | .reopenBlock _, _ | .block .., _ | .loop .., _ | .finish, _ | .abort, _ => 0

/-- How many more blocks the steps of a body leave open, up to the first that fails. -/
def scriptRise : Script → Writer → Int
  | [], _ => 0
  | step :: rest, w =>
    step.rise w +
      match step.run w with
      | (.ok (), next) => scriptRise rest next
      | (.error _, _) => 0

namespace Outcome

/-- How a block ends, after a body that ended like this and has left so many blocks open. -/
def verdict (body : Except ScriptError Unit) (leftOpen : Int) : Except ScriptError Unit :=
  match body with
  | .error error => .error error
  | .ok () =>
    if 0 < leftOpen then .error (.writer (.unclosedBlocks leftOpen.toNat))
    else if leftOpen < 0 then .error (.writer .unbalancedExit)
    else .ok ()

theorem depth_endBlock (entry : Nat) (body : Outcome) : (endBlock entry body).2.depth = entry := by
  obtain ⟨error | ⟨⟩, next⟩ := body
  · rfl
  · exact next.depth_closeBlock entry

theorem fst_endBlock (entry : Nat) (body : Outcome) :
    (endBlock entry body).1 = verdict body.1 (body.2.depth - (entry + 1)) := by
  obtain ⟨error | ⟨⟩, next⟩ := body
  · rfl
  · rw [endBlock, verdict, Writer.closeBlock]
    dsimp only
    by_cases hunclosed : entry + 1 < next.depth
    · have hcount : ((next.depth : Int) - (entry + 1)).toNat = next.depth - entry - 1 := by omega
      rw [if_pos hunclosed, if_pos (by omega), hcount]
      rfl
    · by_cases hunbalanced : next.depth < entry + 1
      · rw [if_neg hunclosed, if_pos hunbalanced, if_neg (by omega), if_pos (by omega)]
        rfl
      · have hdepth : next.depth = entry + 1 := by omega
        rw [if_neg hunclosed, if_neg hunbalanced, if_neg (by omega), if_neg (by omega),
          Writer.exitBlock, hdepth]
        rfl

end Outcome

theorem Step.depth_run : ∀ (step : Step) (w : Writer), ((step.run w).2.depth : Int) = w.depth + step.rise w
  | .block header body, w => by
    rw [Step.run, Outcome.depth_endBlock, Step.rise, Int.add_zero]
  | .loop counter bound body, w => by
    rw [Step.run, Outcome.depth_endBlock, Step.rise, Int.add_zero]
  | .enterBlock header, w => rfl
  | .exitBlock, w => by
    rw [Step.run, Step.rise, Writer.exitBlock]
    split
    · exact (Int.add_zero _).symm
    · rename_i depth hdepth
      rw [hdepth]
      exact (Int.add_sub_cancel (depth : Int) 1).symm
  | .reopenBlock header, w => by
    rw [Step.run, Step.rise, Int.add_zero, Writer.reopenBlock]
    split <;> rfl
  | .attempt step, w => step.depth_run w
  | .line text, w => by
    rw [Step.run, Step.rise, Writer.line_eq, Writer.putAll_depth, Int.add_zero]
  | .lines texts, w => by
    rw [Step.run, Step.rise, Writer.writeLines_eq, Writer.putAll_depth, Int.add_zero]
  | .comment text, w => by
    rw [Step.run, Step.rise, Int.add_zero, Writer.comment, Writer.line_eq]
    split <;> rfl
  | .blockComment texts, w => by
    rw [Step.run, Step.rise, Int.add_zero, Writer.blockComment, Writer.writeLines_eq]
    split <;> rfl
  | .blank, w | .setComments _, w | .finish, w | .abort, w => (Int.add_zero _).symm

/-- The blocks that are open are those that were, and those that the steps of the body itself have left open. -/
theorem depth_runScript (script : Script) (w : Writer) :
    ((runScript script w).2.depth : Int) = w.depth + scriptRise script w := by
  induction script generalizing w with
  | nil => rw [runScript, scriptRise, Int.add_zero]
  | cons step rest ih =>
    have hstep := step.depth_run w
    rw [runScript, scriptRise]
    rcases hrun : step.run w with ⟨error | ⟨⟩, next⟩
    · rw [hrun] at hstep
      rw [hstep, Int.add_zero]
    · rw [hrun] at hstep
      rw [ih next, hstep, Int.add_assoc]

theorem endBlock_runScript (script : Script) (w : Writer) (header : String) :
    (Outcome.endBlock w.depth (runScript script (w.enterBlock header))).1 =
      Outcome.verdict (runScript script (w.enterBlock header)).1 (scriptRise script (w.enterBlock header)) := by
  have hdepth := depth_runScript script (w.enterBlock header)
  have hentry : (w.enterBlock header).depth = w.depth + 1 := rfl
  have hrise : ((runScript script (w.enterBlock header)).2.depth : Int) - (w.depth + 1) =
      scriptRise script (w.enterBlock header) := by omega
  rw [Outcome.fst_endBlock, hrise]

/-- From any state of the writer and for any body, be it that steps fail in it, that failures are caught, or that it
closes blocks it has not opened: behind a block the depth is what it was in front of it, and the block fails with
the failure of its body, or else because its body has left blocks open, with their number, or has closed too many.
The same is true of whatever else a body could write and return. Where no block is open, closing one fails and does
nothing. No text is ever taken back or changed. -/
theorem blocks_keep_depth (w : Writer) :
    (∀ header body, ((Step.block header body).run w).2.depth = w.depth ∧
      ((Step.block header body).run w).1 =
        Outcome.verdict (runScript body (w.enterBlock header)).1 (scriptRise body (w.enterBlock header))) ∧
    (∀ counter bound body, ((Step.loop counter bound body).run w).2.depth = w.depth ∧
      ((Step.loop counter bound body).run w).1 =
        Outcome.verdict (runScript body (w.enterBlock (loopHeader counter bound))).1
          (scriptRise body (w.enterBlock (loopHeader counter bound)))) ∧
    (∀ body : Outcome, (body.endBlock w.depth).2.depth = w.depth ∧
      (body.endBlock w.depth).1 = Outcome.verdict body.1 (body.2.depth - (w.depth + 1))) ∧
    (w.depth = 0 → w.exitBlock = (.error .unbalancedExit, w) ∧
      ∀ header, w.reopenBlock header = (.error .unbalancedExit, w)) ∧
    (∀ step : Step, ∃ more, (step.run w).2.text = w.text ++ more) ∧
    ∀ text, w.finish = .ok text → text = w.text := by
  refine ⟨fun header body => ?_, fun counter bound body => ?_,
    fun body => ⟨Outcome.depth_endBlock _ body, Outcome.fst_endBlock _ body⟩, fun hdepth => ?_,
    fun step => (step.grows_run w).exists_text_eq, fun text hfinish => ?_⟩
  · rw [Step.run]
    exact ⟨Outcome.depth_endBlock .., endBlock_runScript ..⟩
  · rw [Step.run]
    exact ⟨Outcome.depth_endBlock .., endBlock_runScript ..⟩
  · simp only [Writer.exitBlock, Writer.reopenBlock, hdepth, implies_true, and_self]
  · rw [Writer.finish] at hfinish
    split at hfinish
    · cases hfinish
    · exact (Except.ok.inj hfinish).symm

def unclosedBody : Script :=
  [.enterBlock "a", .attempt (.block "b" [.exitBlock, .exitBlock, .line "x"]), .loop "i" "n" [.reopenBlock "y"],
    .enterBlock "c"]

theorem blocks_keep_depth_unclosed :
    Writer.new.depth = 0 ∧ scriptRise unclosedBody (Writer.new.enterBlock "o") = 2 ∧
    ((Step.block "o" unclosedBody).run .new).2.depth = 0 ∧
    ((Step.block "o" unclosedBody).run .new).1 = .error (.writer (.unclosedBlocks 2)) ∧
    Writer.new.exitBlock = (.error .unbalancedExit, .new) ∧
    Writer.new.reopenBlock "else" = (.error .unbalancedExit, .new) := by
  have hrise : scriptRise unclosedBody (Writer.new.enterBlock "o") = 2 := rfl
  obtain ⟨hblock, -, -, hclosed, -, -⟩ := blocks_keep_depth .new
  obtain ⟨hdepth, hresult⟩ := hblock "o" unclosedBody
  obtain ⟨hexit, hreopen⟩ := hclosed rfl
  exact ⟨rfl, hrise, hdepth, hresult, hexit, hreopen "else"⟩

end GridRoute.Source
