import GridRoute.Proofs.Layout
import GridRoute.Proofs.Recognition

/-!
Remarks. A line of a text is a remark if it looks like a comment, whatever wrote it. Where no line of code looks like
one, taking the remarks out of a text leaves what would have been written without comments, and then the indentation
can be told from the code.
-/

namespace GridRoute.Source

def isSpace (c : Char) : Bool :=
  c.isWhitespace || c.toNat ∈ [0x0B, 0x0C, 0x85, 0xA0, 0x1680, 0x2028, 0x2029, 0x202F, 0x205F, 0x3000] ||
    0x2000 ≤ c.toNat && c.toNat ≤ 0x200A

def trimmed (line : List Char) : List Char := line.dropWhile isSpace

def Remark (line : List Char) : Prop :=
  ∃ mark ∈ ["//", "/**", "*"], mark.toList <+: trimmed line

instance (line : List Char) : Decidable (Remark line) :=
  inferInstanceAs (Decidable (∃ mark ∈ _, _))

/-- The lines of code in a text, without their indentation. -/
def codeOf (text : List Char) : List (List Char) :=
  ((linesOf text).filter fun line => ¬ Remark line).map trimmed

def OneLine (text : String) : Prop := '\n' ∉ text.toList

namespace OneLine

/-- For literals: their signs are decided on as a list, for a string would be decoded sign by sign. -/
theorem literal {cs : List Char} (h : '\n' ∉ cs) : OneLine (String.ofList cs) := by
  rwa [OneLine, String.toList_ofList]

theorem append {text more : String} (h : OneLine text) (hmore : OneLine more) :
    OneLine (text ++ more) := by
  rw [OneLine, String.toList_append, List.mem_append, not_or]
  exact ⟨h, hmore⟩

theorem toString (n : Nat) : OneLine (toString n) := notMem_toList_repr rfl n

theorem toString_int (n : Int) : OneLine (ToString.toString n) := by
  rw [Int.toString_eq_repr]
  exact notMem_toList_repr_int rfl (by decide) n

theorem indentation {indent : String} (h : OneLine indent) (level : Nat) :
    OneLine (String.join (List.replicate level indent)) := by
  simp only [OneLine, String.toList_join, List.mem_flatMap, List.mem_replicate]
  rintro ⟨_, ⟨-, heq⟩, hnewline⟩
  exact h (heq ▸ hnewline)

end OneLine

/-- The text ends no line, and opens or closes no block. -/
structure Smooth (text : String) : Prop where
  oneLine : OneLine text
  notMem_opening : '\x7b' ∉ text.toList
  notMem_closing : '\x7d' ∉ text.toList

namespace Smooth

variable {text more : String}

theorem literal {cs : List Char} (h : '\n' ∉ cs ∧ '\x7b' ∉ cs ∧ '\x7d' ∉ cs) : Smooth (String.ofList cs) := by
  rw [← String.toList_ofList (l := cs)] at h
  exact ⟨h.1, h.2.1, h.2.2⟩

theorem append (h : Smooth text) (hmore : Smooth more) : Smooth (text ++ more) where
  oneLine := h.oneLine.append hmore.oneLine
  notMem_opening := by
    rw [String.toList_append, List.mem_append, not_or]
    exact ⟨h.notMem_opening, hmore.notMem_opening⟩
  notMem_closing := by
    rw [String.toList_append, List.mem_append, not_or]
    exact ⟨h.notMem_closing, hmore.notMem_closing⟩

theorem toString (n : Nat) : Smooth (toString n) :=
  ⟨.toString n, notMem_toList_repr rfl n, notMem_toList_repr rfl n⟩

theorem toString_int (n : Int) : Smooth (ToString.toString n) := by
  refine ⟨.toString_int n, ?_, ?_⟩
  all_goals
    rw [Int.toString_eq_repr]
    exact notMem_toList_repr_int rfl (by decide) n

end Smooth

structure Code (text : String) : Prop where
  oneLine : OneLine text
  exists_head : ∃ c ∈ text.toList.head?, ¬ isSpace c ∧ c ≠ '/' ∧ c ≠ '*'

namespace Code

variable {text : String}

theorem literal {c : Char} {cs : List Char}
    (h : '\n' ∉ c :: cs ∧ ¬ isSpace c ∧ c ≠ '/' ∧ c ≠ '*') : Code (String.ofList (c :: cs)) :=
  ⟨.literal h.1, c, by simp, h.2⟩

theorem append (h : Code text) {more : String} (hmore : OneLine more) : Code (text ++ more) := by
  obtain ⟨c, hhead, hc⟩ := h.exists_head
  refine ⟨h.oneLine.append hmore, c, ?_, hc⟩
  obtain ⟨rest, hrest⟩ := List.head?_eq_some_iff.mp hhead
  simp [hrest]

theorem trimmed_eq (h : Code text) : trimmed text.toList = text.toList := by
  obtain ⟨c, hhead, hblank, -⟩ := h.exists_head
  obtain ⟨rest, hrest⟩ := List.head?_eq_some_iff.mp hhead
  rw [hrest, trimmed, List.dropWhile_cons_of_neg hblank]

theorem not_remark (h : Code text) : ¬ Remark text.toList := by
  obtain ⟨c, hhead, hblank, hslash, hstar⟩ := h.exists_head
  obtain ⟨rest, hrest⟩ := List.head?_eq_some_iff.mp hhead
  rw [Remark, h.trimmed_eq, hrest]
  simp [Ne.symm hslash, Ne.symm hstar]

end Code

theorem code_loopHeader {counter bound : String} (hcounter : OneLine counter)
    (hbound : OneLine bound) : Code (loopHeader counter bound) := by
  have hcount : Code ("for (int " ++ counter ++ " = 0; " ++ counter ++ " < ") :=
    .append (.append (.append (.append (.literal (by decide)) hcounter) (.literal (by decide)))
      hcounter) (.literal (by decide))
  exact .append (.append (.append (.append hcount hbound) (.literal (by decide))) hcounter)
    (.literal (by decide))

@[simp] theorem Line.content_ofText (level : Nat) (text : String) :
    (Line.ofText level text).content = text := by
  unfold ofText
  split
  · rename_i hempty
    rw [String.isEmpty_iff.mp hempty]
    rfl
  · rfl

def Indents (indent : String) : Prop := OneLine indent ∧ ∀ c ∈ indent.toList, isSpace c

theorem Indents.trimmed_render {indent : String} (h : Indents indent) (line : Line) :
    trimmed (line.render indent).toList = trimmed line.content.toList := by
  have hblank : ∀ c ∈ (String.join (List.replicate line.level indent)).toList, isSpace c := by
    simp only [String.toList_join, List.mem_flatMap, List.mem_replicate]
    rintro c ⟨_, ⟨-, heq⟩, hc⟩
    exact h.2 c (heq ▸ hc)
  rw [Line.render, String.toList_append, trimmed, List.dropWhile_append_of_pos hblank, trimmed]

theorem Indents.oneLine_render {indent : String} (h : Indents indent) {line : Line}
    (hline : OneLine line.content) : OneLine (line.render indent) :=
  .append (h.1.indentation line.level) hline

theorem indents_blanks : Indents "    " :=
  ⟨.literal (by decide), by simp [isSpace, Char.isWhitespace]⟩

structure Strips (indent : String) (written kept : List Line) : Prop where
  oneLine : ∀ line ∈ written, OneLine (line.render indent)
  filter_eq : (written.filter fun line => ¬ Remark (line.render indent).toList) = kept
  trimmed_eq : ∀ line ∈ kept, trimmed (line.render indent).toList = line.content.toList

namespace Strips

variable {indent : String} {written kept more rest : List Line}

theorem nil : Strips indent [] [] := ⟨by simp, rfl, by simp⟩

theorem blank : Strips indent [.blank] [.blank] := by
  have hrender : (Line.blank.render indent).toList = [] := by
    simp [Line.render, Line.level, Line.content]
  exact ⟨by simp [OneLine, hrender], by simp [Remark, trimmed, hrender], by
    simp [trimmed, hrender, Line.content]⟩

theorem append (h : Strips indent written kept) (hrest : Strips indent more rest) :
    Strips indent (written ++ more) (kept ++ rest) where
  oneLine line hline := (List.mem_append.mp hline).elim (h.oneLine line) (hrest.oneLine line)
  filter_eq := by rw [List.filter_append, h.filter_eq, hrest.filter_eq]
  trimmed_eq line hline := (List.mem_append.mp hline).elim (h.trimmed_eq line) (hrest.trimmed_eq line)

variable (hindent : Indents indent) {line : Line}

include hindent

theorem code (h : Code line.content) : Strips indent [line] [line] where
  oneLine := by simpa using hindent.oneLine_render h.oneLine
  filter_eq := by
    have := h.not_remark
    rw [Remark, ← hindent.trimmed_render, ← Remark] at this
    simp [this]
  trimmed_eq := by
    simpa [hindent.trimmed_render] using h.trimmed_eq

theorem remark (hline : OneLine line.content) (h : Remark line.content.toList) :
    Strips indent [line] [] where
  oneLine := by simpa using hindent.oneLine_render hline
  filter_eq := by
    rw [Remark, ← hindent.trimmed_render, ← Remark] at h
    simp [h]
  trimmed_eq := by simp

theorem codes {texts : List String} (h : ∀ text ∈ texts, Code text) (level : Nat) :
    Strips indent (texts.map (.ofText level)) (texts.map (.ofText level)) := by
  induction texts with
  | nil => exact nil
  | cons text texts ih =>
    obtain ⟨htext, hrest⟩ := List.forall_mem_cons.mp h
    exact (code hindent (by rwa [Line.content_ofText])).append (ih hrest)

theorem remarks {texts : List String}
    (h : ∀ text ∈ texts, OneLine text ∧ Remark text.toList) (level : Nat) :
    Strips indent (texts.map (.ofText level)) [] := by
  induction texts with
  | nil => exact nil
  | cons text texts ih =>
    obtain ⟨⟨htext, hremark⟩, hrest⟩ := List.forall_mem_cons.mp h
    rw [← Line.content_ofText level text] at htext hremark
    exact (remark hindent htext hremark).append (ih hrest)

theorem block {header : String} (hheader : Code header) (h : Strips indent written kept)
    (level : Nat) :
    Strips indent (.opening level header :: written ++ [.closing level])
      (.opening level header :: kept ++ [.closing level]) := by
  have hopening : Code (Line.opening level header).content := by
    rw [Line.content]
    split
    · exact .literal (by decide)
    · exact hheader.append (.literal (by decide))
  have hclosing : Code (Line.closing level).content := .literal (by decide)
  exact ((code hindent hopening).append h).append (code hindent hclosing)

end Strips

theorem remark_comment (text : String) : Remark ("// " ++ text).toList := by
  simp [Remark, trimmed, isSpace, Char.isWhitespace]

theorem remark_commentLine (text : String) : Remark (Writer.commentLine text).toList := by
  unfold Writer.commentLine
  split <;> simp [Remark, trimmed, isSpace, Char.isWhitespace]

theorem oneLine_commentLine {text : String} (h : OneLine text) :
    OneLine (Writer.commentLine text) := by
  unfold Writer.commentLine
  split
  · exact .literal (by decide)
  · exact .append (.literal (by decide)) h

mutual

/-- Every text of the step is one line, and none of its code begins as a comment does. -/
def Step.Tidy : Step → Prop
  | .line text => Code text
  | .lines texts => ∀ text ∈ texts, Code text
  | .comment text => OneLine text
  | .blockComment texts => ∀ text ∈ texts, OneLine text
  | .reopenBlock header => OneLine header
  | .block header body => Code header ∧ TidyScript body
  | .loop counter bound body => Code (loopHeader counter bound) ∧ TidyScript body
  | .blank | .setComments _ | .enterBlock _ | .exitBlock | .finish | .abort | .attempt _ => True

def TidyScript : Script → Prop
  | [] => True
  | step :: rest => step.Tidy ∧ TidyScript rest

end

theorem tidyScript_append {script rest : Script} :
    TidyScript (script ++ rest) ↔ TidyScript script ∧ TidyScript rest := by
  induction script with
  | nil => simp [TidyScript]
  | cons step script ih => rw [List.cons_append, TidyScript, TidyScript, ih, and_assoc]

mutual

theorem Step.strips_layout {indent : String} (hindent : Indents indent) (comments : Bool) :
    ∀ (step : Step) (level : Nat), step.Tidy →
      Strips indent (step.layout comments level) (step.layout false level)
  | .line text, level, h => by
    rw [Step.layout, Step.layout]
    exact .code hindent (by rw [Line.content_ofText]; exact h)
  | .lines texts, level, h => by
    rw [Step.layout, Step.layout]
    exact .codes hindent h level
  | .blank, level, _ => by
    rw [Step.layout, Step.layout]
    exact .blank
  | .comment text, level, h => by
    rw [Step.layout, Step.layout]
    cases comments with
    | true =>
      have hline : OneLine ("// " ++ text) := .append (.literal (by decide)) h
      exact .remark hindent (by rwa [Line.content_ofText])
        (by rw [Line.content_ofText]; exact remark_comment text)
    | false => exact .nil
  | .blockComment texts, level, h => by
    rw [Step.layout, Step.layout]
    cases comments with
    | true =>
      refine .remarks hindent (fun text htext => ?_) level
      simp only [List.cons_append, List.mem_cons, List.mem_append, List.mem_map, List.mem_nil_iff,
        or_false] at htext
      rcases htext with rfl | ⟨text, hmem, rfl⟩ | rfl
      · exact ⟨.literal (by decide), by decide⟩
      · exact ⟨oneLine_commentLine (h text hmem), remark_commentLine text⟩
      · exact ⟨.literal (by decide), by decide⟩
    | false => exact .nil
  | .reopenBlock header, level, h => by
    rw [Step.layout, Step.layout]
    have hclosing : Code "\x7d " := .literal (by decide)
    exact .code hindent ((hclosing.append h).append (.literal (by decide)))
  | .block header body, level, h => by
    rw [Step.layout, Step.layout]
    exact .block hindent h.1 (strips_layoutScript hindent comments body (level + 1) h.2) level
  | .loop counter bound body, level, h => by
    rw [Step.layout, Step.layout]
    exact .block hindent h.1 (strips_layoutScript hindent comments body (level + 1) h.2) level
  | .setComments _, _, _ | .enterBlock _, _, _ | .exitBlock, _, _ | .finish, _, _ | .abort, _, _
  | .attempt _, _, _ => by
    rw [Step.layout, Step.layout]
    exact .nil

theorem strips_layoutScript {indent : String} (hindent : Indents indent) (comments : Bool) :
    ∀ (script : Script) (level : Nat), TidyScript script →
      Strips indent (layoutScript comments level script) (layoutScript false level script)
  | [], _, _ => .nil
  | step :: rest, level, h => by
    rw [layoutScript, layoutScript]
    exact (step.strips_layout hindent comments level h.1).append
      (strips_layoutScript hindent comments rest level h.2)

end

mutual

theorem Step.map_content_layout (comments : Bool) : ∀ (step : Step) (level level' : Nat),
    (step.layout comments level).map Line.content = (step.layout comments level').map Line.content
  | .lines texts, level, level' => by simp [Step.layout, Function.comp_def]
  | .blockComment texts, level, level' => by
    rw [Step.layout, Step.layout]
    split <;> simp [Function.comp_def]
  | .comment text, level, level' => by
    rw [Step.layout, Step.layout]
    split <;> simp
  | .block header body, level, level' => by
    have hbody := map_content_layoutScript comments body (level + 1) (level' + 1)
    simp [Step.layout, hbody, Line.content]
  | .loop counter bound body, level, level' => by
    have hbody := map_content_layoutScript comments body (level + 1) (level' + 1)
    simp [Step.layout, hbody, Line.content]
  | .line _, _, _ => by simp [Step.layout]
  | .blank, _, _ | .reopenBlock _, _, _ | .setComments _, _, _ | .enterBlock _, _, _
  | .exitBlock, _, _ | .finish, _, _ | .abort, _, _ | .attempt _, _, _ => by
    simp [Step.layout, Line.content]

theorem map_content_layoutScript (comments : Bool) : ∀ (script : Script) (level level' : Nat),
    (layoutScript comments level script).map Line.content =
      (layoutScript comments level' script).map Line.content
  | [], _, _ => rfl
  | step :: rest, level, level' => by
    rw [layoutScript, layoutScript, List.map_append, List.map_append,
      step.map_content_layout comments level level',
      map_content_layoutScript comments rest level level']

end

def contents (script : Script) : List String := (layoutScript false 0 script).map Line.content

section Contents

@[simp] theorem contents_nil : contents [] = [] := rfl

@[simp] theorem contents_append (script rest : Script) :
    contents (script ++ rest) = contents script ++ contents rest := by
  rw [contents, layoutScript_append, List.map_append, contents, contents]

theorem contents_cons (step : Step) (rest : Script) :
    contents (step :: rest) = contents [step] ++ contents rest :=
  contents_append [step] rest

theorem contents_flatMap {α : Type} (xs : List α) (f : α → Script) :
    contents (xs.flatMap f) = xs.flatMap fun x => contents (f x) := by
  induction xs with
  | nil => rfl
  | cons x xs ih => rw [List.flatMap_cons, contents_append, ih, List.flatMap_cons]

@[simp] theorem contents_line (text : String) : contents [.line text] = [text] := by
  simp [contents, layoutScript, Step.layout]

@[simp] theorem contents_lines (texts : List String) : contents [.lines texts] = texts := by
  simp [contents, layoutScript, Step.layout, Function.comp_def]

@[simp] theorem contents_blank : contents [.blank] = [""] := rfl

@[simp] theorem contents_comment (text : String) : contents [.comment text] = [] := rfl

@[simp] theorem contents_blockComment (texts : List String) : contents [.blockComment texts] = [] := rfl

@[simp] theorem contents_block (header : String) (body : Script) :
    contents [.block header body] =
      (Line.opening 0 header).content :: contents body ++ ["\x7d"] := by
  have hbody := map_content_layoutScript false body 1 0
  simp [contents, layoutScript, Step.layout, hbody, Line.content]

@[simp] theorem contents_loop (counter bound : String) (body : Script) :
    contents [.loop counter bound body] =
      (Line.opening 0 (loopHeader counter bound)).content :: contents body ++ ["\x7d"] := by
  have hbody := map_content_layoutScript false body 1 0
  simp [contents, layoutScript, Step.layout, hbody, Line.content]

theorem getLast?_content_opening (level : Nat) (header : String) :
    (Line.opening level header).content.toList.getLast? = some '\x7b' := by
  rw [Line.content]
  split <;> simp

/-- A line that opens a block is told from the others by its last sign. -/
theorem content_opening_ne {stop : String} (hstop : stop.toList.getLast? ≠ some '\x7b') (level : Nat)
    (header : String) : (Line.opening level header).content ≠ stop := fun heq =>
  hstop (heq ▸ getLast?_content_opening level header)

theorem content_opening_ne_append (level : Nat) (header text : String) :
    (Line.opening level header).content ≠ text ++ ";" :=
  content_opening_ne (by simp) level header

theorem content_opening_injective (level : Nat) :
    Function.Injective fun header => (Line.opening level header).content := by
  intro header header' h
  have hne (text : String) : text ++ " \x7b" ≠ "\x7b" := by
    intro heq
    have hlength := congrArg String.length heq
    rw [String.length_append] at hlength
    exact absurd hlength (Nat.ne_of_gt (Nat.lt_add_left text.length (by decide)))
  simp only [Line.content] at h
  split at h <;> split at h
  · simp_all
  · exact absurd h.symm (hne header')
  · exact absurd h (hne header)
  · exact (String.append_left_inj _).mp h

end Contents

theorem toList_printed (indent : String) (lines : List Line) :
    (printed indent lines).toList =
      (lines.map fun line => (line.render indent).toList).flatMap fun line => line ++ ['\n'] := by
  simp [printed, String.toList_join, List.flatMap_map]

namespace Strips

variable {indent : String} {written kept : List Line}

theorem linesOf_printed (h : Strips indent written kept) :
    linesOf (printed indent written).toList = written.map fun line => (line.render indent).toList := by
  rw [toList_printed, linesOf_flatMap]
  exact List.forall_mem_map.mpr h.oneLine

theorem filter_linesOf_printed (h : Strips indent written kept) :
    ((linesOf (printed indent written).toList).filter fun line => ¬ Remark line) =
      kept.map fun line => (line.render indent).toList := by
  rw [h.linesOf_printed, List.filter_map, ← h.filter_eq]
  rfl

theorem codeOf_printed (h : Strips indent written kept) :
    codeOf (printed indent written).toList = kept.map fun line => line.content.toList := by
  rw [codeOf, h.filter_linesOf_printed, List.map_map]
  exact List.map_congr_left h.trimmed_eq

end Strips

theorem codeOf_printed_layoutScript {indent : String} (hindent : Indents indent) (comments : Bool)
    {script : Script} (h : TidyScript script) :
    codeOf (printed indent (layoutScript comments 0 script)).toList =
      (contents script).map String.toList := by
  rw [(strips_layoutScript hindent comments script 0 h).codeOf_printed, contents, List.map_map]
  rfl

end GridRoute.Source
