import GridRoute.Proofs.Depth
import GridRoute.Proofs.Remarks
import Mathlib.Algebra.GroupWithZero.Nat

/-!
Indentation. What a run does is told as a flat sequence of events, without any depth: lines are written, some of which
open or close a block, and steps come to their end. If no step fails, then each line is indented by the blocks that
were opened before it and not closed, and so many are open behind each step.
-/

namespace GridRoute.Source

/-- A line that is written, and what it does to the blocks around it. -/
structure Mark where
  content : String
  openers : Nat
  closers : Nat
deriving DecidableEq, Repr

namespace Mark

def text (content : String) : Mark := ⟨content, 0, 0⟩

def opening (header : String) : Mark :=
  ⟨if header.isEmpty then "\x7b" else header ++ " \x7b", 1, 0⟩

def closing : Mark := ⟨"\x7d", 0, 1⟩

def reopening (header : String) : Mark := ⟨"\x7d " ++ header ++ " \x7b", 1, 1⟩

def render (indent : String) (level : Nat) (mark : Mark) : String :=
  if mark.content = "" then "" else String.join (List.replicate level indent) ++ mark.content

end Mark

inductive Event where
  | line (mark : Mark)
  | ended (step : Step)

namespace Event

def openers : Event → Nat
  | line mark => mark.openers
  | ended _ => 0

def closers : Event → Nat
  | line mark => mark.closers
  | ended _ => 0

def isLine : Event → Bool
  | line _ => true
  | ended _ => false

def isEnded (event : Event) : Bool := !event.isLine

def opened (events : List Event) : Nat := (events.map openers).sum

def closed (events : List Event) : Nat := (events.map closers).sum

def switch (comments : Bool) : Event → Bool
  | ended (.setComments enabled) => enabled
  | _ => comments

def commentsAfter (comments : Bool) (events : List Event) : Bool := events.foldl switch comments

end Event

mutual

/-- What happens in a step of which no part fails. -/
def Step.events (comments : Bool) : Step → List Event
  | .line text => [.line (.text text), .ended (.line text)]
  | .lines texts => texts.map (fun text => .line (.text text)) ++ [.ended (.lines texts)]
  | .blank => [.line (.text ""), .ended .blank]
  | .comment text =>
    (if comments then [.line (.text ("// " ++ text))] else []) ++ [.ended (.comment text)]
  | .blockComment texts =>
    (if comments then
      ("/**" :: texts.map Writer.commentLine ++ [" */"]).map fun text => .line (.text text)
    else []) ++ [.ended (.blockComment texts)]
  | .setComments enabled => [.ended (.setComments enabled)]
  | .enterBlock header => [.line (.opening header), .ended (.enterBlock header)]
  | .exitBlock => [.line .closing, .ended .exitBlock]
  | .reopenBlock header => [.line (.reopening header), .ended (.reopenBlock header)]
  | .block header body =>
    .line (.opening header) :: scriptEvents comments body ++ [.line .closing, .ended (.block header body)]
  | .loop counter bound body =>
    .line (.opening (loopHeader counter bound)) :: scriptEvents comments body ++
      [.line .closing, .ended (.loop counter bound body)]
  | .finish => [.ended .finish]
  | .abort => [.ended .abort]
  | .attempt step => step.events comments

def scriptEvents (comments : Bool) : Script → List Event
  | [] => []
  | step :: rest =>
    step.events comments ++ scriptEvents (Event.commentsAfter comments (step.events comments)) rest

end

mutual

def Step.texts : Step → List String
  | .line text | .comment text => [text]
  | .lines texts | .blockComment texts => texts
  | .enterBlock header | .reopenBlock header => [header]
  | .block header body => header :: scriptTexts body
  | .loop counter bound body => counter :: bound :: scriptTexts body
  | .attempt step => step.texts
  | .blank | .setComments _ | .exitBlock | .finish | .abort => []

def scriptTexts : Script → List String
  | [] => []
  | step :: rest => step.texts ++ scriptTexts rest

end

/-- From one depth to another the events write the lines, and the log has an entry for each step that ends. -/
inductive Traces (indent : String) : Nat → List Event → List String → List LogEntry → Nat → Prop where
  | nil (depth : Nat) : Traces indent depth [] [] [] depth
  | line {depth level last : Nat} {mark : Mark} {events : List Event} {texts : List String}
      {log : List LogEntry} (hlevel : depth = level + mark.closers)
      (rest : Traces indent (level + mark.openers) events texts log last) :
      Traces indent depth (.line mark :: events) (mark.render indent level :: texts) log last
  | ended {depth last : Nat} {events : List Event} {texts : List String} {log : List LogEntry}
      (entry : LogEntry) (hdepth : entry.depth = depth) (rest : Traces indent depth events texts log last) :
      Traces indent depth (.ended entry.step :: events) texts (entry :: log) last

namespace Traces

variable {indent : String} {depth mid last : Nat} {events more : List Event} {texts behind : List String}
  {log rest : List LogEntry}

theorem append (h : Traces indent depth events texts log mid) (h' : Traces indent mid more behind rest last) :
    Traces indent depth (events ++ more) (texts ++ behind) (log ++ rest) last := by
  induction h with
  | nil => exact h'
  | line hlevel _ ih => exact .line hlevel (ih h')
  | ended entry hdepth _ ih => exact .ended entry hdepth (ih h')

theorem split (h : Traces indent depth (events ++ more) texts log last) :
    ∃ mid front behind logged rest, texts = front ++ behind ∧ log = logged ++ rest ∧
      Traces indent depth events front logged mid ∧ Traces indent mid more behind rest last := by
  induction events generalizing depth texts log with
  | nil => exact ⟨depth, [], texts, [], log, rfl, rfl, .nil depth, h⟩
  | cons event events ih =>
    rw [List.cons_append] at h
    cases h with
    | line hlevel hrest =>
      obtain ⟨mid, front, behind, logged, rest, rfl, rfl, hfront, hbehind⟩ := ih hrest
      exact ⟨mid, _, behind, logged, rest, rfl, rfl, .line hlevel hfront, hbehind⟩
    | ended entry hdepth hrest =>
      obtain ⟨mid, front, behind, logged, rest, rfl, rfl, hfront, hbehind⟩ := ih hrest
      exact ⟨mid, front, behind, entry :: logged, rest, rfl, rfl, .ended entry hdepth hfront, hbehind⟩

theorem depth_eq (h : Traces indent depth events texts log last) :
    depth + Event.opened events = Event.closed events + last := by
  induction h with
  | nil depth => simp [Event.opened, Event.closed]
  | line hlevel _ ih =>
    simp only [Event.opened, Event.closed, List.map_cons, List.sum_cons, Event.openers, Event.closers] at ih ⊢
    omega
  | ended _ _ _ ih =>
    simp only [Event.opened, Event.closed, List.map_cons, List.sum_cons, Event.openers, Event.closers] at ih ⊢
    omega

theorem length_texts (h : Traces indent depth events texts log last) :
    texts.length = events.countP Event.isLine := by
  induction h with
  | nil => rfl
  | line _ _ ih => simp [ih, List.countP_cons, Event.isLine]
  | ended _ _ _ ih => simp [ih, Event.isLine]

theorem length_log (h : Traces indent depth events texts log last) :
    log.length = events.countP Event.isEnded := by
  induction h with
  | nil => rfl
  | line _ _ ih => simp [ih, Event.isEnded, Event.isLine]
  | ended _ _ _ ih => simp [ih, Event.isEnded, Event.isLine]

theorem exists_mark (h : Traces indent depth events texts log last) {text : String} (htext : text ∈ texts) :
    ∃ mark level, .line mark ∈ events ∧ text = mark.render indent level := by
  induction h with
  | nil => cases htext
  | @line depth level _ mark _ _ _ _ _ ih =>
    rcases List.mem_cons.mp htext with rfl | hrest
    · exact ⟨mark, level, List.mem_cons_self, rfl⟩
    · obtain ⟨mark, level, hmark, htext⟩ := ih hrest
      exact ⟨mark, level, List.mem_cons_of_mem _ hmark, htext⟩
  | ended _ _ _ ih =>
    obtain ⟨mark, level, hmark, htext⟩ := ih htext
    exact ⟨mark, level, List.mem_cons_of_mem _ hmark, htext⟩

/-- A line is indented by the blocks that are open in front of it, less those it closes. -/
theorem exists_level {front back : List Event} {mark : Mark}
    (h : Traces indent depth (front ++ Event.line mark :: back) texts log last) :
    ∃ level, depth + Event.opened front = Event.closed front + mark.closers + level ∧
      texts[front.countP Event.isLine]? = some (mark.render indent level) := by
  obtain ⟨mid, above, behind, logged, rest, rfl, -, hfront, hback⟩ := h.split
  have hcount := hfront.depth_eq
  rw [← hfront.length_texts]
  cases hback with
  | @line _ level _ _ _ _ _ hlevel => exact ⟨level, by omega, by simp⟩

theorem exists_entry {front back : List Event} {step : Step}
    (h : Traces indent depth (front ++ Event.ended step :: back) texts log last) :
    ∃ entry, log[front.countP Event.isEnded]? = some entry ∧ entry.step = step ∧
      depth + Event.opened front = Event.closed front + entry.depth := by
  obtain ⟨mid, above, behind, logged, rest, -, rfl, hfront, hback⟩ := h.split
  have hcount := hfront.depth_eq
  rw [← hfront.length_log]
  cases hback with
  | ended entry hdepth _ => exact ⟨entry, by simp, rfl, by omega⟩

end Traces

theorem Event.commentsAfter_append (comments : Bool) (events more : List Event) :
    commentsAfter comments (events ++ more) = commentsAfter (commentsAfter comments events) more :=
  List.foldl_append

theorem Line.render_ofText (indent : String) (level : Nat) (text : String) :
    (ofText level text).render indent = (Mark.text text).render indent level := by
  rw [Mark.render, ofText, Mark.text]
  by_cases h : text = ""
  · subst h
    rfl
  · rw [if_neg (mt String.isEmpty_iff.mp h), if_neg h]
    rfl

theorem Line.render_opening (indent : String) (level : Nat) (header : String) :
    (opening level header).render indent = (Mark.opening header).render indent level := by
  have hne : (Mark.opening header).content ≠ "" := by
    rw [Mark.opening]
    dsimp only
    split <;> simp
  rw [Mark.render, if_neg hne]
  rfl

theorem Line.render_reopening (indent : String) (level : Nat) (header : String) :
    (reopening level header).render indent = (Mark.reopening header).render indent level := by
  have hne : (Mark.reopening header).content ≠ "" := by simp [Mark.reopening]
  rw [Mark.render, if_neg hne]
  rfl

namespace Writer

def rendered (w : Writer) : List String := w.lines.toList.map (Line.render w.indent)

structure Performs (w : Writer) (events : List Event) (log : List LogEntry) (next : Writer) : Prop where
  indent_eq : next.indent = w.indent
  comments_eq : next.comments = Event.commentsAfter w.comments events
  exists_texts : ∃ texts, next.rendered = w.rendered ++ texts ∧
    Traces w.indent w.depth events texts log next.depth

namespace Performs

variable {w mid next : Writer} {events more : List Event} {log rest : List LogEntry}

theorem nil (w : Writer) : w.Performs [] [] w :=
  ⟨rfl, rfl, [], by rw [List.append_nil], .nil w.depth⟩

theorem append (h : w.Performs events log mid) (h' : mid.Performs more rest next) :
    w.Performs (events ++ more) (log ++ rest) next := by
  obtain ⟨texts, hrendered, htraces⟩ := h.exists_texts
  obtain ⟨behind, hrendered', htraces'⟩ := h'.exists_texts
  refine ⟨h'.indent_eq.trans h.indent_eq, ?_, texts ++ behind, ?_, ?_⟩
  · rw [Event.commentsAfter_append, ← h.comments_eq, h'.comments_eq]
  · rw [hrendered', hrendered, List.append_assoc]
  · exact htraces.append (h.indent_eq ▸ htraces')

theorem push (w : Writer) {line : Line} {mark : Mark} {level depth : Nat}
    (hrender : line.render w.indent = mark.render w.indent level) (hlevel : w.depth = level + mark.closers)
    (hdepth : depth = level + mark.openers) :
    w.Performs [.line mark] [] { w with lines := w.lines.push line, depth := depth } :=
  ⟨rfl, rfl, [mark.render w.indent level], by simp [rendered, hrender],
    .line hlevel (hdepth ▸ .nil depth)⟩

theorem line (w : Writer) (text : String) : w.Performs [.line (.text text)] [] (w.line text) := by
  have hline : w.line text = { w with lines := w.lines.push (.ofText w.depth text), depth := w.depth } := by
    rw [line_eq, putAll, Array.push_eq_append]
  rw [hline]
  exact push w (Line.render_ofText ..) rfl rfl

theorem writeLines (w : Writer) (texts : List String) :
    w.Performs (texts.map fun text => .line (.text text)) [] (w.writeLines texts) := by
  induction texts generalizing w with
  | nil => exact nil w
  | cons text texts ih => exact (line w text).append (ih (w.line text))

theorem comment (w : Writer) (text : String) :
    w.Performs (if w.comments then [.line (.text ("// " ++ text))] else []) [] (w.comment text) := by
  unfold Writer.comment
  split
  · exact line w _
  · exact nil w

theorem blockComment (w : Writer) (texts : List String) :
    w.Performs (if w.comments then
      ("/**" :: texts.map commentLine ++ [" */"]).map fun text => .line (.text text) else []) []
      (w.blockComment texts) := by
  unfold Writer.blockComment
  split
  · exact writeLines w _
  · exact nil w

theorem opening (w : Writer) (header : String) :
    w.Performs [.line (.opening header)] [] (w.enterBlock header) :=
  push w (Line.render_opening ..) rfl rfl

theorem closing (w : Writer) {depth : Nat} (hdepth : w.depth = depth + 1) :
    w.Performs [.line .closing] [] { w with lines := w.lines.push (.closing depth), depth := depth } :=
  push w rfl hdepth rfl

end Performs

theorem exitBlock_of_ok {w : Writer} (h : w.exitBlock.1 = .ok ()) :
    ∃ depth, w.depth = depth + 1 ∧
      w.exitBlock = (.ok (), { w with lines := w.lines.push (.closing depth), depth := depth }) := by
  unfold exitBlock at h ⊢
  cases hdepth : w.depth with
  | zero =>
    rw [hdepth] at h
    cases h
  | succ depth => exact ⟨depth, rfl, rfl⟩

theorem reopenBlock_of_ok {w : Writer} {header : String} (h : (w.reopenBlock header).1 = .ok ()) :
    ∃ depth, w.depth = depth + 1 ∧
      w.reopenBlock header = (.ok (), { w with lines := w.lines.push (.reopening depth header) }) := by
  unfold reopenBlock at h ⊢
  cases hdepth : w.depth with
  | zero =>
    rw [hdepth] at h
    cases h
  | succ depth => exact ⟨depth, rfl, rfl⟩

theorem closeBlock_of_ok {w : Writer} {entry : Nat} (h : (w.closeBlock entry).1 = .ok ()) :
    w.depth = entry + 1 ∧
      w.closeBlock entry = (.ok (), { w with lines := w.lines.push (.closing entry), depth := entry }) := by
  unfold closeBlock at h ⊢
  split at h
  · cases h
  · split at h
    · cases h
    · have hdepth : w.depth = entry + 1 := by omega
      rw [if_neg (by omega), if_neg (by omega), exitBlock, hdepth]
      exact ⟨rfl, rfl⟩

end Writer

theorem Outcome.ofWriter_eq_ok {result : Writer.Result} (h : (ofWriter result).1 = .ok ()) :
    result.1 = .ok () := by
  obtain ⟨error | ⟨⟩, w⟩ := result
  · cases h
  · rfl

def Step.Succeeds (step : Step) (w : Writer) : Prop := ∀ entry ∈ step.log w, entry.result = .ok ()

namespace Writer.Performs

variable {w next : Writer} {events : List Event} {log : List LogEntry} {step : Step}

/-- A step ends, with its entry in the log, unless it is one that sets the comments. -/
theorem ended (h : w.Performs events log next) (hrun : step.run w = (.ok (), next))
    (hstep : ∀ comments, Event.commentsAfter comments [.ended step] = comments) :
    ∃ next, step.run w = (.ok (), next) ∧
      w.Performs (events ++ [Event.ended step]) (log ++ [LogEntry.ofRun step w]) next := by
  have hdepth : (LogEntry.ofRun step w).depth = next.depth := congrArg (fun outcome => outcome.2.depth) hrun
  exact ⟨next, hrun, h.append
    ⟨rfl, (hstep _).symm, [], (List.append_nil _).symm, .ended (.ofRun step w) hdepth (.nil next.depth)⟩⟩

theorem block {header : String} (hbody : (w.enterBlock header).Performs events log next)
    (hrun : step.run w = .endBlock w.depth (.ok (), next)) (hok : (step.run w).1 = .ok ())
    (hstep : ∀ comments, Event.commentsAfter comments [.ended step] = comments) :
    ∃ next, step.run w = (.ok (), next) ∧
      w.Performs (Event.line (.opening header) :: events ++ [Event.line .closing, .ended step])
        (log ++ [LogEntry.ofRun step w]) next := by
  rw [hrun, Outcome.endBlock] at hok
  obtain ⟨hdepth, hclosed⟩ := closeBlock_of_ok (Outcome.ofWriter_eq_ok hok)
  rw [Outcome.endBlock, hclosed, Outcome.ofWriter_ok] at hrun
  have hclosing := ((opening w header).append hbody).append (closing next hdepth)
  rw [List.append_nil] at hclosing
  simpa using hclosing.ended hrun hstep

end Writer.Performs

mutual

theorem Step.performs : ∀ (step : Step) (w : Writer), step.Succeeds w →
    ∃ next, step.run w = (.ok (), next) ∧ w.Performs (step.events w.comments) (step.log w) next
  | .line text, w, _ => (Writer.Performs.line w text).ended rfl fun _ => rfl
  | .lines texts, w, _ => (Writer.Performs.writeLines w texts).ended rfl fun _ => rfl
  | .blank, w, _ => (Writer.Performs.line w "").ended rfl fun _ => rfl
  | .comment text, w, _ => (Writer.Performs.comment w text).ended rfl fun _ => rfl
  | .blockComment texts, w, _ => (Writer.Performs.blockComment w texts).ended rfl fun _ => rfl
  | .setComments enabled, w, _ =>
    ⟨_, rfl, rfl, rfl, [], (List.append_nil _).symm, .ended (.ofRun (.setComments enabled) w) rfl (.nil w.depth)⟩
  | .enterBlock header, w, _ => (Writer.Performs.opening w header).ended rfl fun _ => rfl
  | .exitBlock, w, h => by
    have hok : (Step.exitBlock.run w).1 = .ok () := h _ (List.mem_singleton_self _)
    obtain ⟨depth, hdepth, hexit⟩ := Writer.exitBlock_of_ok (Outcome.ofWriter_eq_ok hok)
    exact (Writer.Performs.closing w hdepth).ended (by rw [Step.run, hexit, Outcome.ofWriter_ok]) fun _ => rfl
  | .reopenBlock header, w, h => by
    have hok : ((Step.reopenBlock header).run w).1 = .ok () := h _ (List.mem_singleton_self _)
    obtain ⟨depth, hdepth, hreopen⟩ := Writer.reopenBlock_of_ok (Outcome.ofWriter_eq_ok hok)
    exact (Writer.Performs.push w (Line.render_reopening ..) hdepth hdepth).ended
      (by rw [Step.run, hreopen, Outcome.ofWriter_ok]) fun _ => rfl
  | .block header body, w, h => by
    obtain ⟨hlog, hok⟩ := List.forall_mem_append.mp h
    obtain ⟨inner, hinner, hbody⟩ := performs_runScript body (w.enterBlock header) hlog
    exact hbody.block (by rw [Step.run, hinner]) (hok _ (List.mem_singleton_self _)) fun _ => rfl
  | .loop counter bound body, w, h => by
    obtain ⟨hlog, hok⟩ := List.forall_mem_append.mp h
    obtain ⟨inner, hinner, hbody⟩ := performs_runScript body (w.enterBlock (loopHeader counter bound)) hlog
    exact hbody.block (by rw [Step.run, hinner]) (hok _ (List.mem_singleton_self _)) fun _ => rfl
  | .finish, w, h =>
    have hok : (Step.finish.run w).1 = .ok () := h _ (List.mem_singleton_self _)
    (Writer.Performs.nil w).ended (Prod.ext hok rfl) fun _ => rfl
  | .abort, w, h =>
    have hok : (Step.abort.run w).1 = .ok () := h _ (List.mem_singleton_self _)
    nomatch hok
  | .attempt step, w, h => by
    obtain ⟨next, hrun, hnext⟩ := step.performs w h
    exact ⟨next, by rw [Step.run, hrun], hnext⟩

theorem performs_runScript : ∀ (script : Script) (w : Writer),
    (∀ entry ∈ logScript script w, entry.result = .ok ()) →
    ∃ next, runScript script w = (.ok (), next) ∧
      w.Performs (scriptEvents w.comments script) (logScript script w) next
  | [], w, _ => ⟨w, rfl, .nil w⟩
  | step :: rest, w, h => by
    rw [logScript] at h
    obtain ⟨hstep, hrest⟩ := List.forall_mem_append.mp h
    obtain ⟨mid, hrun, hmid⟩ := step.performs w hstep
    rw [hrun] at hrest
    obtain ⟨next, hrunRest, hnext⟩ := performs_runScript rest mid hrest
    refine ⟨next, ?_, ?_⟩
    · rw [runScript, hrun]
      exact hrunRest
    · rw [scriptEvents, logScript, hrun, ← hmid.comments_eq]
      exact hmid.append hnext

end

def Event.Unbroken : Event → Prop
  | line mark => OneLine mark.content
  | ended _ => True

theorem Mark.unbroken_opening {header : String} (h : OneLine header) :
    (Event.line (.opening header)).Unbroken := by
  rw [Event.Unbroken, Mark.opening]
  dsimp only
  split
  · exact .literal (by decide)
  · exact .append h (.literal (by decide))

theorem Event.unbroken_mark (mark : Mark) (step : Step) (h : OneLine mark.content) :
    ∀ event ∈ [Event.line mark, .ended step], event.Unbroken :=
  List.forall_mem_cons.mpr ⟨h, List.forall_mem_singleton.mpr trivial⟩

theorem Event.unbroken_lines {texts : List String} (h : ∀ text ∈ texts, OneLine text) (step : Step) :
    ∀ event ∈ texts.map (fun text => Event.line (.text text)) ++ [.ended step], event.Unbroken :=
  List.forall_mem_append.mpr ⟨List.forall_mem_map.mpr h, List.forall_mem_singleton.mpr trivial⟩

theorem Event.unbroken_block {header : String} {events : List Event} {step : Step} (h : OneLine header)
    (hbody : ∀ event ∈ events, event.Unbroken) :
    ∀ event ∈ Event.line (.opening header) :: events ++ [Event.line .closing, .ended step], event.Unbroken := by
  have hclosing : (Event.line .closing).Unbroken := .literal (by decide)
  simp only [List.forall_mem_append, List.forall_mem_cons, List.not_mem_nil, false_implies, implies_true, and_true]
  exact ⟨⟨Mark.unbroken_opening h, hbody⟩, hclosing, trivial⟩

mutual

theorem Step.unbroken_events : ∀ (step : Step) (comments : Bool), (∀ text ∈ step.texts, OneLine text) →
    ∀ event ∈ step.events comments, event.Unbroken
  | .line text, _, h => Event.unbroken_lines h _
  | .lines texts, _, h => Event.unbroken_lines h _
  | .blank, _, _ => Event.unbroken_mark (.text "") .blank (.literal (by decide))
  | .comment text, comments, h => by
    have hline : OneLine ("// " ++ text) := .append (.literal (by decide)) (h text (List.mem_singleton_self text))
    cases comments with
    | true => exact Event.unbroken_mark (.text _) _ hline
    | false => exact Event.unbroken_lines (List.forall_mem_nil _) _
  | .blockComment texts, comments, h => by
    have hlines : ∀ text ∈ "/**" :: texts.map Writer.commentLine ++ [" */"], OneLine text := by
      rw [List.forall_mem_append, List.forall_mem_cons, List.forall_mem_map, List.forall_mem_singleton]
      exact ⟨⟨.literal (by decide), fun text htext => oneLine_commentLine (h text htext)⟩, .literal (by decide)⟩
    cases comments with
    | true => exact Event.unbroken_lines hlines _
    | false => exact Event.unbroken_lines (List.forall_mem_nil _) _
  | .enterBlock header, _, h =>
    Event.unbroken_mark (.opening header) _ (Mark.unbroken_opening (h header (List.mem_singleton_self header)))
  | .reopenBlock header, _, h => by
    have hheader : OneLine ("\x7d " ++ header ++ " \x7b") :=
      .append (.append (.literal (by decide)) (h header (List.mem_singleton_self header))) (.literal (by decide))
    exact Event.unbroken_mark (.reopening header) _ hheader
  | .exitBlock, _, _ => by
    have hclosing : OneLine "\x7d" := .literal (by decide)
    exact Event.unbroken_mark .closing _ hclosing
  | .block header body, comments, h => by
    obtain ⟨hheader, hbody⟩ := List.forall_mem_cons.mp h
    exact Event.unbroken_block hheader (unbroken_scriptEvents body comments hbody)
  | .loop counter bound body, comments, h => by
    obtain ⟨hcounter, hrest⟩ := List.forall_mem_cons.mp h
    obtain ⟨hbound, hbody⟩ := List.forall_mem_cons.mp hrest
    exact Event.unbroken_block (code_loopHeader hcounter hbound).oneLine (unbroken_scriptEvents body comments hbody)
  | .setComments _, _, _ | .finish, _, _ | .abort, _, _ => List.forall_mem_singleton.mpr trivial
  | .attempt step, comments, h => step.unbroken_events comments h

theorem unbroken_scriptEvents : ∀ (script : Script) (comments : Bool), (∀ text ∈ scriptTexts script, OneLine text) →
    ∀ event ∈ scriptEvents comments script, event.Unbroken
  | [], _, _ => List.forall_mem_nil _
  | step :: rest, comments, h => by
    obtain ⟨hstep, hrest⟩ := List.forall_mem_append.mp h
    exact List.forall_mem_append.mpr
      ⟨step.unbroken_events comments hstep, unbroken_scriptEvents rest _ hrest⟩

end

theorem Mark.oneLine_render {indent : String} (hindent : OneLine indent) {mark : Mark}
    (h : OneLine mark.content) (level : Nat) : OneLine (mark.render indent level) := by
  rw [Mark.render]
  split
  · exact .literal (by decide)
  · exact .append (hindent.indentation level) h

theorem Writer.linesOf_text {w : Writer} (h : ∀ text ∈ w.rendered, OneLine text) :
    linesOf w.text.toList = w.rendered.map String.toList := by
  rw [text_eq, toList_printed, linesOf_flatMap]
  · rw [rendered, List.map_map]
    rfl
  · exact List.forall_mem_map.mpr fun line hline => h _ (List.mem_map_of_mem hline)

/-- If nothing fails in a run and no text it is given has a newline, then each line of the text is empty or is its
content behind as many copies of the indentation as blocks were opened and not closed before it, itself among those
closed if it closes one. As many blocks are open behind each step, inner ones too, as were opened before its end and
not closed, and the text can be finished if as many were closed as were opened. -/
theorem lines_stand_in_their_blocks {script : Script} {indent : String} (hindent : OneLine indent)
    (htexts : ∀ text ∈ scriptTexts script, OneLine text)
    (succeeds : ∀ entry ∈ logScript script (.withIndent indent), entry.result = .ok ()) :
    ∃ w, runScript script (.withIndent indent) = (.ok (), w) ∧
      (linesOf w.text.toList).length = (scriptEvents true script).countP Event.isLine ∧
      (∀ front mark back, scriptEvents true script = front ++ .line mark :: back →
        ∃ level, Event.opened front = Event.closed front + mark.closers + level ∧
          (linesOf w.text.toList)[front.countP Event.isLine]? =
            some (if mark.content = "" then []
              else (String.join (List.replicate level indent) ++ mark.content).toList)) ∧
      (logScript script (.withIndent indent)).length = (scriptEvents true script).countP Event.isEnded ∧
      (∀ front step back, scriptEvents true script = front ++ .ended step :: back →
        ∃ entry, (logScript script (.withIndent indent))[front.countP Event.isEnded]? = some entry ∧
          entry.step = step ∧ Event.opened front = Event.closed front + entry.depth) ∧
      ((∃ text, w.finish = .ok text) ↔
        Event.opened (scriptEvents true script) = Event.closed (scriptEvents true script)) := by
  obtain ⟨w, hrun, hperforms⟩ := performs_runScript script (.withIndent indent) succeeds
  obtain ⟨texts, hrendered, htraces⟩ := hperforms.exists_texts
  replace htraces : Traces indent 0 (scriptEvents true script) texts (logScript script (.withIndent indent)) w.depth :=
    htraces
  have hlines : linesOf w.text.toList = texts.map String.toList := by
    rw [← List.nil_append texts, ← show (Writer.withIndent indent).rendered = [] from rfl, ← hrendered]
    refine Writer.linesOf_text fun text htext => ?_
    rw [hrendered] at htext
    obtain ⟨mark, level, hmark, rfl⟩ := htraces.exists_mark htext
    exact mark.oneLine_render hindent (unbroken_scriptEvents script true htexts _ hmark) level
  refine ⟨w, hrun, ?_, fun front mark back hsplit => ?_, htraces.length_log, fun front step back hsplit => ?_, ?_⟩
  · rw [hlines, List.length_map]
    exact htraces.length_texts
  · obtain ⟨level, hlevel, hline⟩ := (hsplit ▸ htraces).exists_level
    refine ⟨level, by omega, ?_⟩
    rw [hlines, List.getElem?_map, hline, Mark.render]
    split <;> simp
  · obtain ⟨entry, hentry, hstep, hdepth⟩ := (hsplit ▸ htraces).exists_entry
    exact ⟨entry, hentry, hstep, by omega⟩
  · have hcount := htraces.depth_eq
    rw [Writer.finish]
    by_cases hopen : 0 < w.depth
    · rw [if_pos hopen]
      refine ⟨?_, fun heq => by omega⟩
      rintro ⟨_, hfinish⟩
      cases hfinish
    · rw [if_neg hopen]
      exact ⟨fun _ => by omega, fun _ => ⟨_, rfl⟩⟩

def wanderingScript : Script :=
  [.enterBlock "a", .setComments false, .comment "hidden",
    .block "b" [.exitBlock, .exitBlock, .line "x", .enterBlock "", .enterBlock "c", .attempt (.line "")],
    .reopenBlock "d", .loop "i" "n" [.lines ["y", "z"]], .exitBlock, .finish]

theorem lines_stand_in_their_blocks_wandering :
    OneLine "\t" ∧ (∀ text ∈ scriptTexts wanderingScript, OneLine text) ∧
    (∀ entry ∈ logScript wanderingScript (.withIndent "\t"), entry.result = .ok ()) ∧
    ∃ w, runScript wanderingScript (.withIndent "\t") = (.ok (), w) ∧
      (linesOf w.text.toList)[4]? = some "x".toList ∧ (linesOf w.text.toList)[12]? = some "\t\tz".toList ∧
      ∃ text, w.finish = .ok text := by
  have hindent : OneLine "\t" := .literal (by decide)
  have htexts : ∀ text ∈ scriptTexts wanderingScript, OneLine text := by
    simp [wanderingScript, scriptTexts, Step.texts, OneLine]
  have succeeds : ∀ entry ∈ logScript wanderingScript (.withIndent "\t"), entry.result = .ok () := by
    decide
  obtain ⟨w, hrun, -, hlines, -, -, hfinish⟩ := lines_stand_in_their_blocks hindent htexts succeeds
  let events := scriptEvents true wanderingScript
  obtain ⟨level, hlevel, hx⟩ := hlines (events.take 9) (.text "x") (events.drop 10) rfl
  obtain rfl : level = 0 := (Nat.add_left_cancel (n := 2) hlevel).symm
  obtain ⟨level, hlevel, hz⟩ := hlines (events.take 23) (.text "z") (events.drop 24) rfl
  obtain rfl : level = 2 := (Nat.add_left_cancel (n := 4) hlevel).symm
  exact ⟨hindent, htexts, succeeds, w, hrun, hx, hz, hfinish.mpr rfl⟩

end GridRoute.Source
