import GridRoute.Proofs.Indentation

/-!
Balance of a printed text. A script that nests well writes a closing brace for every one that it opens. If no text it
is given leaves a brace open, or closes one that it did not open, then the same holds of all that is printed.
-/

namespace GridRoute.Source

/-- How many braces are open behind one more sign; one that is not open cannot be closed. -/
def openBehind (level : Nat) (c : Char) : Option Nat :=
  if c = '\x7b' then some (level + 1)
  else if c = '\x7d' then if level = 0 then none else some (level - 1)
  else some level

/-- Between so many open braces and so many, the text closes none that is not open. -/
def Leads (level next : Nat) (text : String) : Prop := text.toList.foldlM openBehind level = some next

abbrev Even (text : String) : Prop := Leads 0 0 text

structure Balanced (text : String) : Prop where
  count_eq : text.toList.count '\x7b' = text.toList.count '\x7d'
  count_le : ∀ front, front <+: text.toList → front.count '\x7d' ≤ front.count '\x7b'

theorem openBehind_add {level next : Nat} {c : Char} (h : openBehind level c = some next) (outer : Nat) :
    openBehind (level + outer) c = some (next + outer) := by
  unfold openBehind at h ⊢
  split_ifs at h ⊢
  all_goals simp_all
  all_goals omega

theorem count_of_openBehind {level next : Nat} {c : Char} (h : openBehind level c = some next) :
    level + [c].count '\x7b' = next + [c].count '\x7d' := by
  unfold openBehind at h
  split_ifs at h <;> simp_all
  omega

theorem foldlM_openBehind_add {cs : List Char} {level next : Nat}
    (h : cs.foldlM openBehind level = some next) (outer : Nat) :
    cs.foldlM openBehind (level + outer) = some (next + outer) := by
  induction cs generalizing level with
  | nil =>
    obtain rfl : level = next := Option.some.inj h
    rfl
  | cons c cs ih =>
    obtain ⟨mid, hmid, hrest⟩ := Option.bind_eq_some_iff.mp (by rwa [List.foldlM_cons] at h)
    rw [List.foldlM_cons, openBehind_add hmid outer]
    exact ih hrest

theorem count_of_foldlM {cs : List Char} {level next : Nat} (h : cs.foldlM openBehind level = some next) :
    level + cs.count '\x7b' = next + cs.count '\x7d' := by
  induction cs generalizing level with
  | nil =>
    obtain rfl : level = next := Option.some.inj h
    rfl
  | cons c cs ih =>
    obtain ⟨mid, hmid, hrest⟩ := Option.bind_eq_some_iff.mp (by rwa [List.foldlM_cons] at h)
    have hfirst := count_of_openBehind hmid
    have hbehind := ih hrest
    rw [← List.singleton_append, List.count_append, List.count_append]
    omega

namespace Leads

variable {level mid next : Nat} {text more : String}

theorem append (h : Leads level mid text) (hmore : Leads mid next more) : Leads level next (text ++ more) := by
  rw [Leads, String.toList_append, List.foldlM_append, h]
  exact hmore

theorem balanced (h : Even text) : Balanced text where
  count_eq := by
    have := count_of_foldlM h
    omega
  count_le front hfront := by
    obtain ⟨rest, hrest⟩ := hfront
    obtain ⟨mid, hmid, -⟩ : ∃ mid, front.foldlM openBehind 0 = some mid ∧ rest.foldlM openBehind mid = some 0 := by
      rw [← Option.bind_eq_some_iff]
      rwa [Even, Leads, ← hrest, List.foldlM_append] at h
    have := count_of_foldlM hmid
    omega

end Leads

namespace Even

variable {text more : String}

theorem leads (h : Even text) (level : Nat) : Leads level level text := by
  have hlevel := foldlM_openBehind_add h level
  rwa [Nat.zero_add] at hlevel

theorem literal {cs : List Char} (h : cs.foldlM openBehind 0 = some 0) : Even (String.ofList cs) := by
  rwa [Even, Leads, String.toList_ofList]

theorem append (h : Even text) (hmore : Even more) : Even (text ++ more) := Leads.append h hmore

theorem of_notMem (hopening : '\x7b' ∉ text.toList) (hclosing : '\x7d' ∉ text.toList) : Even text := by
  rw [Even, Leads]
  generalize text.toList = cs at hopening hclosing ⊢
  induction cs with
  | nil => rfl
  | cons c cs ih =>
    rw [List.mem_cons, not_or] at hopening hclosing
    rw [List.foldlM_cons, openBehind, if_neg (Ne.symm hopening.1), if_neg (Ne.symm hclosing.1)]
    exact ih hopening.2 hclosing.2

theorem join_replicate (h : Even text) (n : Nat) : Even (String.join (List.replicate n text)) := by
  induction n with
  | zero =>
    have hempty : Even "" := .literal rfl
    simpa using hempty
  | succ n ih =>
    rw [List.replicate_succ, String.join_cons]
    exact h.append ih

theorem loopHeader {counter bound : String} (hcounter : Even counter) (hbound : Even bound) :
    Even (loopHeader counter bound) := by
  have hcount : Even ("for (int " ++ counter ++ " = 0; " ++ counter ++ " < ") :=
    .append (.append (.append (.append (.literal rfl) hcounter) (.literal rfl)) hcounter) (.literal rfl)
  exact .append (.append (.append (.append hcount hbound) (.literal rfl)) hcounter) (.literal rfl)

theorem commentLine (h : Even text) : Even (Writer.commentLine text) := by
  unfold Writer.commentLine
  split
  · exact .literal rfl
  · exact .append (.literal rfl) h

end Even

theorem Smooth.even {text : String} (h : Smooth text) : Even text := .of_notMem h.notMem_opening h.notMem_closing

section Lines

variable {indent : String} {level mid next : Nat} {lines more : List Line}

theorem leads_printed_nil : Leads level level (printed indent []) := Even.leads (.literal rfl) level

theorem leads_printed_append (h : Leads level mid (printed indent lines))
    (hmore : Leads mid next (printed indent more)) : Leads level next (printed indent (lines ++ more)) := by
  rw [printed_append]
  exact h.append hmore

theorem leads_closing (level : Nat) : Leads (level + 1) level "\x7d" := by
  simp [Leads, openBehind]

theorem leads_content_opening {header : String} (h : Even header) (level at_ : Nat) :
    Leads level (level + 1) (Line.opening at_ header).content := by
  have hbrace : Leads level (level + 1) "\x7b" := rfl
  have hspaced : Leads level (level + 1) " \x7b" := rfl
  rw [Line.content]
  split
  · exact hbrace
  · exact (h.leads level).append hspaced

variable (hindent : Even indent)

include hindent

theorem leads_printed_single {line : Line} (h : Leads level next line.content) :
    Leads level next (printed indent [line]) := by
  have hrender := ((hindent.join_replicate line.level).leads level).append h
  have hnewline : Leads next next "\n" := Even.leads (.literal rfl) next
  have htext : printed indent [line] = line.render indent ++ "\n" := by
    simp [printed]
  rw [htext]
  exact hrender.append hnewline

theorem leads_printed_texts {texts : List String} (h : ∀ text ∈ texts, Even text) (level at_ : Nat) :
    Leads level level (printed indent (texts.map (.ofText at_))) := by
  induction texts with
  | nil => exact leads_printed_nil
  | cons text texts ih =>
    obtain ⟨htext, hrest⟩ := List.forall_mem_cons.mp h
    have hcontent : Leads level level (Line.ofText at_ text).content := by
      rw [Line.content_ofText]
      exact htext.leads level
    rw [List.map_cons, ← List.singleton_append]
    exact leads_printed_append (leads_printed_single hindent hcontent) (ih hrest)

theorem leads_printed_block {header : String} (hheader : Even header)
    (h : Leads (level + 1) (level + 1) (printed indent lines)) (at_ : Nat) :
    Leads level level (printed indent (.opening at_ header :: lines ++ [.closing at_])) := by
  have hopening := leads_printed_single hindent (leads_content_opening hheader level at_)
  have hclosing : Leads (level + 1) level (printed indent [.closing at_]) :=
    leads_printed_single hindent (leads_closing level)
  have hopened := leads_printed_append hopening h
  exact leads_printed_append hopened hclosing

end Lines

mutual

theorem Step.leads_layout {indent : String} (hindent : Even indent) (comments : Bool) :
    ∀ (step : Step) (level : Nat), step.Nests level → (∀ text ∈ step.texts, Even text) →
      Leads level level (printed indent (step.layout comments level))
  | .line text, level, _, h => leads_printed_texts hindent h level level
  | .lines texts, level, _, h => leads_printed_texts hindent h level level
  | .blank, level, _, _ => leads_printed_single hindent (Even.leads (.literal rfl) level)
  | .comment text, level, _, h => by
    rw [Step.layout]
    split
    · have htext : Even text := h text (List.mem_singleton_self text)
      have hcomment : ∀ comment ∈ ["// " ++ text], Even comment := by
        rw [List.forall_mem_singleton]
        exact .append (.literal rfl) htext
      exact leads_printed_texts hindent hcomment level level
    · exact leads_printed_nil
  | .blockComment texts, level, _, h => by
    rw [Step.layout]
    split
    · refine leads_printed_texts hindent (fun comment hcomment => ?_) level level
      simp only [List.cons_append, List.mem_cons, List.mem_append, List.mem_map, List.mem_nil_iff,
        or_false] at hcomment
      rcases hcomment with rfl | ⟨text, hmem, rfl⟩ | rfl
      · exact .literal rfl
      · exact (h text hmem).commentLine
      · exact .literal rfl
    · exact leads_printed_nil
  | .reopenBlock header, level, hlevel, h => by
    obtain ⟨outer, rfl⟩ := Nat.exists_eq_succ_of_ne_zero (Nat.ne_of_gt (show 0 < level from hlevel))
    have hheader : Even header := h header (List.mem_singleton_self header)
    have hclosing : Leads (outer + 1) outer "\x7d " := by
      simp [Leads, openBehind]
    have hopening : Leads outer (outer + 1) " \x7b" := rfl
    exact leads_printed_single hindent ((hclosing.append (hheader.leads outer)).append hopening)
  | .block header body, level, hnests, h => by
    obtain ⟨hheader, hbody⟩ := List.forall_mem_cons.mp h
    exact leads_printed_block hindent hheader
      (leads_layoutScript hindent comments body (level + 1) hnests hbody) level
  | .loop counter bound body, level, hnests, h => by
    obtain ⟨hcounter, h⟩ := List.forall_mem_cons.mp h
    obtain ⟨hbound, hbody⟩ := List.forall_mem_cons.mp h
    exact leads_printed_block hindent (hcounter.loopHeader hbound)
      (leads_layoutScript hindent comments body (level + 1) hnests hbody) level

theorem leads_layoutScript {indent : String} (hindent : Even indent) (comments : Bool) :
    ∀ (script : Script) (level : Nat), NestsScript level script → (∀ text ∈ scriptTexts script, Even text) →
      Leads level level (printed indent (layoutScript comments level script))
  | [], _, _, _ => leads_printed_nil
  | step :: rest, level, hnests, h => by
    obtain ⟨hstep, hrest⟩ := List.forall_mem_append.mp h
    exact leads_printed_append (step.leads_layout hindent comments level hnests.1 hstep)
      (leads_layoutScript hindent comments rest level hnests.2 hrest)

end

end GridRoute.Source
