import GridRoute.Proofs.Program.Wording

/-!
Comments as decoration. The lines of a printed class that look like comments are the comments: without them it is the
class as it is printed without comments, down to the blank lines and the indentation.
-/

namespace GridRoute

namespace Source

def withoutRemarks (text : String) : String :=
  String.ofList (((linesOf text.toList).filter fun line => ¬ Remark line).flatMap fun line => line ++ ['\n'])

theorem Strips.withoutRemarks_printed {indent : String} {written kept : List Line}
    (h : Strips indent written kept) : withoutRemarks (printed indent written) = printed indent kept := by
  rw [withoutRemarks, h.filter_linesOf_printed, ← toList_printed, String.ofList_toList]

end Source

open GridRoute.Source

namespace Pathfinder

theorem classText_without_comments (p : Pathfinder) {target : ClassTarget} (valid : target.Valid) :
    p.classText { target with comments := false } = withoutRemarks (p.classText target) :=
  (strips_layoutScript indents_blanks target.comments _ 0
    (p.tidy_nestedScript valid)).withoutRemarks_printed.symm

/-- Whatever the program and the names, the class is printed with comments if it is printed without them, and they
differ by the lines that look like comments, and by nothing else. -/
theorem comments_decorate (p : Pathfinder) (package className : Option String) :
    p.render ⟨package, className, false⟩ = (p.render ⟨package, className, true⟩).map withoutRemarks := by
  have hsame : ClassTarget.checkNames ⟨package, className, false⟩ p.radius =
      ClassTarget.checkNames ⟨package, className, true⟩ p.radius := rfl
  rw [render_eq_map, render_eq_map, hsame]
  cases hnames : ClassTarget.checkNames ⟨package, className, true⟩ p.radius with
  | error error => rfl
  | ok =>
    have valid := (ClassTarget.checkNames_eq_ok_iff _).mp hnames
    exact congrArg Except.ok (p.classText_without_comments valid)

end Pathfinder

end GridRoute
