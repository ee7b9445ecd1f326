import GridRoute.Proofs.Move
import GridRoute.Proofs.Program.ClassReader
import GridRoute.Proofs.Program.Simulation
import GridRoute.Proofs.Program.Target

/-!
The printed program and the search agree. Both lay out the same schedule, the one as statements over arrays
of numbers with 32 bits and the other as a fold over estimates, and they choose the same move wherever the
map lies and whatever target they are given. What a reader takes from the printed text runs alike.
-/

namespace GridRoute

open Sequencing GridRoute.Source GridRoute.Program

namespace Robot

def detour : Robot where
  location := ⟨5, 5⟩
  onTheMap _ := true
  occupied q := !Terrain.detour.traversable q
  rubble q := if q = ⟨4, 6⟩ then 30 else 0

theorem detour_regular : detour.terrain.Regular .nine where
  inRange := (Terrain.detour_regular .nine).inRange
  rubble_bounds := by
    intro o _ _
    change -10 ≤ (if _ then (30 : Int32) else 0).toInt ∧ (if _ then (30 : Int32) else 0).toInt ≤ 999999990
    split <;> decide

end Robot

namespace Pathfinder.Serves

open Position

variable {p : Pathfinder} {radius : Radius} {goal : Position} {cell : Nat}

section Program

variable {s : Scope} {lookup : Lookup} {m : Memory}

theorem exists_run_searchBody (h : p.Serves radius) (regular : s.robot.terrain.Regular radius)
    (apart : Apart s.robot.location goal) (htarget : m.place .target = some goal)
    (hcells : s.cells = p.window.size) {extraRounds : Int32}
    (hscope : s.extraRounds = some extraRounds) {rounds : Nat} (hrounds : extraRounds.toInt = rounds)
    {o : Offset}
    (ho : s.robot.location.offsetTo (clamped s.robot.location goal radius.value p.clampSteps) = o)
    (hcell : p.window.offset? cell = some o)
    (hlookup : ∀ (best : Array (Option Direction)) (d : Direction), best[cell]? = some (some d) →
      lookup (Int32.ofInt o.x) (Int32.ofInt o.y) best = .ok (some d)) :
    ∃ m', runBody s lookup p.searchBody m = .ok (.answered (some
      ((p.after s.robot.terrain rounds).record cell).best.opposite), m') := by
  have htarget₀ : (m.assign .origin s.robot.location).place .target = some goal := htarget
  have hguard : (Statement.when (.same (.var .origin) (.var .target))
        [.answer (.fixed .center)]).run s lookup (m.assign .origin s.robot.location) =
      .ok (.next, m.assign .origin s.robot.location) := by
    rw [run_when (eval_same rfl htarget₀), if_neg (by simpa using apart.ne)]
  have hfirst : Runs s lookup
      [.declare .origin .agent, .when (.same (.var .origin) (.var .target)) [.answer (.fixed .center)],
        .gap] m (m.assign .origin s.robot.location) :=
    .cons (run_declare rfl) (.cons hguard (.cons run_gap .nil))
  obtain ⟨m₁, hclamp, horigin, htarget₁⟩ := exists_runs_clamp s lookup
    (m := m.assign .origin s.robot.location) rfl htarget₀ apart radius p.clampSteps
  obtain ⟨m₂, hphases, htracks⟩ := exists_runs_phases lookup h regular horigin hcells hscope hrounds
    "Resolve every position before any of them is invalidated."
    "Sense every cell; cells off the map or occupied drop out."
    "Initial pass: seed the ring around the origin, then relax outwards."
    "Further rounds refine routes around obstacles."
    "The best direction points back into the origin, so move the other way."
  have hbest : m₂.best[cell]? = some (some ((p.after s.robot.terrain rounds).record cell).best) := by
    rw [htracks.shows.best_eq]
    exact Estimates.getElem?_column (htracks.cell_lt hcell)
  have hanswer : runBody s lookup [.answerFromTable] m₂ = .ok (.answered (some
      ((p.after s.robot.terrain rounds).record cell).best.opposite), m₂) :=
    runBody_cons_of_answered (run_answerFromTable (htracks.place_eq ▸ horigin)
      (htracks.place_eq ▸ htarget₁) (ho ▸ hlookup _ _ hbest))
  refine ⟨m₂, Eq.trans ?_ ((hfirst.append (hclamp.append hphases)).runBody_append.trans hanswer)⟩
  rw [searchBody, h.radius_eq]
  simp only [List.append_assoc, List.cons_append, List.nil_append]

end Program

theorem callSearch_eq_ok (h : p.Serves radius) {robot : Robot}
    (regular : robot.terrain.Regular radius) (apart : Apart robot.location goal)
    {extraRounds : Int32} {rounds : Nat} (hrounds : extraRounds.toInt = rounds)
    (hcell : p.window.offset? cell =
      some (robot.location.offsetTo (clamped robot.location goal radius.value p.clampSteps))) :
    p.callSearch robot goal extraRounds =
      .ok (some ((p.after robot.terrain rounds).record cell).best.opposite) := by
  obtain ⟨m', hrun⟩ := h.exists_run_searchBody
    (s := ⟨robot, p.window.size, some extraRounds, fun _ => none⟩)
    (m := Memory.empty.assign .target goal) regular apart rfl rfl rfl hrounds rfl hcell
    fun best d hbest => h.callTable_eq_ok robot hcell hbest
  rw [callSearch, answerOf, hrun]
  rfl

end Pathfinder.Serves

namespace Pathfinder

open Position

variable (p : Pathfinder)

theorem callSearch_self (robot : Robot) (extraRounds : Int32) :
    p.callSearch robot robot.location extraRounds = .ok (some .center) := by
  rw [callSearch, searchBody]
  simp only [List.append_assoc, List.cons_append]
  rw [runBody_cons_of_run (run_declare rfl), runBody_cons_of_answered]
  · rfl
  · rw [run_when (eval_same rfl rfl), if_pos (decide_eq_true rfl)]
    exact runBody_cons_of_answered (by rw [Statement.run]; rfl)

/-- The class is printed for every target with valid names. A reader with a spelling of its own gets the two
methods of the program back from the text, and running them, as they were laid out or as they are read, gives the
move that the search chooses, for every map, target and number of rounds. -/
theorem printed_search_agrees (radius : Radius) (target : ClassTarget) (valid : target.Valid) :
    ∃ p text, compile radius.value = .ok p ∧ p.render target = .ok text ∧
      readClass text = some (p.classCode target) ∧
      ∀ (robot : Robot) (goal : Position) (rounds : Nat), robot.terrain.Regular radius →
        robot.location.InReach goal → rounds < 2147483648 →
        ∃ d, p.moveTowards robot.terrain goal rounds = .ok d ∧
          p.callSearch robot goal (Int32.ofInt rounds) = .ok (some d) ∧
          (p.classCode target).callSearch robot goal (Int32.ofInt rounds) = .ok (some d) := by
  obtain ⟨p, hcompile, h⟩ := exists_compile_eq_ok radius
  refine ⟨p, p.classText target, hcompile, p.render_eq_ok valid, p.readClass_classText valid,
    fun robot goal rounds regular inReach hlt => ?_⟩
  rw [p.callSearch_classCode target]
  -- On the target there is nothing to look up: both answer before they look at a cell.
  by_cases hhere : robot.location = goal
  · subst hhere
    exact ⟨.center, p.moveTowards_self robot.terrain rounds, p.callSearch_self robot _, p.callSearch_self robot _⟩
  · have apart := inReach.apart regular.inRange.agent_fits hhere
    obtain ⟨cell, hcell⟩ := h.exists_cell_iff.mpr (sees_clamped radius hhere p.clampSteps)
    have hrounds : (Int32.ofInt rounds).toInt = rounds := by
      refine toInt_ofInt ?_
      rw [Bounded.fits_iff]
      omega
    have hsearch := h.callSearch_eq_ok regular apart hrounds hcell
    exact ⟨_, h.moveTowards_eq_ok regular.inRange apart rounds hcell, hsearch, hsearch⟩

theorem printed_search_agrees_detour :
    ClassTarget.default.Valid ∧ Robot.detour.terrain.Regular .nine ∧
    Robot.detour.location.InReach ⟨5, 90⟩ ∧
    ∃ p text, compile 9 = .ok p ∧ p.render ClassTarget.default = .ok text ∧
      readClass text = some (p.classCode ClassTarget.default) ∧
      ∃ d, p.moveTowards Robot.detour.terrain ⟨5, 90⟩ 1 = .ok d ∧
        p.callSearch Robot.detour ⟨5, 90⟩ 1 = .ok (some d) ∧
        (p.classCode ClassTarget.default).callSearch Robot.detour ⟨5, 90⟩ 1 = .ok (some d) := by
  have valid : ClassTarget.default.Valid := ⟨by simp [ClassTarget.default], by simp [ClassTarget.default]⟩
  have inReach : Robot.detour.location.InReach ⟨5, 90⟩ := ⟨by decide, by decide, by decide⟩
  obtain ⟨p, text, hcompile, hrender, hread, hagrees⟩ := printed_search_agrees .nine ClassTarget.default valid
  exact ⟨valid, Robot.detour_regular, inReach, p, text, hcompile, hrender, hread,
    hagrees Robot.detour ⟨5, 90⟩ 1 Robot.detour_regular inReach (by decide)⟩

end Pathfinder

end GridRoute
