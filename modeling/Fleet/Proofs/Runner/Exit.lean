/-
# The exits of a dispatch

A dispatch ends in one of seven exits. Each is told by the dispatch's own dialogue with the host,
with the task that was handed to the runner if one was, and each supposes that none of the earlier
ones was taken: a runner that is unknown or at home on the controller, a text that cannot be
rendered, an argument that is missing, a guard that cannot be asked or that holds. Only the last
exit gives the runner its turn, once, with every text rendered once.
-/

import Fleet.Host.Machine
import Fleet.Proofs.Dict
import Fleet.Proofs.Runner.Dispatch
import Fleet.Proofs.Text.Split

namespace Fleet

open Host
open Host.Action (After)

/-- A task with its texts rendered, each of them once: the arguments that are strings and not
internal, and the guard. -/
structure Task.RendersTo (vars : Vars) (t rendered : Task) : Prop where
  text : ∀ name s, isInternalArg name = false → t.args.get? name = some (.str s) →
    ∃ image, Template.render vars s = .ok image ∧ rendered.args.get? name = some (.str image)
  other : ∀ name, (isInternalArg name = true ∨ ∀ s, t.args.get? name ≠ some (.str s)) →
    rendered.args.get? name = t.args.get? name
  guard : (t.guard = none ∧ rendered.guard = none) ∨ ∃ guard image, t.guard = some guard ∧
    Template.render vars guard = .ok image ∧ rendered.guard = some image
  rest : rendered = { t with args := rendered.args, guard := rendered.guard }

/-- Some text of a task cannot be rendered. -/
def Task.IsUnrenderable (vars : Vars) (t : Task) : Prop :=
  (∃ name s e, isInternalArg name = false ∧ t.args.get? name = some (.str s) ∧
    Template.render vars s = .error e) ∨
  ∃ guard e, t.guard = some guard ∧ Template.render vars guard = .error e

/-- A task does not give an argument that is required: there is none, or null, or blanks alone. -/
def RunnerSpec.IsUnmet (spec : RunnerSpec) (t : Task) : Prop :=
  ∃ arg ∈ spec.required, t.args.get? arg = none ∨ t.args.get? arg = some .null ∨
    ∃ s, t.args.get? arg = some (.str s) ∧ ∀ c ∈ s.toList, Text.isBlank c = true

theorem RunnerSpec.isGiven_eq_false_iff {value : Option Json} : isGiven value = false ↔
    value = none ∨ value = some .null ∨
      ∃ s, value = some (.str s) ∧ ∀ c ∈ s.toList, Text.isBlank c = true := by
  cases value with
  | none => simp [isGiven]
  | some value =>
      cases value with
      | str s => simp [isGiven, Text.trim_eq_nil_iff]
      | _ => simp [isGiven]

namespace Dispatcher

variable {d : Dispatcher} {r : Runner} {t rendered : Task} {vars inherited : Vars}
variable {log : List Exchange} {found : TaskResult} {done : Dispatched}

/-! ## Rendering and checking -/

theorem isUnmet_iff : r.spec.IsUnmet t ↔ ∃ e, fault? r t = some e := by
  have missing : r.spec.IsUnmet t ↔ ∃ arg, r.spec.firstMissing? t = some arg := by
    unfold RunnerSpec.IsUnmet RunnerSpec.firstMissing?
    simp only [← RunnerSpec.isGiven_eq_false_iff]
    rw [← Option.isSome_iff_exists, List.find?_isSome]
    simp
  rw [missing]
  unfold fault? RunnerSpec.check
  cases r.spec.firstMissing? t <;> simp

theorem renderArg_internal {name : String} {value : Json} (internal : isInternalArg name = true) :
    renderArg vars name value = .ok value := if_pos internal

theorem renderArg_text {name s : String} (shown : isInternalArg name = false) :
    renderArg vars name (.str s) = match Template.render vars s with
      | .ok image => .ok (.str image)
      | .error e => .error (.invalidArgument name e.message) := by
  unfold renderArg Template.renderValue
  rw [if_neg (by rw [shown]; nofun)]
  cases rendering : Template.render vars s <;> simp [rendering, Except.map]

theorem renderArg_other {name : String} {value : Json} (other : ∀ s, value ≠ .str s) :
    renderArg vars name value = .ok value := by
  unfold renderArg
  cases value with
  | str s => exact absurd rfl (other s)
  | _ => exact ite_self _

section Arguments

variable {args : Args} {name s : String}

theorem text_of_updateValues (fine : (args.updateValues (renderArg vars)).2 = none)
    (shown : isInternalArg name = false) (bound : args.get? name = some (.str s)) :
    ∃ image, Template.render vars s = .ok image ∧
      (args.updateValues (renderArg vars)).1.get? name = some (.str image) := by
  obtain ⟨w, rendered⟩ : ∃ w, renderArg vars name (.str s) = .ok w :=
    Dict.exists_ok_of_updateEntries fine (name, .str s) (Dict.get?_eq_some_iff.1 bound)
  rw [Dict.get?_updateValues fine, bound, Option.bind_some, rendered]
  rw [renderArg_text shown] at rendered
  cases rendering : Template.render vars s with
  | error e => simp [rendering] at rendered
  | ok image =>
      simp only [rendering, Except.ok.injEq] at rendered
      exact ⟨image, rfl, congrArg some rendered.symm⟩

theorem other_of_updateValues (fine : (args.updateValues (renderArg vars)).2 = none)
    (other : isInternalArg name = true ∨ ∀ s, args.get? name ≠ some (.str s)) :
    (args.updateValues (renderArg vars)).1.get? name = args.get? name := by
  rw [Dict.get?_updateValues fine]
  cases bound : args.get? name with
  | none => rfl
  | some value =>
      have kept : renderArg vars name value = .ok value := by
        rcases other with internal | other
        · exact renderArg_internal internal
        · exact renderArg_other fun s text => other s (text ▸ bound)
      rw [Option.bind_some, kept]
      rfl

/-- The argument that is in the way is a text that cannot be rendered. -/
theorem exists_error_of_updateValues {e : RunnerError}
    (failed : (args.updateValues (renderArg vars)).2 = some e) :
    ∃ name s e, isInternalArg name = false ∧ args.get? name = some (.str s) ∧
      Template.render vars s = .error e := by
  obtain ⟨⟨name, value⟩, member, fault⟩ := Dict.exists_error_of_updateEntries failed
  have bound : args.get? name = some value := Dict.get?_eq_some_iff.2 member
  cases internal : isInternalArg name with
  | true => rw [renderArg_internal internal] at fault; cases fault
  | false =>
      cases value with
      | str s =>
          rw [renderArg_text internal] at fault
          cases image : Template.render vars s with
          | error e => exact ⟨name, s, e, internal, bound, image⟩
          | ok image => simp [image] at fault
      | _ =>
          rw [renderArg_other fun _ => Json.noConfusion] at fault
          cases fault

end Arguments

/-- A task whose texts can all be rendered is handed on with the images in their place. -/
theorem rendersTo_of_renderTask (same : renderTask vars t = (rendered, none)) :
    t.RendersTo vars rendered := by
  unfold renderTask at same
  dsimp only at same
  cases failure : (t.args.updateValues (renderArg vars)).2 with
  | some e => rw [failure] at same; cases same
  | none =>
      have text : ∀ name s, isInternalArg name = false → t.args.get? name = some (.str s) → _ :=
        fun _ _ => text_of_updateValues failure
      have other : ∀ name, _ → (t.args.updateValues (renderArg vars)).1.get? name = _ :=
        fun _ => other_of_updateValues failure
      rw [failure] at same
      cases guarded : t.guard with
      | none =>
          rw [guarded] at same
          cases same
          exact ⟨text, other, .inl ⟨guarded, rfl⟩, rfl⟩
      | some guard =>
          rw [guarded] at same
          cases image : Template.render vars guard with
          | error e => simp [image] at same
          | ok image' =>
              simp only [image, Prod.mk.injEq, and_true] at same
              subst same
              exact ⟨text, other, .inr ⟨guard, image', guarded, image, rfl⟩, rfl⟩

theorem isUnrenderable_of_renderTask {e : RunnerError}
    (same : renderTask vars t = (rendered, some e)) : t.IsUnrenderable vars := by
  unfold renderTask at same
  dsimp only at same
  cases failure : (t.args.updateValues (renderArg vars)).2 with
  | some e => exact .inl (exists_error_of_updateValues failure)
  | none =>
      rw [failure] at same
      cases guarded : t.guard with
      | none => rw [guarded] at same; cases same
      | some guard =>
          rw [guarded] at same
          cases image : Template.render vars guard with
          | error e => exact .inr ⟨guard, e, guarded, image⟩
          | ok image' => simp [image] at same

end Dispatcher

/-- A task reads in one way once it is rendered, as far as its arguments are shown. -/
theorem Task.RendersTo.args_eq {vars : Vars} {t u rendered rendered' : Task}
    (first : t.RendersTo vars rendered) (second : u.RendersTo vars rendered') {name : String}
    (shown : isInternalArg name = false) (same : t.args.get? name = u.args.get? name) :
    rendered.args.get? name = rendered'.args.get? name := by
  by_cases text : ∃ s, t.args.get? name = some (.str s)
  · obtain ⟨s, bound⟩ := text
    obtain ⟨image, rendering, reads⟩ := first.text name s shown bound
    obtain ⟨image', rendering', reads'⟩ := second.text name s shown (same ▸ bound)
    rw [reads, reads', Except.ok.inj (rendering.symm.trans rendering')]
  · have other := not_exists.1 text
    rw [first.other name (.inr other), second.other name (.inr (same ▸ other)), same]

namespace Dispatcher

variable {d : Dispatcher} {r : Runner} {t rendered : Task} {vars inherited : Vars}
variable {log : List Exchange} {found : TaskResult} {done : Dispatched}

/-! ## The exits -/

/-- A runner is known and at home on hosts. -/
structure IsCalled (d : Dispatcher) (t : Task) (r : Runner) : Prop where
  known : d.registry.get? t.runner = some r
  here : r.spec.localOnly = false

/-- A task is rendered and gives what its runner needs. -/
structure IsReady (d : Dispatcher) (t : Task) (vars : Vars) (r : Runner) (rendered : Task) : Prop
    extends d.IsCalled t r where
  rendersTo : t.RendersTo vars rendered
  complete : ¬ r.spec.IsUnmet rendered

/-- The guard was asked, if there is one, and speaks for the task. -/
inductive IsAsked (rendered : Task) : List Exchange → Prop where
  | open (unguarded : rendered.guard = none) : IsAsked rendered []
  | passed {guard : String} {output : ProgramOutput} (guarded : rendered.guard = some guard)
      (failed : output.status ≠ .code 0) :
      IsAsked rendered [⟨.run (.shell guard), .ok output⟩]

/-- What is told of the turn of a runner: its result, or a failure that changed nothing. -/
inductive IsToldOf (found : TaskResult) : Runner.Outcome → Prop where
  | result {told : TaskResult}
      (same : found = { told with nanoseconds := found.nanoseconds, task := found.task }) :
      IsToldOf found (.result told)
  | error {e : RunnerError} (failed : found.status = .failed) (changed : found.changed = false) :
      IsToldOf found (.error e)
  | panic {message : Option String} (failed : found.status = .failed)
      (changed : found.changed = false) : IsToldOf found (.panic message)

/-- The exits of a dispatch, in the order in which they are decided: the task that was handed to the
body of a runner if one was, the dialogue with the host, and the result. -/
inductive Exit (d : Dispatcher) (t : Task) (vars : Vars) :
    Option Task → List Exchange → TaskResult → Prop where
  | unknown {start : Nat} {found : TaskResult} (missing : d.registry.get? t.runner = none)
      (failed : found.status = .failed) : Exit d t vars none [⟨.clock, start⟩] found
  | elsewhere {r : Runner} {start stop : Nat} {found : TaskResult}
      (known : d.registry.get? t.runner = some r) (localOnly : r.spec.localOnly = true)
      (skipped : found.status = .skipped) (unrendered : found.task = some t.stripped) :
      Exit d t vars none [⟨.clock, start⟩, ⟨.clock, stop⟩] found
  | unrenderable {r : Runner} {start stop : Nat} {found : TaskResult} (called : d.IsCalled t r)
      (unrenderable : t.IsUnrenderable vars) (failed : found.status = .failed) :
      Exit d t vars none [⟨.clock, start⟩, ⟨.clock, stop⟩] found
  | incomplete {r : Runner} {rendered : Task} {start stop : Nat} {found : TaskResult}
      (called : d.IsCalled t r) (rendersTo : t.RendersTo vars rendered)
      (unmet : r.spec.IsUnmet rendered) (failed : found.status = .failed) :
      Exit d t vars none [⟨.clock, start⟩, ⟨.clock, stop⟩] found
  | unasked {r : Runner} {rendered : Task} {guard : String} {e : HostError} {start stop : Nat}
      {found : TaskResult} (ready : d.IsReady t vars r rendered)
      (guarded : rendered.guard = some guard) (failed : found.status = .failed) :
      Exit d t vars none
        [⟨.clock, start⟩, ⟨.run (.shell guard), .error e⟩, ⟨.clock, stop⟩] found
  | unneeded {r : Runner} {rendered : Task} {guard : String} {output : ProgramOutput}
      {start stop : Nat} {found : TaskResult} (ready : d.IsReady t vars r rendered)
      (guarded : rendered.guard = some guard) (held : output.status = .code 0)
      (success : found.status = .success) (changed : found.changed = false) :
      Exit d t vars none
        [⟨.clock, start⟩, ⟨.run (.shell guard), .ok output⟩, ⟨.clock, stop⟩] found
  | ran {r : Runner} {rendered left : Task} {outcome : Runner.Outcome} {start stop : Nat}
      {asked body : List Exchange} {found : TaskResult} (ready : d.IsReady t vars r rendered)
      (asks : IsAsked rendered asked)
      (ends : (r.run (d.context vars) rendered).After body (.done (outcome, left)))
      (told : IsToldOf found outcome) (echoed : found.task = some left.stripped) :
      Exit d t vars (some rendered)
        (⟨.clock, start⟩ :: (asked ++ body ++ [⟨.clock, stop⟩])) found

theorem isToldOf_report {runner : String} {outcome : Runner.Outcome} {left : Task} {n : Nat} :
    IsToldOf ((Dispatched.ofOutcome runner (outcome, left)).report n) outcome ∧
      ((Dispatched.ofOutcome runner (outcome, left)).report n).task = some left.stripped := by
  cases outcome with
  | result told => exact ⟨.result rfl, rfl⟩
  | error e => exact ⟨.error rfl rfl, rfl⟩
  | panic message => exact ⟨.panic rfl rfl, rfl⟩

variable {start stop n : Nat} {middle : List Exchange}

/-- A task that is ready ends in one of the last three exits. -/
theorem exit_of_runGuarded (ready : d.IsReady t vars r rendered)
    (ran : (d.runGuarded r vars rendered).After middle (.done done)) : ∃ handed,
      Exit d t vars handed (⟨.clock, start⟩ :: (middle ++ [⟨.clock, stop⟩])) (done.report n) := by
  unfold runGuarded at ran
  cases guarded : rendered.guard with
  | none =>
      rw [guarded] at ran
      obtain ⟨⟨outcome, left⟩, ends, rfl⟩ := after_runBody ran
      exact ⟨_, .ran ready (.open guarded) ends isToldOf_report.1 isToldOf_report.2⟩
  | some guard =>
      rw [guarded] at ran
      obtain ⟨asked, body, answer, rfl, began, later⟩ := Action.after_bind.1 ran
      obtain rfl := Action.after_perform.1 began
      cases answer with
      | error e =>
          obtain ⟨rfl, same⟩ := Action.after_done.1 later
          cases same
          exact ⟨none, .unasked ready guarded rfl⟩
      | ok output =>
          dsimp only at later
          split at later
          · next held =>
              obtain ⟨rfl, same⟩ := Action.after_done.1 later
              cases same
              exact ⟨none, .unneeded ready guarded (by simpa [ExitStatus.isSuccess] using held) rfl
                rfl⟩
          · next failed =>
              obtain ⟨⟨outcome, left⟩, ends, rfl⟩ := after_runBody later
              refine ⟨_, .ran ready (.passed guarded ?_) ends isToldOf_report.1 isToldOf_report.2⟩
              simpa [ExitStatus.isSuccess] using failed

/-- A task whose runner is called ends in one of the exits behind the first two. -/
theorem exit_of_execute (called : d.IsCalled t r)
    (ran : (d.execute r vars t).After middle (.done done)) : ∃ handed,
      Exit d t vars handed (⟨.clock, start⟩ :: (middle ++ [⟨.clock, stop⟩])) (done.report n) := by
  unfold execute at ran
  rcases same : renderTask vars t with ⟨rendered, failure⟩
  rw [same] at ran
  dsimp only at ran
  cases failure with
  | some e =>
      obtain ⟨rfl, ended⟩ := Action.after_done.1 ran
      cases ended
      exact ⟨none, .unrenderable called (isUnrenderable_of_renderTask same) rfl⟩
  | none =>
      have rendersTo := rendersTo_of_renderTask same
      rw [Option.none_or] at ran
      cases fault : fault? r rendered with
      | some e =>
          rw [fault] at ran
          obtain ⟨rfl, ended⟩ := Action.after_done.1 ran
          cases ended
          exact ⟨none, .incomplete called rendersTo (isUnmet_iff.2 ⟨e, fault⟩) rfl⟩
      | none =>
          rw [fault] at ran
          refine exit_of_runGuarded ⟨called, rendersTo, fun unmet => ?_⟩ ran
          obtain ⟨e, found⟩ := isUnmet_iff.1 unmet
          cases found.symm.trans fault

/-- However the host answers, a dispatch ends in one of its exits, and the result shows a task
without its internal arguments. -/
theorem exit_of_after (ran : (d.run t inherited).After log (.done found)) :
    (∃ handed, Exit d t (Vars.merge [inherited, t.vars]) handed log found) ∧
      ∃ left : Task, found.task = some left.stripped := by
  cases known : d.registry.get? t.runner with
  | none =>
      unfold run at ran
      obtain ⟨_, _, start, rfl, began, later⟩ := Action.after_bind.1 ran
      obtain rfl := Action.after_perform.1 began
      rw [known] at later
      obtain ⟨rfl, same⟩ := Action.after_done.1 later
      cases same
      exact ⟨⟨none, .unknown known rfl⟩, t, rfl⟩
  | some r =>
      cases localOnly : r.spec.localOnly with
      | false =>
          obtain ⟨start, stop, middle, done, rfl, executed, rfl⟩ := after_run known localOnly ran
          exact ⟨exit_of_execute ⟨known, localOnly⟩ executed, done.task, rfl⟩
      | true =>
          unfold run at ran
          obtain ⟨_, _, start, rfl, began, later⟩ := Action.after_bind.1 ran
          obtain rfl := Action.after_perform.1 began
          rw [known] at later
          dsimp only at later
          rw [if_pos localOnly, Action.pure_eq, Action.done_bind] at later
          obtain ⟨_, _, stop, rfl, ended, reported⟩ := Action.after_bind.1 later
          obtain rfl := Action.after_perform.1 ended
          obtain ⟨rfl, same⟩ := Action.after_done.1 reported
          cases same
          exact ⟨⟨none, .elsewhere known localOnly rfl rfl⟩, t, rfl⟩

end Dispatcher

theorem Vars.get?_merge {outer own : Vars} {name : String} :
    (Vars.merge [outer, own]).get? name = (own.get? name).or (outer.get? name) := by
  show ((Dict.union ∅ outer).union own).get? name = _
  rw [Dict.get?_union, Dict.get?_union]
  cases outer.get? name <;> rfl

theorem Task.get?_stripped {t : Task} {name : String} (internal : isInternalArg name = true) :
    t.stripped.args.get? name = none := by
  unfold stripped
  rw [Dict.get?_filter, Option.filter_eq_none_iff]
  intro value bound
  simp [internal]

namespace Dispatcher

/-! ## Every dispatch -/

/-- A dispatch takes one of its exits on every host, with every registry of runners, and comes to
one result; the variables of the task hide those around it. Whatever a runner made of its task, the
result shows no internal argument. -/
theorem dispatch_takes_exit {σ : Type} (d : Dispatcher) (h : Action.Handler σ) (t : Task)
    (inherited : Vars) (s : σ) :
    let log := (d.run t inherited).dialogue h s
    let found := ((d.run t inherited).runWith h s).1
    (∃ vars handed, (∀ name, vars.get? name = (t.vars.get? name).or (inherited.get? name)) ∧
      Exit d t vars handed log found) ∧
    ∃ echoed, found.task = some echoed ∧
      ∀ name, isInternalArg name = true → echoed.args.get? name = none := by
  intro log found
  obtain ⟨⟨handed, exit⟩, left, echoed⟩ :=
    exit_of_after (Action.after_dialogue h (d.run t inherited) s)
  exact ⟨⟨_, handed, fun _ => Vars.get?_merge, exit⟩, left.stripped, echoed,
    fun _ internal => Task.get?_stripped internal⟩

end Dispatcher

end Fleet
