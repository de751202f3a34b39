/-
# What a phase on the controller leaves

A phase works on a rendered copy of its task and may do to the copy what it likes. Of the copy only
the internal arguments come back, so the task is shipped with everything else as it was, and what
its runner sees on a host is rendered there and nowhere else: a variable whose value looks like a
template keeps its braces.
-/

import Fleet.Proofs.Runner.Exit

namespace Fleet

open Host
open Host.Action (After)

/-- A task that differs from another in internal arguments alone, and has every argument of it. -/
structure Task.Adds (t kept : Task) : Prop where
  rest : kept = { t with args := kept.args }
  shown : ∀ name, isInternalArg name = false → kept.args.get? name = t.args.get? name
  bound : ∀ name, t.args.contains name = true → kept.args.contains name = true

namespace Task

variable {t kept copy rendered rendered' : Task} {vars : Vars}

theorem Adds.refl (t : Task) : t.Adds t := ⟨rfl, fun _ _ => rfl, fun _ has => has⟩

theorem adds_keepInternal : t.Adds (Dispatcher.keepInternal t copy) where
  rest := rfl
  shown name shown := by
    rw [Dispatcher.keepInternal, Dict.get?_union, Dict.get?_filter]
    have dropped : (copy.args.get? name).filter (fun _ => isInternalArg name) = none := by
      rw [shown]
      exact Option.filter_eq_none_iff.2 fun _ _ => nofun
    rw [dropped, Option.none_or]
  bound name has := Dict.contains_union.2 (.inl has)

theorem Adds.guard_eq (adds : t.Adds kept) : kept.guard = t.guard := by rw [adds.rest]

theorem Adds.vars_eq (adds : t.Adds kept) : kept.vars = t.vars := by rw [adds.rest]

/-- Internal arguments have no part in whether the texts of a task can be rendered. -/
theorem Adds.isUnrenderable_iff (adds : t.Adds kept) :
    kept.IsUnrenderable vars ↔ t.IsUnrenderable vars := by
  unfold IsUnrenderable
  rw [adds.guard_eq]
  refine or_congr_left ⟨?_, ?_⟩
  · rintro ⟨name, s, e, shown, bound, fault⟩
    exact ⟨name, s, e, shown, (adds.shown name shown).symm.trans bound, fault⟩
  · rintro ⟨name, s, e, shown, bound, fault⟩
    exact ⟨name, s, e, shown, (adds.shown name shown).trans bound, fault⟩

end Task

namespace Dispatcher

variable {d : Dispatcher} {t kept given : Task} {inherited : Vars} {log : List Exchange}
variable {found : TaskResult}

/-- Whatever the phase of a runner does, its task has gained internal arguments at most. -/
theorem adds_of_prepare (ran : (d.prepare t inherited).After log (.done (found, kept))) :
    t.Adds kept := by
  unfold prepare at ran
  obtain ⟨_, _, start, rfl, -, later⟩ := Action.after_bind.1 ran
  cases known : d.registry.get? t.runner with
  | none =>
      rw [known] at later
      cases (Action.after_done.1 later).2
      exact .refl t
  | some r =>
      rw [known] at later
      dsimp only at later
      split at later
      · cases (Action.after_done.1 later).2
        exact .refl t
      · obtain ⟨_, _, done, rfl, -, later⟩ := Action.after_bind.1 later
        obtain ⟨_, _, stop, rfl, -, later⟩ := Action.after_bind.1 later
        cases (Action.after_done.1 later).2
        exact Task.adds_keepInternal

/-- The clock is read before a phase and behind it. -/
theorem after_prepare {r : Runner} (known : d.registry.get? t.runner = some r)
    (phase : r.spec.preRun = true) (ran : (d.prepare t inherited).After log (.done (found, kept))) :
    ∃ start stop middle done, log = ⟨.clock, start⟩ :: (middle ++ [⟨.clock, stop⟩]) ∧
      (d.preparePhase r (Vars.merge [inherited, t.vars]) t).After middle (.done done) ∧
      kept = keepInternal t done.task ∧
      found = Dispatched.report ⟨done.result, kept⟩ (stop - start) := by
  unfold prepare at ran
  obtain ⟨_, _, start, rfl, began, later⟩ := Action.after_bind.1 ran
  obtain rfl := Action.after_perform.1 began
  rw [known] at later
  dsimp only at later
  rw [if_neg (by rw [phase]; nofun)] at later
  obtain ⟨middle, _, done, rfl, executed, last⟩ := Action.after_bind.1 later
  obtain ⟨_, _, stop, rfl, ended, reported⟩ := Action.after_bind.1 last
  obtain rfl := Action.after_perform.1 ended
  obtain ⟨rfl, same⟩ := Action.after_done.1 reported
  obtain ⟨rfl, rfl⟩ := Prod.mk.inj (Action.done.inj same)
  exact ⟨start, stop, middle, done, rfl, executed, rfl, rfl⟩

/-- Some dispatch of a task hands a task to the body of a runner. -/
def Hands (d : Dispatcher) (t : Task) (inherited : Vars) (given : Task) : Prop :=
  ∃ log found, (d.run t inherited).After log (.done found) ∧
    Exit d t (Vars.merge [inherited, t.vars]) (some given) log found

theorem Hands.rendersTo (hands : d.Hands t inherited given) :
    t.RendersTo (Vars.merge [inherited, t.vars]) given := by
  obtain ⟨_, _, -, exit⟩ := hands
  cases exit with
  | ran ready => exact ready.rendersTo

/-! ## A phase that breaks down

It renames its copy, takes the text away that it saw and leaves an internal and another argument
behind. The text reads as a template once it is rendered.
-/

namespace Sample

def stamp : Runner where
  name := "stamp"
  spec := { preRun := true }
  run := fun _ t => return (.result (.success ""), t)
  prepare := fun _ t => return (.panic none, { t with
    runner := "other"
    args := ((t.args.erase "msg").insert "_assets" .null).insert "extra" .null })

def stamping : Dispatcher where
  registry := .ofList [stamp]

def braces : Vars := .ofList [("banner", .str "literal \x7b\x7b braces \x7d\x7d")]

def stamped : Task where
  runner := "stamp"
  args := .ofList [("msg", .str "\x7b\x7b banner \x7d\x7d")]

/-- The task as it is shipped. -/
def shipped : Task where
  runner := "stamp"
  args := .ofList [("_assets", .null), ("msg", .str "\x7b\x7b banner \x7d\x7d")]

/-- The task as the body of its runner sees it. -/
def seen : Task where
  runner := "stamp"
  args := .ofList [("_assets", .null), ("msg", .str "literal \x7b\x7b braces \x7d\x7d")]

end Sample

/-- A phase leaves its task as it is, internal arguments apart, and takes none away, however it ends
and whatever it does to its copy. So the arguments that are shown reach the body of the runner as
they would have without it: every text rendered once, anything else untouched. -/
theorem prepare_leaves_shown {σ : Type} (d : Dispatcher) (h : Action.Handler σ) (t : Task)
    (inherited : Vars) (s : σ) :
    let kept := ((d.prepare t inherited).runWith h s).1.2
    let vars := Vars.merge [inherited, t.vars]
    kept = { t with args := kept.args } ∧
    (∀ name, isInternalArg name = false → kept.args.get? name = t.args.get? name) ∧
    (∀ name, t.args.contains name = true → kept.args.contains name = true) ∧
    (kept.IsUnrenderable vars ↔ t.IsUnrenderable vars) ∧
    ∀ given, d.Hands kept inherited given → ∀ name, isInternalArg name = false →
      (∀ bare, d.Hands t inherited bare → given.args.get? name = bare.args.get? name) ∧
      (∀ text, t.args.get? name = some (.str text) → ∃ image,
        Template.render vars text = .ok image ∧ given.args.get? name = some (.str image)) ∧
      ((∀ text, t.args.get? name ≠ some (.str text)) →
        given.args.get? name = t.args.get? name) := by
  intro kept vars
  have adds : t.Adds kept := adds_of_prepare (Action.after_dialogue h (d.prepare t inherited) s)
  refine ⟨adds.rest, adds.shown, adds.bound, adds.isUnrenderable_iff, ?_⟩
  intro given hands name shown
  have rendered : kept.RendersTo vars given := by
    have rendered := hands.rendersTo
    rwa [adds.vars_eq] at rendered
  have same := adds.shown name shown
  refine ⟨fun bare hands => rendered.args_eq hands.rendersTo shown same, fun text bound => ?_,
    fun other => ?_⟩
  · exact rendered.text name text shown (same.trans bound)
  · exact (rendered.other name (.inr fun text => same ▸ other text)).trans same

namespace Sample

theorem prepare_stamped :
    ((stamping.prepare stamped braces).runWith (Machine.handler {}) default).1.2 = shipped := by
  decide +kernel

theorem renderTask_shipped :
    renderTask (Vars.merge [braces, shipped.vars]) shipped = (seen, none) := by decide +kernel

theorem hands_shipped : stamping.Hands shipped braces seen := by
  have called : stamping.IsCalled shipped stamp := ⟨rfl, rfl⟩
  have executed : stamping.execute stamp (Vars.merge [braces, shipped.vars]) shipped =
      .done ⟨.success "", seen⟩ := by
    unfold execute
    rw [renderTask_shipped]
    rfl
  have ran : stamping.run shipped braces = do
      let start ← clock
      let done ← stamping.execute stamp (Vars.merge [braces, shipped.vars]) shipped
      let stop ← clock
      return done.report (stop - start) := by
    unfold run
    rw [called.known]
    rfl
  rw [executed] at ran
  refine ⟨⟨.clock, (0 : Nat)⟩ :: ([] ++ [] ++ [⟨.clock, (0 : Nat)⟩]),
    Dispatched.report ⟨.success "", seen⟩ 0, ?_,
    .ran ⟨called, rendersTo_of_renderTask renderTask_shipped, nofun⟩ (.open rfl) (.refl _)
      (.result rfl) rfl⟩
  rw [ran]
  exact .ask (.ask (.refl _))

end Sample

theorem prepare_leaves_shown_sample :
    Sample.stamping.Hands Sample.shipped Sample.braces Sample.seen ∧
    Sample.shipped.args.get? "msg" = some (.str "\x7b\x7b banner \x7d\x7d") ∧
    Sample.seen.args.get? "msg" = some (.str "literal \x7b\x7b braces \x7d\x7d") := by
  have whole := prepare_leaves_shown Sample.stamping (Machine.handler {}) Sample.stamped
    Sample.braces default
  rw [Sample.prepare_stamped] at whole
  obtain ⟨-, shown, -, -, sees⟩ := whole
  have once : Template.render (Vars.merge [Sample.braces, Sample.stamped.vars])
      "\x7b\x7b banner \x7d\x7d" = .ok "literal \x7b\x7b braces \x7d\x7d" := by
    decide +kernel
  have text : Sample.stamped.args.get? "msg" = some (.str "\x7b\x7b banner \x7d\x7d") := by
    decide +kernel
  obtain ⟨image, rendering, given⟩ :=
    (sees Sample.seen Sample.hands_shipped "msg" (by decide)).2.1 _ text
  rw [once] at rendering
  cases rendering
  exact ⟨Sample.hands_shipped, (shown "msg" (by decide)).trans text, given⟩

end Dispatcher

end Fleet
