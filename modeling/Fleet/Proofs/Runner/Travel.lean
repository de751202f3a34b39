/-
# What travels through a dispatcher

Whatever a dispatcher makes of a task, the result shows a task that can be read back, if the task
itself can and the runners of the registry leave it so. Rendering puts texts in the place of texts,
and nothing else of a task is touched before its runner has its turn.
-/

import Fleet.Proofs.Host.Dialogue
import Fleet.Proofs.Wire.Result
import Fleet.Runner.Dispatch

namespace Fleet

open Host (Action)

namespace Task

variable {t : Task}

theorem mem_values_filter {α : Type} {d : Dict String α} {keep : String → α → Bool} {v : α}
    (member : v ∈ (d.filter keep).values) : v ∈ d.values := by
  obtain ⟨b, among, rfl⟩ := List.mem_map.1 member
  exact List.mem_map_of_mem (List.mem_of_mem_filter among)

theorem Travels.stripped (travels : t.Travels) : t.stripped.Travels := by
  obtain ⟨args, vars, loop⟩ := travels_iff.1 travels
  exact travels_iff.2 ⟨fun v member => args v (mem_values_filter member), vars, loop⟩

end Task

/-- Runners that hand over no result on their own, and that leave tasks which can be read back. -/
def Registry.KeepsTasks (registry : Registry) : Prop :=
  ∀ name r, registry.get? name = some r → ∀ ctx (t : Task), t.Travels →
    (r.run ctx t).Quietly fun ended => ended.2.stripped.Travels

namespace Dispatcher

variable {d : Dispatcher} {r : Runner} {vars inherited : Vars} {t : Task} {name : String}
  {v w : Json}

/-- A rendered value is the value itself or a text. -/
theorem renderArg_cases (rendered : renderArg vars name v = .ok w) : w = v ∨ ∃ s, w = .str s := by
  unfold renderArg at rendered
  split at rendered
  · cases rendered
    exact .inl rfl
  · cases v with
    | str s =>
        cases text : Template.render vars s with
        | ok s' =>
            rw [Template.renderValue, text] at rendered
            cases rendered
            exact .inr ⟨s', rfl⟩
        | error e =>
            rw [Template.renderValue, text] at rendered
            cases rendered
    | _ =>
        cases rendered
        exact .inl rfl

/-- The arguments of a rendered task, whether all were rendered or not. -/
theorem args_renderTask (vars : Vars) (t : Task) :
    (renderTask vars t).1.args = (t.args.updateValues (renderArg vars)).1 ∧
      (renderTask vars t).1.vars = t.vars ∧ (renderTask vars t).1.loop = t.loop := by
  unfold renderTask
  rcases t.args.updateValues (renderArg vars) with ⟨args, failure⟩
  cases failure with
  | some e => exact ⟨rfl, rfl, rfl⟩
  | none =>
      dsimp only
      split
      · next same => cases same
      · exact ⟨rfl, rfl, rfl⟩
      · split <;> exact ⟨rfl, rfl, rfl⟩

theorem travels_renderTask (travels : t.Travels) : (renderTask vars t).1.Travels := by
  obtain ⟨args, tvars, loop⟩ := Task.travels_iff.1 travels
  obtain ⟨rendered, sameVars, sameLoop⟩ := args_renderTask vars t
  refine Task.travels_iff.2 ⟨fun w member => ?_, sameVars ▸ tvars, sameLoop ▸ loop⟩
  rw [rendered] at member
  obtain ⟨b, among, rfl⟩ := List.mem_map.1 member
  rcases Dict.mem_or_of_mem_updateEntries among with same | ⟨v, given, image⟩
  · exact args b.2 (List.mem_map_of_mem same)
  · rcases renderArg_cases image with same | ⟨s, same⟩
    · exact same ▸ args v (List.mem_map_of_mem given)
    · rw [same]
      exact ⟨⟨trivial, rfl⟩, (by decide : 0 + 3 < Json.depthLimit)⟩

section Runner

variable (keeps : ∀ ctx (t : Task), t.Travels →
  (r.run ctx t).Quietly fun ended => ended.2.stripped.Travels)

include keeps

theorem quietly_runBody (travels : t.Travels) :
    (d.runBody r vars t).Quietly fun done => done.task.stripped.Travels := by
  refine Action.Quietly.bind (keeps (d.context vars) t travels) fun ended left => ?_
  obtain ⟨outcome, task⟩ := ended
  cases outcome <;> exact left

theorem quietly_runGuarded (travels : t.Travels) :
    (d.runGuarded r vars t).Quietly fun done => done.task.stripped.Travels := by
  unfold runGuarded
  cases t.guard with
  | none => exact quietly_runBody keeps travels
  | some guard =>
      refine Action.quietly_bind (Action.isQuiet_perform fun _ => rfl) fun found => ?_
      cases found with
      | error e => exact travels.stripped
      | ok output =>
          dsimp only
          split
          · exact travels.stripped
          · exact quietly_runBody keeps travels

theorem quietly_execute (travels : t.Travels) :
    (d.execute r vars t).Quietly fun done => done.task.stripped.Travels := by
  have rendered : (renderTask vars t).1.Travels := travels_renderTask travels
  unfold execute
  generalize renderTask vars t = pair at rendered
  obtain ⟨task, failure⟩ := pair
  dsimp only
  split
  · exact rendered.stripped
  · exact quietly_runGuarded keeps rendered

end Runner

/-- Whatever becomes of a task, the result of it shows one that travels. -/
theorem quietly_run (keeps : d.registry.KeepsTasks) (travels : t.Travels) :
    (d.run t inherited).Quietly fun found => ∀ shown ∈ found.task, shown.Travels := by
  have shows {s : Task} (task : s.Travels) : ∀ shown ∈ some s, shown.Travels := by
    rintro _ ⟨⟩
    exact task
  refine Action.quietly_bind (Action.isQuiet_perform fun _ => rfl) fun start => ?_
  cases known : d.registry.get? t.runner with
  | none => exact shows travels.stripped
  | some r =>
      have rest (done : Dispatched) (left : done.task.stripped.Travels) :
          Action.Quietly (fun found => ∀ shown ∈ found.task, shown.Travels)
            (do let stop ← Host.clock; return done.report (stop - start)) :=
        Action.quietly_bind (Action.isQuiet_perform fun _ => rfl) fun _ => shows left
      dsimp only
      split
      · exact rest _ travels.stripped
      · exact (quietly_execute (keeps _ _ known) travels).bind rest

end Dispatcher

end Fleet
