/-
# What a prepared playbook was made from

Preparing goes through the plays of a playbook, and through the tasks and handlers of each play, one
by one. Where it comes to its end without a failure, its dialogue is that of the commands and then
that of each member in turn (`after_preparePlaybook`), and a task of the runner `tree` has taken in
what its own part of the dialogue loaded (`exists_loads_of_prepares`).
-/

import Fleet.Job.Prepare
import Fleet.Proofs.Runner.Load

namespace Fleet

open Host
open Host.Action (After)

/-! ## One by one -/

/-- Two lists go together member by member, and each two members by their own part of a dialogue. -/
inductive OneByOne {α β : Type} (R : α → List Exchange → β → Prop) :
    List α → List Exchange → List β → Prop
  | nil : OneByOne R [] [] []
  | cons {a : α} {part log : List Exchange} {b : β} {as : List α} {bs : List β}
      (first : R a part b) (later : OneByOne R as log bs) :
      OneByOne R (a :: as) (part ++ log) (b :: bs)

namespace OneByOne

variable {α β γ : Type} {R R' : α → List Exchange → β → Prop} {S : β → γ → Prop} {as : List α}
  {bs : List β} {cs : List γ} {log : List Exchange}

/-- Each member of the second list comes from one of the first. -/
theorem exists_of_mem (each : OneByOne R as log bs) {b : β} (member : b ∈ bs) :
    ∃ a ∈ as, ∃ part, part <:+: log ∧ R a part b := by
  induction each with
  | nil => cases member
  | @cons a part log b' as bs first later ih =>
      rcases List.mem_cons.1 member with rfl | member
      · exact ⟨a, List.mem_cons_self, part, (List.prefix_append part log).isInfix, first⟩
      · obtain ⟨a', among, part', inside, holds⟩ := ih member
        exact ⟨a', List.mem_cons_of_mem _ among, part',
          inside.trans (List.suffix_append part log).isInfix, holds⟩

/-- What becomes of the second list goes together with the first. -/
theorem comp (each : OneByOne R as log bs) (further : List.Forall₂ S bs cs) :
    OneByOne (fun a part c => ∃ b, R a part b ∧ S b c) as log cs := by
  induction each generalizing cs with
  | nil =>
      cases further
      exact .nil
  | cons first later ih =>
      obtain ⟨c, cs, holds, rest, rfl⟩ := List.forall₂_cons_left_iff.1 further
      exact .cons ⟨_, first, holds⟩ (ih rest)

theorem mono (each : OneByOne R as log bs) (weaker : ∀ a part b, R a part b → R' a part b) :
    OneByOne R' as log bs := by
  induction each with
  | nil => exact .nil
  | cons first later ih => exact .cons (weaker _ _ _ first) ih

/-- What holds of every member of the first list may be used row by row. -/
theorem and_left {P : α → Prop} (each : OneByOne R as log bs) (all : ∀ a ∈ as, P a) :
    OneByOne (fun a part b => P a ∧ R a part b) as log bs := by
  induction each with
  | nil => exact .nil
  | cons first later ih =>
      obtain ⟨holds, rest⟩ := List.forall_mem_cons.1 all
      exact .cons ⟨holds, first⟩ (ih rest)

end OneByOne

namespace Prepared

variable {α : Type} {prepare : α → Action (Prepared α)} {as : List α} {log : List Exchange}

/-- A member of a list was prepared without a failure. -/
def Went (prepare : α → Action (Prepared α)) (a : α) (part : List Exchange) (b : α) : Prop :=
  ∃ count, (prepare a).After part (.done ⟨b, count, none⟩)

theorem after_sequence {found : Prepared (List α)}
    (ran : (sequence prepare as).After log (.done found)) (fine : found.failure = none) :
    OneByOne (Went prepare) as log found.value := by
  induction as generalizing log found with
  | nil =>
      obtain ⟨rfl, same⟩ := Action.after_done.1 ran
      cases same
      exact .nil
  | cons a rest ih =>
      obtain ⟨part, behind, ⟨value, count, failure⟩, rfl, first, later⟩ := Action.after_bind.1 ran
      cases failure with
      | some e =>
          cases (Action.after_done.1 later).2
          cases fine
      | none =>
          obtain ⟨behind, _, more, rfl, went, ended⟩ := Action.after_bind.1 later
          obtain ⟨rfl, same⟩ := Action.after_done.1 ended
          cases same
          rw [List.append_nil]
          exact .cons ⟨count, first⟩ (ih went fine)

end Prepared

namespace Dispatcher

open Prepared (Went)

variable {d : Dispatcher} {vars jobVars : Vars} {t kept : Task} {p p' : Play} {b : Playbook}
  {log part : List Exchange}

/-! ## Tasks -/

theorem adds_of_went (went : Went (d.prepareTask vars) t part kept) : t.Adds kept := by
  obtain ⟨count, ran⟩ := went
  unfold prepareTask at ran
  split at ran
  · cases (Action.after_done.1 ran).2
    exact .refl t
  · obtain ⟨_, _, ⟨r, left⟩, rfl, first, later⟩ := Action.after_bind.1 ran
    dsimp only at later
    split at later
    · cases (Action.after_done.1 later).2
    · cases (Action.after_done.1 later).2
      exact adds_of_prepare first

/-- The part of a dialogue in which an asset was loaded for a task: the one that lies where the
rendered task says. -/
inductive Loads (d : Dispatcher) (vars : Vars) (t : Task) : List Exchange → Asset → Prop
  | loaded {rendered : Task} {source : String} {start stop : Nat} {middle : List Exchange}
      {a : Asset} (rendersTo : t.RendersTo (Vars.merge [vars, t.vars]) rendered)
      (given : rendered.argString? "src" = some source)
      (went : (Asset.load d.vault (Asset.pathIn d.baseDir source)).outcome.After middle
        (.done (.ok a))) :
      Loads d vars t (⟨.clock, start⟩ :: (middle ++ [⟨.clock, stop⟩])) a

theorem Loads.mode_le {a : Asset} (loads : d.Loads vars t part a) :
    ∀ f ∈ a.files, f.mode ≤ AssetFile.greatestMode := by
  cases loads with
  | loaded _ _ went => exact Asset.mode_le_of_load went

/-- The phase of a tree loads an asset into its copy of the task, or it ends with an error. -/
theorem after_loadTree {ctx : Runner.Context} {outcome : Runner.Outcome} {left : Task}
    (ran : (Runner.loadTree ctx t).After log (.done (outcome, left))) :
    (∃ e, outcome = .error e) ∨ ∃ source a r, t.argString? "src" = some source ∧
      (Asset.load ctx.vault (Asset.pathIn ctx.baseDir source)).outcome.After log
        (.done (.ok a)) ∧
      outcome = .result r ∧ left = { t with args := t.args.insert assetsArg a.toJson } := by
  obtain ⟨_, _, found, rfl, tried, ended⟩ := Action.after_bind.1 ran
  cases found with
  | error e =>
      cases (Action.after_done.1 ended).2
      exact .inl ⟨e, rfl⟩
  | ok found =>
      obtain ⟨rfl, same⟩ := Action.after_done.1 ended
      cases same
      rw [List.append_nil]
      rcases Attempt.after_bind.1 tried with ⟨_, same, -⟩ | ⟨_, _, source, rfl, asked, tried⟩
      · cases same
      rcases Attempt.after_bind.1 tried with ⟨_, same, -⟩ | ⟨_, _, a, rfl, loaded, tried⟩
      · cases same
      obtain ⟨answer, loaded, same⟩ := Attempt.after_mapError.1 loaded
      cases answer with
      | error e => cases same
      | ok a' =>
          cases same
          obtain ⟨rfl, same⟩ := Action.after_done.1 tried
          cases same
          unfold Runner.requireText at asked
          split at asked
          · next source' given =>
              obtain ⟨rfl, same⟩ := Action.after_done.1 asked
              cases same
              rw [List.nil_append, List.append_nil]
              exact .inr ⟨source, a, _, given, loaded, rfl, rfl⟩
          · cases (Action.after_done.1 asked).2

theorem get?_keepInternal {copy : Task} {name : String} {v : Json}
    (internal : isInternalArg name = true) (bound : copy.args.get? name = some v) :
    (keepInternal t copy).args.get? name = some v := by
  rw [keepInternal, Dict.get?_union, Dict.get?_filter, bound]
  simp [Option.filter, internal]

/-- A prepared task of the runner `tree` has taken in what was loaded for it, whatever it brought
along. -/
theorem exists_loads_of_went (known : d.registry.get? "tree" = some Runner.tree)
    (runner : t.runner = "tree") (went : Went (d.prepareTask vars) t part kept) :
    ∃ a, d.Loads vars t part a ∧ kept.args.get? assetsArg = some a.toJson := by
  obtain ⟨count, ran⟩ := went
  have phase : d.hasPhase t = true := by
    rw [hasPhase, runner, known]
    rfl
  unfold prepareTask at ran
  rw [phase] at ran
  obtain ⟨_, _, ⟨r, left⟩, rfl, prepared, later⟩ := Action.after_bind.1 ran
  dsimp only at later
  split at later
  · cases (Action.after_done.1 later).2
  next well =>
  obtain ⟨rfl, same⟩ := Action.after_done.1 later
  cases same
  obtain ⟨start, stop, middle, done, rfl, tried, rfl, rfl⟩ :=
    after_prepare (runner ▸ known) rfl prepared
  unfold preparePhase at tried
  rcases rendering : renderTask (Vars.merge [vars, t.vars]) t with ⟨rendered, failure⟩
  rw [rendering] at tried
  cases failure with
  | some e =>
      cases (Action.after_done.1 tried).2
      exact absurd rfl well
  | none =>
      obtain ⟨_, _, ⟨outcome, copy⟩, rfl, loading, ended⟩ := Action.after_bind.1 tried
      obtain ⟨rfl, same⟩ := Action.after_done.1 ended
      cases same
      rcases after_loadTree loading with ⟨e, rfl⟩ | ⟨source, a, told, given, loaded, rfl, rfl⟩
      · exact absurd rfl well
      · rw [List.append_nil, List.append_nil]
        exact ⟨a, .loaded (rendersTo_of_renderTask rendering) given loaded,
          get?_keepInternal Runner.isInternalArg_assetsArg (Dict.get?_insert_self ..)⟩

/-! ## Plays and playbooks -/

theorem after_preparePlay (went : Went (d.preparePlay jobVars) p log p') : ∃ tasks handlers,
    log = tasks ++ handlers ∧
      OneByOne (Went (d.prepareTask (Vars.merge [jobVars, p.vars]))) p.tasks tasks p'.tasks ∧
      OneByOne (Went (d.prepareTask (Vars.merge [jobVars, p.vars]))) p.handlers handlers
        p'.handlers := by
  obtain ⟨count, ran⟩ := went
  obtain ⟨tasks, _, ⟨value, count, failure⟩, rfl, first, later⟩ := Action.after_bind.1 ran
  cases failure with
  | some e => cases (Action.after_done.1 later).2
  | none =>
      obtain ⟨handlers, _, found, rfl, second, ended⟩ := Action.after_bind.1 later
      obtain ⟨rfl, same⟩ := Action.after_done.1 ended
      rw [List.append_nil]
      obtain ⟨rfl, rfl, fine⟩ := Prepared.mk.inj (Action.done.inj same)
      exact ⟨tasks, handlers, rfl, Prepared.after_sequence first rfl,
        Prepared.after_sequence second fine.symm⟩

/-- A playbook that is prepared to its end: behind the commands one play was prepared after the
other. -/
theorem after_preparePlaybook {prepared : Prepared Playbook}
    (ran : (d.preparePlaybook jobVars b).After log (.done prepared))
    (fine : prepared.failure = none) : ∃ commands rest, log = commands ++ rest ∧
      OneByOne (Went (d.preparePlay jobVars)) b.plays rest prepared.value.plays := by
  obtain ⟨commands, _, answer, rfl, -, later⟩ := Action.after_bind.1 ran
  cases answer with
  | error e =>
      cases (Action.after_done.1 later).2
      cases fine
  | ok _ =>
      obtain ⟨rest, _, found, rfl, plays, ended⟩ := Action.after_bind.1 later
      obtain ⟨rfl, same⟩ := Action.after_done.1 ended
      cases same
      exact ⟨commands, rest, by rw [List.append_nil], Prepared.after_sequence plays fine⟩

end Dispatcher

end Fleet
