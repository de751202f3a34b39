/-
# The streams do not show

Where a host is reached in this process, its job and its results travel as streams, between parties
that wait for each other. What is received is what the plays of the job come to when they are run
one after the other, however the parties take turns (`wire_refines_direct`): the same results in the
same order, each under the name of the host and with its duration cut to microseconds, and no
failure beside them.
-/

import Fleet.Proofs.Deploy.Flow

namespace Fleet

open Host (Action Exchange reported silent)
open Host.Action (After)
open Deployment (delivered inProcess localAgent)

variable {host : String} {j : Job} {registry : Registry} {log : List Exchange}
  {rs : List TaskResult} {compression : Wire.Compression}

/-- Some results are what the plays of a job come to by a dialogue, delivered from a host. -/
structure Job.ComesTo (registry : Registry) (host : String) (j : Job) (log : List Exchange)
    (rs : List TaskResult) : Prop where
  ran : ∃ s, ((localAgent registry).runDirect j).outcome.After log (.done (.ok s))
  taken : ∀ e ∈ log, e.IsTaken
  results : rs = (reported log).map (delivered host)
  /-- There is at most one result for each step. -/
  most : rs.length ≤ j.resultCount
  /-- Where none is a failure there is one for each. -/
  all : (∀ r ∈ rs, r.isFailed = false) → rs.length = j.resultCount

theorem Job.Travels.comesTo (keeps : registry.KeepsTasks) (travels : j.Travels)
    {found : Except ProtocolError ExecutionSummary}
    (ran : ((localAgent registry).runDirect j).outcome.After log (.done found))
    (taken : ∀ e ∈ log, e.IsTaken) :
    j.ComesTo registry host log ((reported log).map (delivered host)) := by
  obtain ⟨s, rfl, most, all⟩ := Dispatcher.after_runDirect keeps travels ran taken
  refine ⟨⟨s, ran⟩, taken, rfl, ?_, fun good => ?_⟩
  · rwa [List.length_map]
  · rw [List.length_map]
    exact all (List.forall_mem_map.1 good)

/-- A duration that fits is cut to microseconds, and nothing else of a result is changed. -/
theorem Deployment.delivered_eq {r : TaskResult}
    (fits : r.nanoseconds / 1000 ≤ TaskResult.greatest) :
    delivered host r = { r with host, nanoseconds := r.nanoseconds / 1000 * 1000 } := by
  have whole : r.microseconds = r.nanoseconds / 1000 := Nat.mod_eq_of_lt (Nat.lt_succ_of_le fits)
  rw [delivered, TaskResult.arrived, whole]
  rfl

theorem Wire.through_eq_self {α : Type} {stop : α → Bool} {l : List α}
    (goes : ∀ a ∈ l, stop a = false) : Wire.through stop l = l := by
  induction l with
  | nil => rfl
  | cons a l ih =>
      obtain ⟨first, later⟩ := List.forall_mem_cons.1 goes
      rw [Wire.through, first, if_neg Bool.false_ne_true, ih later]

namespace Pipeline

variable {p : State}

/-- A job that travels is decoded as its frames. -/
theorem frames_start (travels : j.Travels) : (start compression (j.encode compression)).frames =
    .ok (.header j.vars) :: j.plays.map fun p => .ok (.play p) := by
  rw [start, Job.frames_encode travels.exact travels.within]
  exact Wire.through_eq_self (List.forall_mem_cons.2 ⟨rfl, List.forall_mem_map.2 fun _ _ => rfl⟩)

theorem rest_start (travels : j.Travels) (d : Dispatcher) :
    (start compression (j.encode compression)).rest d = (d.runDirect j).outcome := by
  rw [State.rest, frames_start travels]
  exact congrArg Host.Attempt.outcome (d.runFrames_eq j)

theorem forall_begun_of_tells {d : Dispatcher} {P : TaskResult → Prop}
    {Q : Except ProtocolError ExecutionSummary → Prop} (tells : (p.rest d).Tells P Q) :
    ∀ r ∈ p.agent.begun, P r := by
  unfold State.rest at tells
  cases agent : p.agent with
  | writing vars r left next =>
      rw [agent] at tells
      exact List.forall_mem_singleton.2 ((tells (.ok ())).1 r rfl)
  | _ => nofun

/-- Nothing is lost of what a job comes to. -/
theorem flows_run (keeps : registry.KeepsTasks) (travels : j.Travels)
    (run : Run (localAgent registry) host (start compression (j.encode compression)) log p) :
    Flows host log p := by
  induction run with
  | refl => exact ⟨nofun, ⟨[], [], rfl, rfl, rfl⟩, nofun⟩
  | @step log l p q before last ih =>
      have after := before.after
      rw [rest_start travels] at after
      obtain ⟨left, told⟩ := (Dispatcher.tells_runDirect keeps travels).of_after after
      refine flows_step ih (List.forall_mem_append.2 ⟨told, forall_begun_of_tells left⟩)
        (fun found ended => ?_) last
      rw [State.rest, ended] at after
      obtain ⟨s, same, -⟩ := Dispatcher.after_runDirect keeps travels after ih.taken
      exact ⟨s, same⟩

/-- What is received in the end is what the job comes to. -/
theorem comesTo_of_isOver (keeps : registry.KeepsTasks) (travels : j.Travels)
    (run : Run (localAgent registry) host (start compression (j.encode compression)) log p)
    (ended : p.isOver = true) : j.ComesTo registry host log p.received := by
  have flows := flows_run keeps travels run
  have after := run.after
  rw [rest_start travels] at after
  obtain ⟨empty, finished⟩ := Bool.and_eq_true_iff.1 ended
  have channel : p.channel = [] := List.isEmpty_iff.1 empty
  have reader : p.reader = .finished := by
    cases reader : p.reader with
    | finished => rfl
    | _ =>
        rw [reader] at finished
        cases finished
  obtain ⟨⟨s, ended⟩, pipe, -⟩ := flows.closed (by rw [reader]; rfl)
  obtain ⟨rs, ahead, results, received, onWay⟩ := flows.split
  rw [reader, pipe, ended] at onWay
  have nothing : ahead = [] := eq_nil_of_notMem (onWay ▸ List.not_mem_nil)
  rw [ended, nothing, List.append_nil] at results
  rw [channel, reader] at received
  have same : p.received = (reported log).map (delivered host) := by
    rw [show reported log = rs from (List.append_nil _).symm.trans results, ← received]
    exact (List.append_nil _).symm
  rw [State.rest, ended] at after
  exact same ▸ travels.comesTo keeps after flows.taken

end Pipeline

namespace Sample

/-- A runner that leaves its task with one argument alone. -/
def edit : Runner where
  name := "edit"
  run := fun _ t => return (.result { TaskResult.success "edited\n" with changed := true },
    { t with args := Dict.ofList [("left", .int 7)] })

def editors : Registry := .ofList [edit]

/-- Two plays: in the first one a task notifies a handler, in the second one nothing knows how to
carry out the first task. -/
def edits : Job where
  vars := Dict.ofList [("who", .str "world")]
  plays := [
    { tasks := [{ runner := "edit", args := Dict.ofList [("text", .str "\x7b\x7bwho\x7d\x7d")],
                  notify := ["again"] }]
      handlers := [{ runner := "edit", name := "again" }] },
    { tasks := [{ runner := "unknown" }, { runner := "edit" }] }]

end Sample

/-- A job comes through the streams of a process as if there were none, however the parties at their
ends take turns: nothing gets stuck or goes on for ever, and what is received in the end is what the
plays come to when they are run one after the other. So does the work that `launch` does. -/
theorem wire_refines_direct {spec : HostSpec} {installer : Option AgentInstaller}
    {settings : AgentSettings} (keeps : registry.KeepsTasks) (travels : j.Travels)
    (named : HostSpec.parse? host = some spec) :
    let agent := localAgent registry
    let start := Pipeline.start settings.compression (j.encode settings.compression)
    (WellFounded fun q p => ∃ l, Pipeline.Step agent host p l q) ∧
    (∀ log p, Pipeline.Run agent host start log p →
      (p.isOver = false → ∃ l q, Pipeline.Step agent host p l q) ∧
      (p.isOver = true → j.ComesTo registry host log p.received)) ∧
    (∀ log, ((inProcess registry installer settings).unit host j).After log (.done ()) →
      (∀ e ∈ log, e.IsTaken) → ∃ began full, silent log = ⟨.clock, began⟩ :: silent full ∧
        j.ComesTo registry host full (reported log)) ∧
    ∀ r : TaskResult, r.nanoseconds / 1000 ≤ TaskResult.greatest →
      delivered host r = { r with host, nanoseconds := r.nanoseconds / 1000 * 1000 } := by
  refine ⟨Pipeline.wellFounded_step _ _, fun log p run => ⟨Pipeline.exists_step,
    Pipeline.comesTo_of_isOver keeps travels run⟩, fun log after taken => ?_,
    fun r fits => Deployment.delivered_eq fits⟩
  obtain ⟨began, full, s, ran, took, same, results⟩ :=
    Deployment.after_unit_inProcess keeps travels named after taken
  exact ⟨began, full, same, results ▸ travels.comesTo keeps ran took⟩

namespace Sample

theorem keepsTasks_editors : editors.KeepsTasks := by
  intro name r known ctx t travels
  have among : (name, r) ∈ [("edit", edit)] := by
    rw [editors, Registry.ofList, Dict.get?_ofList] at known
    exact List.mem_reverse.1 (Dict.mem_of_lookupEntry known)
  cases List.mem_singleton.1 among
  obtain ⟨-, vars, loop⟩ := Task.travels_iff.1 travels
  have left : ∀ v ∈ (Dict.ofList [("left", Json.int 7)]).values,
      v.IsExact ∧ v.depth + 3 < Json.depthLimit := by decide +kernel
  exact Task.travels_iff.2 ⟨fun v member => left v (Task.mem_values_filter member), vars, loop⟩

theorem travels_edits : edits.Travels where
  exact := by decide +kernel
  within := by decide +kernel
  plays := by decide +kernel
  steps := by decide +kernel

end Sample

theorem wire_refines_direct_sample : Sample.editors.KeepsTasks ∧ Sample.edits.Travels ∧
    (∃ spec, HostSpec.parse? "web" = some spec) ∧ Sample.edits.resultCount = 4 ∧
    ∀ log p, Pipeline.Run (localAgent Sample.editors) "web"
        (Pipeline.start .zstd (Sample.edits.encode .zstd)) log p →
      (p.isOver = false → ∃ l q, Pipeline.Step (localAgent Sample.editors) "web" p l q) ∧
      (p.isOver = true → Sample.edits.ComesTo Sample.editors "web" log p.received) := by
  have named : (HostSpec.parse? "web").isSome = true := by decide +kernel
  obtain ⟨spec, named⟩ := Option.isSome_iff_exists.1 named
  obtain ⟨-, runs, -⟩ := @wire_refines_direct _ _ _ spec none { compression := .zstd }
    Sample.keepsTasks_editors Sample.travels_edits named
  exact ⟨Sample.keepsTasks_editors, Sample.travels_edits, ⟨spec, named⟩, rfl, runs⟩

end Fleet
