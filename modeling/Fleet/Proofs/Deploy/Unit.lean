/-
# The work on one host

A unit of work hands over what its agent wrote, up to the first line that is no result, and one
failure behind it if anything went wrong on the way (`after_unit`). `Account` lists the ways in
which the work may go, by the unit's own dialogue: what the host answered at each stage, and what
the agent left.
-/

import Fleet.Proofs.Deploy.Quiet

namespace Fleet

open Host (Attempt Exchange reported Action)

namespace Wire

/-- A list is what comes before its first error, and then begins with that error or is at its
end. -/
theorem exists_append_untilError {ε α : Type} (l : List (Except ε α)) :
    ∃ rest, l = (untilError l).1.map .ok ++ rest ∧ rest.head? = (untilError l).2.map .error := by
  induction l with
  | nil => exact ⟨[], rfl, rfl⟩
  | cons item items ih =>
      cases item with
      | error e => exact ⟨.error e :: items, rfl, rfl⟩
      | ok a =>
          obtain ⟨rest, same, last⟩ := ih
          exact ⟨rest, congrArg (_ :: ·) same, last⟩

/-- The results that can be read from some bytes up to the first line that is none, and what is
wrong with that line if there is one. -/
def Reads (bytes : Bytes) (rs : List TaskResult) (broken : Option RecordError) : Prop :=
  ∃ rest, results bytes = rs.map .ok ++ rest ∧ rest.head? = broken.map .error

theorem reads_untilError (bytes : Bytes) :
    Reads bytes (resultsUntilError bytes).1 (resultsUntilError bytes).2 :=
  exists_append_untilError (results bytes)

end Wire

/-- What is received from an agent that was started, and what is wrong with how it ended. -/
inductive AgentProcess.Leaves (process : AgentProcess) (host : String) :
    List TaskResult → Option DeployError → Prop where
  | lost {rs : List TaskResult} {broken : Option Wire.RecordError} {e : TransportError}
      (read : Wire.Reads process.output rs broken) (unended : process.exit = .error e) :
      Leaves process host rs (some (.transport e))
  | broken {rs : List TaskResult} {e : Wire.RecordError} {exit : ExitReport}
      (read : Wire.Reads process.output rs (some e)) (ended : process.exit = .ok exit) :
      Leaves process host rs (some (.protocol (.record e)))
  | exited {rs : List TaskResult} {exit : ExitReport}
      (read : Wire.Reads process.output rs none) (ended : process.exit = .ok exit)
      (bad : exit.success = false) :
      Leaves process host rs (some (.agentExit host exit.status (Text.trimmed exit.stderr)))
  | well {rs : List TaskResult} {exit : ExitReport}
      (read : Wire.Reads process.output rs none) (ended : process.exit = .ok exit)
      (good : exit.success = true) : Leaves process host rs none

namespace Deployment

variable {d : Deployment} {host : String} {job : Job} {l log : List Exchange}
variable {rs : List TaskResult} {fault : Option DeployError}

/-- The ways in which the work on a host may go, each with the dialogue up to the end of the work,
the results that are handed over, and what went wrong. -/
inductive Account (d : Deployment) (host : String) (job : Job) :
    List Exchange → List TaskResult → Option DeployError → Prop where
  | nowhere (unnamed : HostSpec.parse? host = none) :
      Account d host job [] [] (some (.transport (.invalidSpec host)))
  | unconnected {l : List Exchange} {spec : HostSpec} {e : TransportError}
      (named : HostSpec.parse? host = some spec)
      (failed : (d.transport.connect spec).outcome.After l (.done (.error e))) :
      Account d host job l [] (some (.transport e))
  | uninstalled {l₁ l₂ : List Exchange} {spec : HostSpec} {c : Connection} {i : AgentInstaller}
      {e : DeployError} (named : HostSpec.parse? host = some spec)
      (connected : (d.transport.connect spec).outcome.After l₁ (.done (.ok c)))
      (installer : d.installer = some i) (needed : d.transport.needsAgent = true)
      (failed : (i.ensure c).outcome.After l₂ (.done (.error e))) :
      Account d host job (l₁ ++ l₂) [] (some e)
  | unstarted {l₁ l₂ : List Exchange} {c : Connection} {e : TransportError}
      (reached : (d.reach host).outcome.After l₁ (.done (.ok c)))
      (failed : (c.start d.settings.command (job.encode d.settings.compression)).outcome.After l₂
        (.done (.error e))) :
      Account d host job (l₁ ++ l₂) [] (some (.transport e))
  | started {l₁ l₂ l₃ : List Exchange} {c : Connection} {process : AgentProcess}
      {rs : List TaskResult} {fault : Option DeployError}
      (reached : (d.reach host).outcome.After l₁ (.done (.ok c)))
      (started : (c.start d.settings.command (job.encode d.settings.compression)).outcome.After l₂
        (.done (.ok process)))
      (left : process.Leaves host rs fault) :
      Account d host job (l₁ ++ (l₂ ++ l₃)) rs fault

/-- The end of an attempt by what went wrong. -/
def ended : Option DeployError → Except DeployError Unit
  | none => .ok ()
  | some e => .error e

theorem account_of_unreached {e : DeployError}
    (failed : (d.reach host).outcome.After l (.done (.error e))) :
    Account d host job l [] (some e) := by
  unfold Deployment.reach at failed
  cases spec : HostSpec.parse? host with
  | none =>
      rw [spec] at failed
      obtain ⟨rfl, same⟩ := Action.after_done.1 failed
      cases same
      exact .nowhere spec
  | some spec' =>
      rw [spec] at failed
      obtain ⟨_, same, failed⟩ | ⟨l₁, l₂, c, rfl, connected, failed⟩ :=
        Attempt.after_bind.1 failed
      · obtain ⟨found, refused, told⟩ := Attempt.after_mapError.1 failed
        cases same
        cases found with
        | ok c => cases told
        | error e' =>
            cases told
            exact .unconnected spec refused
      · obtain ⟨found, connected, same⟩ := Attempt.after_mapError.1 connected
        cases found with
        | error e' => cases same
        | ok c' =>
            cases same
            cases installer : d.installer with
            | none =>
                rw [installer] at failed
                cases (Action.after_done.1 failed).2
            | some i =>
                rw [installer] at failed
                dsimp only at failed
                split at failed
                · next needed =>
                  obtain ⟨_, same, failed⟩ | ⟨_, _, _, _, _, failed⟩ := Attempt.after_bind.1 failed
                  · cases same
                    exact .uninstalled spec connected installer needed failed
                  · cases (Action.after_done.1 failed).2
                · cases (Action.after_done.1 failed).2

/-- All results of an agent are handed over, each under the name of the host. -/
theorem after_deliver {found : Option DeployError}
    (after : (deliver host rs).After log (.done found)) (taken : ∀ e ∈ log, e.IsTaken) :
    found = none ∧ reported log = rs.map (stamp host) := by
  induction rs generalizing log with
  | nil =>
      obtain ⟨rfl, same⟩ := Action.after_done.1 after
      exact ⟨Action.done.inj same, rfl⟩
  | cons r rs ih =>
      obtain ⟨reply, rest, rfl, delivered⟩ := Action.after_ask_done.1 after
      obtain ⟨took, takes⟩ := List.forall_mem_cons.1 taken
      cases took
      obtain ⟨rfl, results⟩ := ih delivered takes
      exact ⟨rfl, congrArg (stamp host r :: ·) results⟩

/-- What an agent left accounts for what is found wrong with it. -/
theorem leaves_of_reads {process : AgentProcess} {broken : Option Wire.RecordError}
    {report : ExitReport} (reads : Wire.Reads process.output rs broken)
    (exit : process.exit = .ok report) :
    process.Leaves host rs ((broken.map streamFault).or (exitFault? host report)) := by
  cases broken with
  | some e => exact .broken reads exit
  | none =>
      cases good : report.success with
      | false => simpa [exitFault?, good] using AgentProcess.Leaves.exited reads exit good
      | true => simpa [exitFault?, good] using AgentProcess.Leaves.well reads exit good

/-- The work on a host once its agent was started. -/
def attend (host : String) (c : Connection) (process : AgentProcess) :
    Attempt DeployError Unit := do
  let (results, broken) := Wire.resultsUntilError process.output
  let dropped ← deliver host results
  let exit ← ExceptT.mk (pure (process.exit.mapError .transport))
  let _ ← c.close.outcome
  match (dropped.or (broken.map streamFault)).or (exitFault? host exit) with
  | some e => throw e
  | none => return ()

theorem converge_eq : d.converge host job = (do
    let c ← d.reach host
    let process ←
      (c.start d.settings.command (job.encode d.settings.compression)).mapError .transport
    attend host c process) := rfl

/-- Whoever attends to an agent hands over what it left, and nothing else. -/
theorem after_attend {c : Connection} {process : AgentProcess} {found : Except DeployError Unit}
    (quiet : c.IsQuiet) (after : (attend host c process).outcome.After log (.done found))
    (taken : ∀ e ∈ log, e.IsTaken) :
    ∃ rs fault, process.Leaves host rs fault ∧ found = ended fault ∧
      reported log = rs.map (stamp host) := by
  unfold attend at after
  have reads := Wire.reads_untilError process.output
  generalize Wire.resultsUntilError process.output = reading at after reads
  obtain ⟨rs, broken⟩ := reading
  obtain ⟨l₁, rest, dropped, rfl, delivered, after⟩ := Attempt.after_lift_bind.1 after
  obtain ⟨rfl, results⟩ := after_deliver delivered fun e member => taken e (by simp [member])
  cases exit : process.exit with
  | error e =>
      rw [exit] at after
      obtain ⟨rfl, same⟩ := Action.after_done.1 after
      cases same
      rw [List.append_nil]
      exact ⟨rs, _, .lost reads exit, rfl, results⟩
  | ok report =>
      rw [exit] at after
      obtain ⟨l₂, rest, _, rfl, closed, after⟩ := Attempt.after_lift_bind.1 after
      have silent := quiet.close.outcome.reported_eq closed
      have leaves : process.Leaves host rs
          ((broken.map streamFault).or (exitFault? host report)) :=
        leaves_of_reads reads exit
      rw [Option.none_or] at after
      generalize (broken.map streamFault).or (exitFault? host report) = fault at after leaves
      refine ⟨rs, fault, leaves, ?_⟩
      cases fault with
      | none =>
          obtain ⟨rfl, same⟩ := Action.after_done.1 after
          cases same
          exact ⟨rfl, by simp [results, silent]⟩
      | some e =>
          obtain ⟨rfl, same⟩ := Action.after_done.1 after
          cases same
          exact ⟨rfl, by simp [results, silent]⟩

/-- The work on a host goes in one of its ways and hands over the results that belong to it. -/
theorem after_converge (quiet : d.IsQuiet) {found : Except DeployError Unit}
    (after : (d.converge host job).outcome.After log (.done found))
    (taken : ∀ e ∈ log, e.IsTaken) :
    ∃ rs fault, Account d host job log rs fault ∧ found = ended fault ∧
      reported log = rs.map (stamp host) := by
  rw [converge_eq] at after
  obtain ⟨e, rfl, failed⟩ | ⟨l₁, rest, c, rfl, reached, after⟩ := Attempt.after_bind.1 after
  · exact ⟨[], some e, account_of_unreached failed, rfl, (quiet.reach host).reported_eq failed⟩
  have way := (quiet.reach host).reported_eq reached
  have connection := (quiet.reach host).of_after reached c rfl
  obtain ⟨_, rfl, failed⟩ | ⟨l₂, l₃, process, rfl, started, after⟩ := Attempt.after_bind.1 after
  · obtain ⟨answer, refused, told⟩ := Attempt.after_mapError.1 failed
    cases answer with
    | ok process => cases told
    | error e =>
        cases told
        refine ⟨[], _, .unstarted reached refused, rfl, ?_⟩
        rw [Host.reported_append, way, (connection.start _ _).reported_eq refused]
        rfl
  · obtain ⟨answer, started, told⟩ := Attempt.after_mapError.1 started
    cases answer with
    | error e => cases told
    | ok process =>
        cases told
        have work := (connection.start _ _).reported_eq started
        obtain ⟨rs, fault, left, rfl, results⟩ := after_attend connection after
          fun e member => taken e (by simp [member])
        refine ⟨rs, fault, .started reached started left, rfl, ?_⟩
        rw [Host.reported_append, Host.reported_append, way, work, results]
        rfl

/-- What is received from a host, by the whole dialogue of its unit: what the agent left, each
result under the name of the host, and one failure behind it if and only if the work on the host
failed. -/
def Delivers (d : Deployment) (host : String) (job : Job) (dialogue : List Exchange)
    (received : List TaskResult) : Prop :=
  ∃ began l rest rs fault nanoseconds, dialogue = ⟨.clock, began⟩ :: (l ++ rest) ∧
    (d.converge host job).outcome.After l (.done (ended fault)) ∧ Account d host job l rs fault ∧
    received = rs.map (stamp host) ++ fault.toList.map (failure host · nanoseconds)

theorem Delivers.host_eq {received : List TaskResult}
    (delivers : Delivers d host job log received) :
    ∀ r ∈ received, r.host = host := by
  obtain ⟨-, -, -, rs, fault, nanoseconds, -, -, -, rfl⟩ := delivers
  intro r member
  rcases List.mem_append.1 member with member | member
  · obtain ⟨_, -, rfl⟩ := List.mem_map.1 member
    rfl
  · obtain ⟨_, -, rfl⟩ := List.mem_map.1 member
    rfl

/-- A host whose name is no spec is reported as failed, and nothing else is received of it. -/
theorem Delivers.of_unnamed {received : List TaskResult}
    (delivers : Delivers d host job log received) (unnamed : HostSpec.parse? host = none) :
    ∃ nanoseconds, received = [failure host (.transport (.invalidSpec host)) nanoseconds] := by
  obtain ⟨-, l, -, rs, fault, nanoseconds, -, -, account, rfl⟩ := delivers
  have unreached {l c} (reached : (d.reach host).outcome.After l (.done (.ok c))) : False := by
    unfold Deployment.reach at reached
    rw [unnamed] at reached
    cases (Action.after_done.1 reached).2
  cases account with
  | nowhere => exact ⟨nanoseconds, rfl⟩
  | unconnected named => cases named.symm.trans unnamed
  | uninstalled named => cases named.symm.trans unnamed
  | unstarted reached => cases unreached reached
  | started reached => cases unreached reached

/-- A unit of work that is done has handed over what its dialogue says. -/
theorem after_unit (quiet : d.IsQuiet) (after : (d.unit host job).After log (.done ()))
    (taken : ∀ e ∈ log, e.IsTaken) : Delivers d host job log (reported log) := by
  obtain ⟨_, _, began, rfl, asked, work⟩ := Action.after_bind.1 after
  obtain rfl := Action.after_perform.1 asked
  obtain ⟨l, rest, found, rfl, converged, behind⟩ := Action.after_bind.1 work
  obtain ⟨rs, fault, account, rfl, results⟩ := after_converge quiet converged
    fun e member => taken e (by simp [member])
  cases fault with
  | none =>
      obtain ⟨rfl, -⟩ := Action.after_done.1 behind
      refine ⟨began, l, [], rs, none, 0, rfl, converged, account, ?_⟩
      show reported (l ++ []) = _ ++ []
      rw [List.append_nil, List.append_nil, results]
  | some e =>
      obtain ⟨_, _, stopped, rfl, asked, reporting⟩ := Action.after_bind.1 behind
      obtain rfl := Action.after_perform.1 asked
      obtain ⟨_, left, reply, rfl, asked, nothing⟩ := Action.after_bind.1 reporting
      obtain rfl := Action.after_perform.1 asked
      obtain ⟨rfl, -⟩ := Action.after_done.1 nothing
      refine ⟨began, l, _, rs, some e, stopped - began, rfl, converged, account, ?_⟩
      show reported (l ++ [_, _]) = _
      rw [Host.reported_append, results]
      rfl

end Deployment

end Fleet
