/-
# What is received from all hosts

The units of a launch share one queue, and whoever receives takes the results from there as they
come. Still nothing is lost, doubled or put down to another host: of each host exactly that is
received which its own dialogue accounts for, and what else goes on changes nothing of it
(`received_by_host`).

Whether hosts are worked on side by side or one after the other, what comes back is a receipt: of
each host what its dialogue accounts for. A receipt holds no failure exactly if every agent was
reached, was started, ended well and wrote nothing but results that are none (`Receipt.well_iff`).
How many results an agent has to write is nowhere asked.
-/

import Fleet.Host.Machine
import Fleet.Proofs.Deploy.Schedule
import Fleet.Proofs.Deploy.Unit
import Fleet.Proofs.Dict

namespace Fleet.Deployment

open Host (Action reported silent Machine)
open Schedule (Logged Pool Run Step own start)

variable {σ : Type} {h : Action.Handler σ} {d : Deployment} {jobs : Dict String Job} {world : σ}
variable {p : Pool σ} {k : Nat} {host : String} {job : Job}

theorem getElem?_units (entry : jobs.entries[k]? = some (host, job)) :
    (d.units jobs)[k]? = some (d.unit host job) := by
  simp [units, entry]

/-- In a run that is over, every unit has handed over what its dialogue says. -/
theorem delivers_of_logged (quiet : d.IsQuiet) {log} (logged : Logged h (start d jobs world) log p)
    (finished : p.isOver = true) (entry : jobs.entries[k]? = some (host, job)) :
    Delivers d host job (own k log) (reported (own k log)) :=
  after_unit quiet (logged.after_done finished (getElem?_units entry)) logged.taken_own

theorem received_filter (quiet : d.IsQuiet) {log} (logged : Logged h (start d jobs world) log p)
    (finished : p.isOver = true) (entry : jobs.entries[k]? = some (host, job)) :
    p.received.filter (fun r => r.host = host) = reported (own k log) := by
  rw [logged.received_eq finished rfl rfl]
  apply Schedule.reported_filter jobs.nodup_keys
  · intro e member
    simpa [start, units, Dict.keys] using logged.lt_of_mem e member
  · intro j other named
    rw [Dict.keys, List.getElem?_map, Option.map_eq_some_iff] at named
    obtain ⟨⟨_, job⟩, entry, rfl⟩ := named
    exact (delivers_of_logged quiet logged finished entry).host_eq
  · simp [Dict.keys, entry]

/-- Nothing is received from hosts that have no job. -/
theorem contains_host_of_received (quiet : d.IsQuiet) {log}
    (logged : Logged h (start d jobs world) log p) (finished : p.isOver = true) :
    ∀ r ∈ p.received, jobs.contains r.host = true := by
  intro r member
  rw [logged.received_eq finished rfl rfl] at member
  obtain ⟨_, shown, handed⟩ := List.mem_filterMap.1 member
  obtain ⟨⟨k, e⟩, asked, rfl⟩ := List.mem_map.1 shown
  have inside : k < jobs.entries.length := by
    simpa [start, units] using logged.lt_of_mem _ asked
  have entry := List.getElem?_eq_getElem inside
  have mine : e ∈ own k log :=
    List.mem_map.2 ⟨(k, e), List.mem_filter.2 ⟨asked, by simp⟩, rfl⟩
  have handedByIt : r ∈ reported (own k log) := List.mem_filterMap.2 ⟨e, mine, handed⟩
  have delivers := delivers_of_logged quiet logged finished entry
  rw [delivers.host_eq r handedByIt, Dict.contains_iff_mem_keys]
  exact List.mem_map.2 ⟨_, List.getElem_mem inside, rfl⟩

end Fleet.Deployment

namespace Fleet.Deployment

open Host (Action Attempt Exchange reported silent)
open Schedule (Logged Pool own start)

variable {σ : Type} {h : Action.Handler σ} {d : Deployment} {jobs : Dict String Job} {world : σ}
variable {host : String} {job : Job} {results rs : List TaskResult} {l log : List Exchange}
variable {dialogue : Nat → List Exchange}

/-- What comes back from the hosts of a launch, by the dialogue of each. -/
structure Receipt (d : Deployment) (jobs : Dict String Job) (dialogue : Nat → List Exchange)
    (results : List TaskResult) : Prop where
  named : ∀ r ∈ results, jobs.contains r.host = true
  delivers : ∀ k host job, jobs.entries[k]? = some (host, job) →
    Delivers d host job (dialogue k) (results.filter fun r => r.host = host)

/-- Hosts that are worked on side by side give a receipt, whatever the schedule. -/
theorem receipt_of_logged (quiet : d.IsQuiet) {p : Pool σ} {log}
    (logged : Logged h (start d jobs world) log p) (finished : p.isOver = true) :
    Receipt d jobs (own · log) p.received where
  named := contains_host_of_received quiet logged finished
  delivers k host job entry := by
    rw [received_filter quiet logged finished entry]
    exact delivers_of_logged quiet logged finished entry

theorem filter_host_of_eq (all : ∀ r ∈ rs, r.host = host) :
    rs.filter (fun r => r.host = host) = rs :=
  List.filter_eq_self.2 fun r member => decide_eq_true (all r member)

theorem filter_host_of_ne (none : ∀ r ∈ rs, r.host ≠ host) :
    rs.filter (fun r => r.host = host) = [] :=
  List.filter_eq_nil_iff.2 fun r member same => none r member (of_decide_eq_true same)

/-- Units one after the other go through their dialogues one after the other. -/
theorem delivers_of_after_units (quiet : d.IsQuiet) {entries : List (String × Job)}
    (distinct : (entries.map (·.1)).Nodup)
    (after : ((entries.map fun j => d.unit j.1 j.2).forM id).After log (.done ()))
    (taken : ∀ e ∈ log, e.IsTaken) :
    ∃ dialogue : Nat → List Exchange, log = (List.range entries.length).flatMap dialogue ∧
      (∀ r ∈ reported log, r.host ∈ entries.map (·.1)) ∧
      ∀ k host job, entries[k]? = some (host, job) →
        Delivers d host job (dialogue k) ((reported log).filter fun r => r.host = host) := by
  induction entries generalizing log with
  | nil =>
      obtain ⟨rfl, -⟩ := Action.after_done.1 after
      exact ⟨fun _ => [], rfl, nofun, nofun⟩
  | cons entry entries ih =>
      obtain ⟨l, rest, _, rfl, first, others⟩ := Action.after_bind.1 after
      obtain ⟨outside, distinct⟩ := List.nodup_cons.1 distinct
      obtain ⟨taken, takes⟩ := List.forall_mem_append.1 taken
      have delivers := after_unit quiet first taken
      obtain ⟨dialogue, rfl, hosts, delivered⟩ := ih distinct others takes
      refine ⟨fun k => k.casesOn l dialogue, ?_, ?_, ?_⟩
      · rw [List.length_cons, List.range_succ_eq_map, List.flatMap_cons, List.flatMap_map]
        rfl
      · rw [Host.reported_append]
        intro r member
        rcases List.mem_append.1 member with member | member
        · rw [delivers.host_eq r member]
          exact List.mem_cons_self
        · exact List.mem_cons_of_mem _ (hosts r member)
      · intro k host job named
        rw [Host.reported_append, List.filter_append]
        cases k with
        | zero =>
            cases named
            rw [filter_host_of_eq delivers.host_eq, filter_host_of_ne, List.append_nil]
            · exact delivers
            · rintro r member rfl
              exact outside (hosts r member)
        | succ k =>
            rw [filter_host_of_ne, List.nil_append]
            · exact delivered k host job named
            · rintro r member rfl
              rw [delivers.host_eq r member] at named
              exact outside (List.mem_map.2 ⟨_, List.mem_of_getElem? named, rfl⟩)

/-- Hosts that are worked on one after the other give a receipt. -/
theorem receipt_of_after_launch (quiet : d.IsQuiet)
    (after : (d.launch jobs).collect.After log (.done ((), results))) :
    ∃ dialogue : Nat → List Exchange,
      log = (List.range jobs.size).flatMap (fun k => silent (dialogue k)) ∧
      Receipt d jobs dialogue results := by
  obtain ⟨full, whole, rfl, rfl, taken⟩ := Action.after_collect after
  obtain ⟨dialogue, rfl, hosts, delivers⟩ :=
    delivers_of_after_units quiet jobs.nodup_keys whole taken
  refine ⟨dialogue, ?_, ?_, delivers⟩
  · rw [silent, List.filter_flatMap]
    rfl
  · intro r member
    rw [Dict.contains_iff_mem_keys]
    exact hosts r member

/-! ## Without a failure -/

/-- By its dialogue the work on a host went well: the agent was reached and started, it ended well,
and it wrote some results and nothing else, none of them a failure. -/
def WentWell (d : Deployment) (host : String) (job : Job) (dialogue : List Exchange)
    (rs : List TaskResult) : Prop :=
  ∃ began l₁ l₂ rest c process exit, dialogue = ⟨.clock, began⟩ :: (l₁ ++ (l₂ ++ rest)) ∧
    (d.reach host).outcome.After l₁ (.done (.ok c)) ∧
    (c.start d.settings.command (job.encode d.settings.compression)).outcome.After l₂
      (.done (.ok process)) ∧
    process.exit = .ok exit ∧ exit.success = true ∧
    Wire.results process.output = rs.map .ok ∧ ∀ r ∈ rs, r.isFailed = false

theorem Delivers.wentWell (delivers : Delivers d host job log results)
    (good : ∀ r ∈ results, r.isFailed = false) :
    ∃ rs, WentWell d host job log rs ∧ results = rs.map (stamp host) := by
  obtain ⟨began, _, rest, rs, fault, nanoseconds, rfl, -, account, rfl⟩ := delivers
  obtain ⟨written, noFault⟩ := List.forall_mem_append.1 good
  cases fault with
  | some e => cases noFault _ List.mem_cons_self
  | none =>
      refine ⟨rs, ?_, List.append_nil _⟩
      cases account with
      | @started l₁ l₂ l₃ c process _ _ reached started left =>
          cases left with
          | well read ended success =>
              obtain ⟨tail, results, last⟩ := read
              rw [List.head?_eq_none_iff.1 last, List.append_nil] at results
              refine ⟨began, l₁, l₂, l₃ ++ rest, c, process, _, ?_, reached, started, ended,
                success, results, ?_⟩
              · rw [List.append_assoc, List.append_assoc]
              · intro r member
                exact written (stamp host r) (List.mem_map_of_mem member)

/-- A receipt holds no failure exactly if the work on every host went well. -/
theorem Receipt.well_iff (receipt : Receipt d jobs dialogue results) :
    (∀ r ∈ results, r.isFailed = false) ↔
      ∀ k host job, jobs.entries[k]? = some (host, job) →
        ∃ rs, WentWell d host job (dialogue k) rs ∧
          (results.filter fun r => r.host = host) = rs.map (stamp host) := by
  constructor
  · intro good k host job entry
    exact (receipt.delivers k host job entry).wentWell fun r member =>
      good r (List.mem_of_mem_filter member)
  · intro well r member
    obtain ⟨⟨host, job⟩, entry, same⟩ := List.mem_map.1 <|
      Dict.contains_iff_mem_keys.1 (receipt.named r member)
    obtain ⟨k, entry⟩ := List.mem_iff_getElem?.1 entry
    obtain ⟨rs, ⟨-, -, -, -, -, -, -, -, -, -, -, -, -, good⟩, mine⟩ := well k host job entry
    have inside : r ∈ rs.map (stamp host) := by
      rw [← mine]
      exact List.mem_filter.2 ⟨member, decide_eq_true same.symm⟩
    obtain ⟨written, wrote, rfl⟩ := List.mem_map.1 inside
    exact good written wrote

end Fleet.Deployment
