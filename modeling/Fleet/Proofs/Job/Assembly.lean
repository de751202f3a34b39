/-
# A playbook in slices

The job of a host holds the plays that list the host, in the order of the playbook. A play is given
to its hosts one after the other, and each of them gets it once; so after any number of plays the
jobs are the slices of the plays that are done (`IsSliced`), and at the end those of the playbook
(`Playbook.get?_assemble`). Counted by hosts or by plays, the results to expect are as many
(`Controller.jobs_slice_playbook`).
-/

import Fleet.Controller
import Fleet.Proofs.Dict
import Mathlib.Algebra.BigOperators.Group.List.Basic
import Mathlib.Algebra.Ring.Nat
import Mathlib.Data.Finset.Card

namespace Fleet

variable {p : Play} {plays done : List Play} {jobs : Dict String Job} {vars : Vars}
  {host other : String} {hosts : List String}

/-! ## Hosts of a play -/

/-- Whether a play lists a host: its list has the name, with blanks around it or without. -/
def Play.Lists (p : Play) (host : String) : Prop :=
  host ≠ "" ∧ ∃ name ∈ p.hosts, Text.trimmed name = host

instance (p : Play) : DecidablePred p.Lists := fun host =>
  inferInstanceAs (Decidable (host ≠ "" ∧ ∃ name ∈ p.hosts, Text.trimmed name = host))

theorem Play.mem_hostNames : host ∈ p.hostNames ↔ p.Lists host := by
  rw [hostNames, ← Dict.contains_iff_mem_keys, Dict.contains_setOf, List.mem_filter, List.mem_map,
    Lists, and_comm, Bool.not_eq_true', ne_eq, ← String.isEmpty_iff, Bool.not_eq_true]

/-! ## One play after the other -/

/-- The job of a host that gets these plays. Without plays there is none. -/
def Job.ofPlays? (vars : Vars) (plays : List Play) : Option Job :=
  if plays = [] then none else some { vars, plays }

/-- A host that is given a play has it behind those that it had before. -/
theorem Job.get?_addPlay (given : jobs.get? host = ofPlays? vars done) :
    (addPlay vars p jobs host).get? host = ofPlays? vars (done ++ [p]) := by
  have last : done ++ [p] ≠ [] := List.append_ne_nil_of_right_ne_nil done (List.cons_ne_nil p [])
  rw [addPlay, Dict.alter, Dict.get?_insert_self, given, ofPlays?, ofPlays?, if_neg last]
  by_cases first : done = []
  · rw [if_pos first, first]
    rfl
  · rw [if_neg first]
    rfl

theorem Job.get?_addPlay_ne (apart : other ≠ host) :
    (addPlay vars p jobs host).get? other = jobs.get? other := by
  rw [addPlay, Dict.alter, Dict.get?_insert, if_neg apart]

/-- Each of some hosts is given a play once, and the others are not. -/
theorem Job.get?_foldl_addPlay (distinct : hosts.Nodup)
    (given : jobs.get? host = ofPlays? vars done) :
    (hosts.foldl (addPlay vars p) jobs).get? host =
      ofPlays? vars (if host ∈ hosts then done ++ [p] else done) := by
  induction hosts generalizing jobs done with
  | nil => exact given
  | cons first hosts ih =>
      obtain ⟨once, rest⟩ := List.nodup_cons.1 distinct
      rw [List.foldl_cons]
      by_cases same : host = first
      · subst same
        rw [ih rest (get?_addPlay given), if_neg once, if_pos List.mem_cons_self]
      · rw [ih rest ((get?_addPlay_ne same).trans given)]
        simp only [List.mem_cons, same, false_or]

/-- The jobs are the slices of some plays. -/
def IsSliced (vars : Vars) (plays : List Play) (jobs : Dict String Job) : Prop :=
  ∀ host, jobs.get? host = Job.ofPlays? vars (plays.filter (·.Lists host))

theorem isSliced_empty : IsSliced vars [] ∅ := fun _ => rfl

/-- One more play is given to the hosts that it lists. -/
theorem IsSliced.addPlay (sliced : IsSliced vars done jobs) :
    IsSliced vars (done ++ [p]) (p.hostNames.foldl (Job.addPlay vars p) jobs) := by
  intro host
  have distinct : p.hostNames.Nodup := Dict.nodup_keys _
  rw [Job.get?_foldl_addPlay distinct (sliced host), List.filter_append]
  by_cases lists : p.Lists host
  · have kept : [p].filter (·.Lists host) = [p] := List.filter_cons_of_pos (decide_eq_true lists)
    rw [if_pos (Play.mem_hostNames.2 lists), kept]
  · rw [if_neg fun member => lists (Play.mem_hostNames.1 member),
      List.filter_cons_of_neg (by simpa using lists), List.filter_nil, List.append_nil]

theorem IsSliced.addPlays (sliced : IsSliced vars done jobs) (plays : List Play) :
    IsSliced vars (done ++ plays)
      (plays.foldl (fun jobs p => p.hostNames.foldl (Job.addPlay vars p) jobs) jobs) := by
  induction plays generalizing done jobs with
  | nil =>
      rw [List.append_nil]
      exact sliced
  | cons p plays ih =>
      have later := ih (sliced.addPlay (p := p))
      rwa [List.append_assoc, List.singleton_append] at later

/-- The jobs of a playbook are its slices. -/
theorem Playbook.get?_assemble (b : Playbook) (vars : Vars) (host : String) :
    (b.assemble vars).get? host = Job.ofPlays? vars (b.plays.filter (·.Lists host)) :=
  isSliced_empty.addPlays b.plays host

theorem Playbook.eq_of_get?_assemble {b : Playbook} {j : Job}
    (assembled : (b.assemble vars).get? host = some j) :
    j = { vars, plays := b.plays.filter (·.Lists host) } := by
  rw [get?_assemble, Job.ofPlays?] at assembled
  split at assembled
  · cases assembled
  · exact (Option.some.inj assembled).symm

/-! ## Counting results -/

/-- The values of a dictionary, key by key. -/
theorem Dict.values_eq_map_keys {κ α : Type} [DecidableEq κ] [LT κ] [LE κ]
    [Std.LawfulOrderLT κ] [Std.IsLinearOrder κ] {d : Dict κ α} {f : κ → α}
    (each : ∀ k v, d.get? k = some v → v = f k) : d.values = d.keys.map f := by
  rw [values, keys, List.map_map]
  apply List.map_congr_left
  intro b member
  exact each b.1 b.2 (get?_eq_some_iff.2 member)

/-- A number that counts for some members of a list counts as often as there are such members. -/
theorem sum_map_ite_eq (p : String → Prop) [DecidablePred p] (n : Nat) (hosts : List String) :
    (hosts.map fun host => if p host then n else 0).sum = n * (hosts.filter p).length := by
  induction hosts with
  | nil => rfl
  | cons host hosts ih =>
      rw [List.map_cons, List.sum_cons, ih, List.filter_cons]
      by_cases counts : p host
      · rw [if_pos counts, if_pos (decide_eq_true counts), List.length_cons, Nat.mul_succ,
          Nat.add_comm]
      · rw [if_neg counts, if_neg (by simpa using counts), Nat.zero_add]

/-- The results of some hosts, counted by hosts and counted by plays. -/
theorem sum_slices_eq (hosts : List String) (plays : List Play) :
    (hosts.map fun host => ((plays.filter (·.Lists host)).map Play.resultCount).sum).sum =
      (plays.map fun p => p.resultCount * (hosts.filter p.Lists).length).sum := by
  induction plays with
  | nil => simp
  | cons p plays ih =>
      have one (host : String) :
          (((p :: plays).filter (·.Lists host)).map Play.resultCount).sum =
            (if p.Lists host then p.resultCount else 0) +
              ((plays.filter (·.Lists host)).map Play.resultCount).sum := by
        rw [List.filter_cons]
        by_cases lists : p.Lists host
        · rw [if_pos (decide_eq_true lists), if_pos lists, List.map_cons, List.sum_cons]
        · rw [if_neg (by simpa using lists), if_neg lists, Nat.zero_add]
      rw [List.map_congr_left fun host _ => one host, List.sum_map_add, sum_map_ite_eq, ih,
        List.map_cons, List.sum_cons]

namespace Controller

variable {limit : List String}

/-- Whether a run takes a host in. -/
def Takes (limit : List String) (host : String) : Prop := limit = [] ∨ host ∈ limit

instance (limit : List String) : DecidablePred (Takes limit) := fun host =>
  inferInstanceAs (Decidable (limit = [] ∨ host ∈ limit))

theorem get?_select (limit : List String) (jobs : Dict String Job) (host : String) :
    (select limit jobs).get? host = if Takes limit host then jobs.get? host else none := by
  unfold select
  cases limit with
  | nil => rfl
  | cons first limit =>
      have takes : Takes (first :: limit) host ↔ (first :: limit).contains host = true := by
        rw [List.contains_iff_mem]
        exact or_iff_right (List.cons_ne_nil first limit)
      simp only [List.isEmpty_cons, Bool.false_eq_true, if_false, Dict.get?_filter, takes]
      cases jobs.get? host with
      | none => rw [Option.filter_none, ite_self]
      | some j => rfl

/-- The hosts that a play lists and a run takes in. -/
def hostsOf (limit : List String) (p : Play) : Finset String :=
  {host ∈ (p.hosts.map Text.trimmed).toFinset | host ≠ "" ∧ Takes limit host}

theorem mem_hostsOf : host ∈ hostsOf limit p ↔ p.Lists host ∧ Takes limit host := by
  rw [hostsOf, Finset.mem_filter, List.mem_toFinset, List.mem_map, Play.Lists,
    and_left_comm, and_assoc]

section Jobs

variable (b : Playbook) (vars : Vars) (limit : List String)

/-- The jobs of a run, by what the plays list. -/
theorem get?_jobs (host : String) : (select limit (b.assemble vars)).get? host =
    if Takes limit host ∧ ∃ p ∈ b.plays, p.Lists host then
      some { vars, plays := b.plays.filter (·.Lists host) }
    else none := by
  have listed : b.plays.filter (·.Lists host) = [] ↔ ¬ ∃ p ∈ b.plays, p.Lists host := by
    rw [List.filter_eq_nil_iff]
    simp
  rw [get?_select, Playbook.get?_assemble, Job.ofPlays?]
  by_cases takes : Takes limit host
  · simp only [takes, listed, true_and, if_true, ite_not]
  · simp only [takes, false_and, if_false]

theorem mem_keys_jobs : host ∈ (select limit (b.assemble vars)).keys ↔
    Takes limit host ∧ ∃ p ∈ b.plays, p.Lists host := by
  rw [← Dict.contains_iff_mem_keys, Dict.contains, get?_jobs]
  split
  · next taken => exact ⟨fun _ => taken, fun _ => rfl⟩
  · next left =>
      exact ⟨fun found => absurd found Bool.false_ne_true, fun taken => absurd taken left⟩

theorem values_jobs : (select limit (b.assemble vars)).values =
    (select limit (b.assemble vars)).keys.map fun host =>
      { vars, plays := b.plays.filter (·.Lists host) } := by
  apply Dict.values_eq_map_keys
  intro host j given
  rw [get?_jobs] at given
  split at given
  · exact (Option.some.inj given).symm
  · cases given

/-- The hosts of a run that a play lists are all hosts that it lists and the run takes in. -/
theorem length_filter_keys (play : p ∈ b.plays) :
    ((select limit (b.assemble vars)).keys.filter p.Lists).length = (hostsOf limit p).card := by
  have distinct := (Dict.nodup_keys (select limit (b.assemble vars))).filter p.Lists
  rw [← List.toFinset_card_of_nodup distinct]
  congr 1
  ext host
  rw [List.mem_toFinset, List.mem_filter, decide_eq_true_eq, mem_keys_jobs, mem_hostsOf]
  constructor
  · rintro ⟨⟨takes, -⟩, lists⟩
    exact ⟨lists, takes⟩
  · rintro ⟨lists, takes⟩
    exact ⟨⟨takes, p, play, lists⟩, lists⟩

/-- A host has a job exactly if it has a name, the run takes it in, and some play lists it, with
blanks around the name or without. The job holds the variables of the run and the plays that list
the host, each once and unchanged, in the order of the playbook. The results to expect of all jobs
are those of the tasks and handlers of each play on each of its hosts that the run takes in. -/
theorem jobs_slice_playbook :
    (∀ host, (select limit (b.assemble vars)).get? host =
      if host ≠ "" ∧ (limit = [] ∨ host ∈ limit) ∧
          ∃ p ∈ b.plays, ∃ name ∈ p.hosts, Text.trimmed name = host then
        some { vars, plays := b.plays.filter fun p => ∃ name ∈ p.hosts, Text.trimmed name = host }
      else none) ∧
    ((select limit (b.assemble vars)).values.map Job.resultCount).sum =
      (b.plays.map fun p => (p.tasks.length + p.handlers.length) *
        Finset.card {host ∈ (p.hosts.map Text.trimmed).toFinset |
          host ≠ "" ∧ (limit = [] ∨ host ∈ limit)}).sum := by
  constructor
  · intro host
    have same : (Takes limit host ∧ ∃ p ∈ b.plays, p.Lists host) ↔
        host ≠ "" ∧ (limit = [] ∨ host ∈ limit) ∧
          ∃ p ∈ b.plays, ∃ name ∈ p.hosts, Text.trimmed name = host := by
      constructor
      · rintro ⟨takes, p, play, named, listed⟩
        exact ⟨named, takes, p, play, listed⟩
      · rintro ⟨named, takes, p, play, listed⟩
        exact ⟨takes, p, play, named, listed⟩
    rw [get?_jobs]
    by_cases taken : host ≠ "" ∧ (limit = [] ∨ host ∈ limit) ∧
        ∃ p ∈ b.plays, ∃ name ∈ p.hosts, Text.trimmed name = host
    · have lists (p : Play) : p.Lists host ↔ ∃ name ∈ p.hosts, Text.trimmed name = host :=
        and_iff_right taken.1
      rw [if_pos taken, if_pos (same.2 taken)]
      simp only [lists]
    · rw [if_neg taken, if_neg fun slice => taken (same.1 slice)]
  · calc ((select limit (b.assemble vars)).values.map Job.resultCount).sum
      _ = ((select limit (b.assemble vars)).keys.map fun host =>
            ((b.plays.filter (·.Lists host)).map Play.resultCount).sum).sum := by
          rw [values_jobs, List.map_map]
          rfl
      _ = (b.plays.map fun p => p.resultCount *
            ((select limit (b.assemble vars)).keys.filter p.Lists).length).sum :=
          sum_slices_eq _ _
      _ = (b.plays.map fun p => p.resultCount * (hostsOf limit p).card).sum := by
          rw [List.map_congr_left fun p play => by rw [length_filter_keys b vars limit play]]
      _ = _ := rfl

end Jobs

end Controller

end Fleet
