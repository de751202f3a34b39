/-
# Counting in any order

The counters of a host are those of its own results, whatever comes in between (`stats_recordAll`),
and the failures are the failed results. So there is a digest exactly if some result failed.

Results of different hosts arrive in an order that depends on the hosts. What is counted does not:
after two sequences that hold the same results of every host in the same order, the counters are
the same, and so is the answer to whether something failed (`counters_of_interleaving`). At every
point of a sequence the counters agree with each other and with the list of failures, which is the
invariant `IsBalanced` of one step.
-/

import Mathlib.Algebra.Ring.Nat
import Fleet.Proofs.Dict
import Fleet.Report.Text

namespace Fleet.Report

variable {r : TaskResult} {rs : List TaskResult} {s : Summary} {host : String}

namespace HostStats

theorem total_foldl (s : HostStats) : (rs.foldl record s).total = s.total := by
  induction rs generalizing s with
  | nil => rfl
  | cons r rs ih => exact ih (s.record r)

theorem done_foldl (s : HostStats) : (rs.foldl record s).done = s.done + rs.length := by
  induction rs generalizing s with
  | nil => rfl
  | cons r rs ih =>
      rw [List.foldl_cons, ih, List.length_cons]
      show s.done + 1 + rs.length = _
      omega

end HostStats

namespace Summary

theorem stats_record :
    (s.record r).stats host = if r.host = host then (s.stats host).record r else s.stats host := by
  unfold stats record
  rw [Dict.get?_insert]
  by_cases same : host = r.host
  · subst same
    simp [stats]
  · simp [same, Ne.symm same]

/-- Of all results a host's counters tell its own. -/
theorem stats_recordAll : (s.recordAll rs).stats host =
    (rs.filter fun r => r.host = host).foldl HostStats.record (s.stats host) := by
  induction rs generalizing s with
  | nil => rfl
  | cons r rs ih =>
      show ((s.record r).recordAll rs).stats host = _
      rw [ih, stats_record]
      by_cases same : r.host = host <;> simp [same]

theorem failures_recordAll : (s.recordAll rs).failures = s.failures ++ rs.filter (·.isFailed) := by
  induction rs generalizing s with
  | nil => simp [recordAll]
  | cons r rs ih =>
      show ((s.record r).recordAll rs).failures = _
      rw [ih]
      cases failed : r.isFailed <;> simp [record, failed]

end Summary

theorem digest?_eq_none_iff {color : Color} : digest? color s = none ↔ s.failures = [] := by
  unfold digest? Summary.hasFailures
  cases s.failures <;> simp

end Fleet.Report

namespace Fleet

namespace Dict

variable {κ α : Type} [DecidableEq κ] [LT κ] [LE κ] [DecidableLT κ] [Std.IsLinearOrder κ]
  [Std.LawfulOrderLT κ] {d : Dict κ α} {k : κ}

theorem sum_insertEntry {v : α} {l : List (κ × α)} (f : α → Nat) (sorted : l.Pairwise (·.1 < ·.1)) :
    ((insertEntry k v l).map fun b => f b.2).sum + ((lookupEntry k l).map f).getD 0 =
      (l.map fun b => f b.2).sum + f v := by
  induction l with
  | nil => simp [insertEntry, lookupEntry]
  | cons b rest ih =>
      obtain ⟨above, sorted⟩ := List.pairwise_cons.1 sorted
      have ih := ih sorted
      unfold insertEntry
      split
      · next less =>
          have unbound : lookupEntry k (b :: rest) = none := by
            refine lookupEntry_eq_none_iff.2 fun member => ?_
            obtain ⟨c, among, rfl⟩ := List.mem_map.1 member
            rcases List.mem_cons.1 among with rfl | among
            · exact Std.lt_irrefl less
            · exact Std.lt_irrefl (Std.lt_trans less (above c among))
          rw [unbound]
          simp
          omega
      · next notLess =>
          split
          · next greater =>
              have other : k ≠ b.1 := by
                rintro rfl
                exact notLess greater
              simp only [lookupEntry, if_neg other, List.map_cons, List.sum_cons]
              omega
          · next notGreater =>
              obtain rfl := eq_of_not_lt notLess notGreater
              simp [lookupEntry]
              omega

/-- In a sum over all bindings one insertion changes one summand. -/
theorem sum_values_insert {v : α} (f : α → Nat) :
    ((d.insert k v).values.map f).sum + ((d.get? k).map f).getD 0 = (d.values.map f).sum + f v := by
  unfold values
  rw [List.map_map, List.map_map]
  exact sum_insertEntry f d.sorted

end Dict

namespace Report

variable {r : TaskResult} {rs rs' : List TaskResult} {s : Summary} {host : String}

namespace HostStats

/-- Every result ended in one of three ways, and only a result tells of a change. -/
structure IsBalanced (s : HostStats) : Prop where
  done_eq : s.done = s.ok + s.failed + s.skipped
  changed_le : s.changed ≤ s.done

theorem isBalanced_new (total : Nat) : IsBalanced { total } := ⟨rfl, Nat.le_refl 0⟩

theorem failed_record (s : HostStats) (r : TaskResult) :
    (s.record r).failed = if r.isFailed then s.failed + 1 else s.failed := by
  simp [record, TaskResult.isFailed]

theorem IsBalanced.record {s : HostStats} (balanced : s.IsBalanced) (r : TaskResult) :
    (s.record r).IsBalanced := by
  obtain ⟨done_eq, changed_le⟩ := balanced
  constructor
  · cases status : r.status <;> simp only [HostStats.record, status] <;> simp <;> omega
  · cases changed : r.changed <;> simp only [HostStats.record, changed] <;> simp <;> omega

theorem foldl_add (a : HostStats) (l : List HostStats) : l.foldl add a =
    { total := a.total + (l.map total).sum, done := a.done + (l.map done).sum
      ok := a.ok + (l.map ok).sum, changed := a.changed + (l.map changed).sum
      failed := a.failed + (l.map failed).sum, skipped := a.skipped + (l.map skipped).sum } := by
  induction l generalizing a with
  | nil => rfl
  | cons b l ih =>
      rw [List.foldl_cons, ih]
      simp only [add, List.map_cons, List.sum_cons, Nat.add_assoc]

end HostStats

namespace Summary

/-- The counters of every host agree with each other, and all of them with the failures. -/
structure IsBalanced (s : Summary) : Prop where
  stats : ∀ host stats, s.hosts.get? host = some stats → stats.IsBalanced
  failures : s.failures.length = (s.hosts.values.map (·.failed)).sum

/-- The counters of all hosts together are those of the hosts added up, one by one. -/
theorem totals_eq (s : Summary) : s.totals =
    { total := (s.hosts.values.map (·.total)).sum, done := (s.hosts.values.map (·.done)).sum
      ok := (s.hosts.values.map (·.ok)).sum, changed := (s.hosts.values.map (·.changed)).sum
      failed := (s.hosts.values.map (·.failed)).sum
      skipped := (s.hosts.values.map (·.skipped)).sum } := by
  simp only [totals, HostStats.foldl_add, Nat.zero_add]

theorem isBalanced_start (totals : Dict String Nat) : (start totals).IsBalanced := by
  constructor
  · intro host stats bound
    rw [start, Dict.get?_mapValues, Option.map_eq_some_iff] at bound
    obtain ⟨total, -, rfl⟩ := bound
    exact HostStats.isBalanced_new total
  · have zeros : (start totals).hosts.values.map (·.failed) =
        totals.entries.map fun _ => 0 := by
      simp only [start, Dict.values, Dict.mapValues, List.map_map]
      rfl
    rw [zeros, List.map_const', List.sum_replicate_nat, Nat.mul_zero]
    rfl

/-- A host that nobody announced has the counters of one that reported nothing. -/
theorem IsBalanced.stats_of_host (balanced : s.IsBalanced) (host : String) :
    (s.stats host).IsBalanced := by
  unfold Summary.stats
  cases bound : s.hosts.get? host with
  | none => exact HostStats.isBalanced_new 0
  | some stats => exact balanced.stats host stats bound

theorem IsBalanced.record (balanced : s.IsBalanced) (r : TaskResult) : (s.record r).IsBalanced := by
  constructor
  · intro host stats bound
    rw [Summary.record, Dict.get?_insert] at bound
    split at bound
    · cases bound
      exact (balanced.stats_of_host r.host).record r
    · exact balanced.stats host stats bound
  · -- of all sums only the summand of the result's host changes
    have sum := Dict.sum_values_insert (d := s.hosts) (k := r.host)
      (v := (s.stats r.host).record r) (·.failed)
    have before : ((s.hosts.get? r.host).map (·.failed)).getD 0 = (s.stats r.host).failed := by
      unfold Summary.stats
      cases s.hosts.get? r.host <;> rfl
    have length : (s.record r).failures.length =
        if r.isFailed then s.failures.length + 1 else s.failures.length := by
      unfold Summary.record
      cases r.isFailed <;> simp
    rw [before, HostStats.failed_record, ← balanced.failures] at sum
    rw [length]
    show _ = ((s.hosts.insert r.host ((s.stats r.host).record r)).values.map (·.failed)).sum
    split at sum <;> simp only [*] <;> simp <;> omega

theorem IsBalanced.recordAll (balanced : s.IsBalanced) : (s.recordAll rs).IsBalanced := by
  induction rs generalizing s with
  | nil => exact balanced
  | cons r rs ih => exact ih (balanced.record r)

/-- Whether something failed is told by the counters alone. -/
theorem IsBalanced.hasFailures_eq (balanced : s.IsBalanced) :
    s.hasFailures = decide ((s.hosts.values.map (·.failed)).sum ≠ 0) := by
  rw [hasFailures, ← balanced.failures]
  cases s.failures <;> simp

/-- A host is counted if it was announced or reports a result. -/
theorem get?_hosts_recordAll : (s.recordAll rs).hosts.get? host =
    if (rs.filter fun r => r.host = host) = [] then s.hosts.get? host
    else some ((s.recordAll rs).stats host) := by
  induction rs generalizing s with
  | nil => rfl
  | cons r rs ih =>
      show ((s.record r).recordAll rs).hosts.get? host =
        if _ then _ else some (((s.record r).recordAll rs).stats host)
      rw [ih]
      by_cases same : r.host = host
      · subst same
        have bound : (s.record r).hosts.get? r.host = some ((s.record r).stats r.host) := by
          rw [stats_record, if_pos rfl, record, Dict.get?_insert_self]
        simp only [decide_true, List.filter_cons_of_pos, reduceCtorEq, if_false, bound]
        split
        · next none => rw [stats_recordAll, none, List.foldl_nil]
        · rfl
      · have others : (s.record r).hosts.get? host = s.hosts.get? host := by
          rw [record, Dict.get?_insert, if_neg (Ne.symm same)]
        simp [same, others]

/-- What the hosts' counters are is told by the results of each host alone. -/
theorem hosts_recordAll_congr
    (same : ∀ host, (rs.filter fun r => r.host = host) = rs'.filter fun r => r.host = host) :
    (s.recordAll rs).hosts = (s.recordAll rs').hosts := by
  refine Dict.ext_get? fun host => ?_
  rw [get?_hosts_recordAll, get?_hosts_recordAll, stats_recordAll, stats_recordAll, same host]

theorem failures_filter_recordAll (none : s.failures = []) :
    ((s.recordAll rs).failures.filter fun r => r.host = host) =
      (rs.filter fun r => r.host = host).filter (·.isFailed) := by
  rw [failures_recordAll, none, List.nil_append, List.filter_filter, List.filter_filter]
  simp only [Bool.and_comm]

theorem isSome_digest?_iff {color : Color} (none : s.failures = []) :
    (digest? color (s.recordAll rs)).isSome ↔ ∃ r ∈ rs, r.status = .failed := by
  rw [Option.isSome_iff_ne_none, ne_eq, digest?_eq_none_iff, failures_recordAll, none,
    List.nil_append, List.filter_eq_nil_iff]
  simp [TaskResult.isFailed]

end Summary

/-- Counting depends on no order but that of each host's own results; and at every point of a
sequence the counters agree with each other, with the failures and with the digest. -/
theorem counters_of_interleaving (totals : List (String × Nat)) (color : Color) :
    (∀ rs rs' : List TaskResult,
      (∀ host, (rs.filter fun r => r.host = host) = rs'.filter fun r => r.host = host) →
      let s := (Summary.start (.ofList totals)).recordAll rs
      let s' := (Summary.start (.ofList totals)).recordAll rs'
      s.hosts = s'.hosts ∧ s.totals = s'.totals ∧ s.hasFailures = s'.hasFailures ∧
        ∀ host,
          (s.failures.filter fun r => r.host = host) =
            ((rs.filter fun r => r.host = host).filter fun r => r.isFailed) ∧
          (s'.failures.filter fun r => r.host = host) =
            ((rs.filter fun r => r.host = host).filter fun r => r.isFailed)) ∧
    ∀ (rs : List TaskResult) (n : Nat),
      let s := (Summary.start (.ofList totals)).recordAll (rs.take n)
      (∀ host stats, s.hosts.get? host = some stats →
        stats.done = stats.ok + stats.failed + stats.skipped ∧ stats.changed ≤ stats.done) ∧
      s.failures.length = (s.hosts.values.map (·.failed)).sum ∧
      s.totals =
        { total := (s.hosts.values.map (·.total)).sum, done := (s.hosts.values.map (·.done)).sum
          ok := (s.hosts.values.map (·.ok)).sum, changed := (s.hosts.values.map (·.changed)).sum
          failed := (s.hosts.values.map (·.failed)).sum
          skipped := (s.hosts.values.map (·.skipped)).sum } ∧
      ((digest? color s).isSome ↔ ∃ r ∈ rs.take n, r.status = .failed) := by
  constructor
  · intro rs rs' same s s'
    have hosts : s.hosts = s'.hosts := Summary.hosts_recordAll_congr same
    have own : ∀ host, (s.failures.filter fun r => r.host = host) =
          ((rs.filter fun r => r.host = host).filter fun r => r.isFailed) ∧
        (s'.failures.filter fun r => r.host = host) =
          ((rs.filter fun r => r.host = host).filter fun r => r.isFailed) := fun host =>
      ⟨Summary.failures_filter_recordAll rfl, same host ▸ Summary.failures_filter_recordAll rfl⟩
    refine ⟨hosts, ?_, ?_, own⟩
    · unfold Summary.totals
      rw [hosts]
    · have balanced : s.IsBalanced := (Summary.isBalanced_start (.ofList totals)).recordAll
      have balanced' : s'.IsBalanced := (Summary.isBalanced_start (.ofList totals)).recordAll
      rw [balanced.hasFailures_eq, balanced'.hasFailures_eq, hosts]
  · intro rs n s
    have balanced : s.IsBalanced := (Summary.isBalanced_start (.ofList totals)).recordAll
    exact ⟨fun host stats bound => ⟨(balanced.stats host stats bound).done_eq,
      (balanced.stats host stats bound).changed_le⟩, balanced.failures, s.totals_eq,
      Summary.isSome_digest?_iff rfl⟩

namespace Sample

/-- Results of two hosts, of which one was announced. -/
def served : TaskResult := { host := "web", status := .success, changed := true }

def missed : TaskResult := { host := "db", status := .failed }

/-- The hosts finish in one order or in the other. -/
theorem same_of_each_host (host : String) :
    ([served, missed, served].filter fun r => r.host = host) =
      [missed, served, served].filter fun r => r.host = host := by
  by_cases web : "web" = host
  · subst web
    decide
  · simp [List.filter_cons, served, missed, web]

end Sample

theorem counters_of_interleaving_sample :
    (∀ host, ([Sample.served, Sample.missed, Sample.served].filter fun r => r.host = host) =
      [Sample.missed, Sample.served, Sample.served].filter fun r => r.host = host) ∧
    ((Summary.start (.ofList [("web", 2)])).recordAll
        [Sample.served, Sample.missed, Sample.served]).totals =
      { total := 2, done := 3, ok := 2, changed := 2, failed := 1, skipped := 0 } ∧
    ((Summary.start (.ofList [("web", 2)])).recordAll
        [Sample.missed, Sample.served, Sample.served]).totals =
      { total := 2, done := 3, ok := 2, changed := 2, failed := 1, skipped := 0 } := by
  refine ⟨Sample.same_of_each_host, by decide, ?_⟩
  rw [← ((counters_of_interleaving [("web", 2)] false).1 _ _ Sample.same_of_each_host).2.1]
  decide

end Report

end Fleet
