/-
# Counting results

Per host, how many results came in and how they ended; and every failure, in the order of arrival.
Nothing here looks at the order of results of different hosts but the list of failures.
-/

import Fleet.Result

namespace Fleet.Report

/-- The counters of one host. -/
structure HostStats where
  /-- How many results are expected. -/
  total : Nat := 0
  done : Nat := 0
  ok : Nat := 0
  changed : Nat := 0
  failed : Nat := 0
  skipped : Nat := 0
  deriving DecidableEq, Repr, Inhabited

namespace HostStats

/-- The counters after one more result. -/
def record (s : HostStats) (r : TaskResult) : HostStats where
  total := s.total
  done := s.done + 1
  ok := if r.status = .success then s.ok + 1 else s.ok
  changed := if r.changed then s.changed + 1 else s.changed
  failed := if r.status = .failed then s.failed + 1 else s.failed
  skipped := if r.status = .skipped then s.skipped + 1 else s.skipped

/-- Counter by counter, the sum. -/
def add (a b : HostStats) : HostStats where
  total := a.total + b.total
  done := a.done + b.done
  ok := a.ok + b.ok
  changed := a.changed + b.changed
  failed := a.failed + b.failed
  skipped := a.skipped + b.skipped

end HostStats

/-- What has been counted so far. -/
structure Summary where
  hosts : Dict String HostStats := ∅
  /-- Every failed result, first one first. -/
  failures : List TaskResult := []
  deriving DecidableEq

namespace Summary

/-- Nothing counted yet, for hosts that are to report so many results. -/
def start (totals : Dict String Nat) : Summary where
  hosts := totals.mapValues fun _ total => { total }

/-- The counters of a host; one that nobody announced starts from zero. -/
def stats (s : Summary) (host : String) : HostStats := (s.hosts.get? host).getD {}

/-- Count a result. -/
def record (s : Summary) (r : TaskResult) : Summary where
  hosts := s.hosts.insert r.host ((s.stats r.host).record r)
  failures := if r.isFailed then s.failures ++ [r] else s.failures

/-- Count results one by one. -/
def recordAll (s : Summary) (rs : List TaskResult) : Summary := rs.foldl record s

/-- Whether some result was a failure. -/
def hasFailures (s : Summary) : Bool := !s.failures.isEmpty

/-- The counters of all hosts together. -/
def totals (s : Summary) : HostStats := s.hosts.values.foldl HostStats.add {}

end Summary

end Fleet.Report
