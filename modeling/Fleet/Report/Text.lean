/-
# Reports

One line for each result with its output below where something changed or failed, a recap by host
at the end, and a digest of the failures.
-/

import Fleet.Report.Stats
import Fleet.Report.Style

namespace Fleet.Report

/-- The word for how a task ended, in its color. -/
def statusText (color : Color) (r : TaskResult) : String :=
  match r.status, r.changed with
  | .failed, _ => styled color boldRed 8 "failed"
  | .skipped, _ => styled color cyan 8 "skipped"
  | .success, true => styled color yellow 8 "changed"
  | .success, false => styled color green 8 "ok"

/-- The line for a result, given the counters of its host after it. -/
def resultLine (color : Color) (stats : HostStats) (r : TaskResult) : String :=
  let label := (r.task.map Task.text).getD ""
  let total := max stats.total stats.done
  let host := styled color bold 0 r.host
  let status := statusText color r
  s!"[{stats.done}/{total}] {host} {status} {label} ({r.seconds}s)"

/-- The line and the output of a result, each line ended. -/
def resultText (color : Color) (stats : HostStats) (r : TaskResult) : String :=
  let shown := if r.changed || r.isFailed then r.lines else []
  resultLine color stats r ++ "\n" ++
    String.join (shown.map fun l => "    " ++ styled color dimmed 0 l ++ "\n")

/-- A number filled up to a width of four. -/
def counter (n : Nat) : String := String.ofList (padTo 4 (toString n).toList)

/-- The recap of a host. -/
def recapLine (color : Color) (host : String) (s : HostStats) : String :=
  styled color bold 24 host ++ " ok=" ++ counter s.ok ++ " changed=" ++ counter s.changed ++
    " failed=" ++ counter s.failed ++ " skipped=" ++ counter s.skipped ++ "\n"

/-- The recap of all hosts, after an empty line. -/
def recap (color : Color) (s : Summary) : String :=
  "\n" ++ String.join (s.hosts.entries.map fun h => recapLine color h.1 h.2)

/-- The summary and the text after each result. -/
def steps (color : Color) (s : Summary) : List TaskResult → List String × Summary
  | [] => ([], s)
  | r :: rest =>
    let next := s.record r
    let (texts, last) := steps color next rest
    (resultText color (next.stats r.host) r :: texts, last)

/-- The whole report. -/
def fullText (color : Color) (s : Summary) (rs : List TaskResult) : String :=
  let (texts, last) := steps color s rs
  String.join texts ++ recap color last

/-- The digest of one failure. -/
def failureText (color : Color) (r : TaskResult) : String :=
  styled color bold 0 r.host ++ " " ++ (r.task.map Task.label).getD "" ++ "\n" ++
    String.join (r.lines.map fun l => "    " ++ styled color red 0 l ++ "\n")

/-- The host and the output of every failure, if there is one. -/
def digest? (color : Color) (s : Summary) : Option String :=
  if s.hasFailures then
    some (styled color boldRed 0 "FAILURES" ++ "\n" ++
      String.join (s.failures.map (failureText color)))
  else none

end Fleet.Report
