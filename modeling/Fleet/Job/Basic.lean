/-
# Jobs

A job is the work of one host: the plays that list it and the variables of the run. `assemble`
slices a playbook into jobs.
-/

import Fleet.Playbook.Record

namespace Fleet

/-- The plays for one host, with the variables that hold in all of them. -/
structure Job where
  vars : Vars := ∅
  plays : List Play := []
  deriving DecidableEq

instance : Inhabited Job := ⟨⟨∅, []⟩⟩

namespace Job

/-- How many results a host reports for a job in which nothing fails. -/
def resultCount (j : Job) : Nat := (j.plays.map Play.resultCount).foldr (· + ·) 0

/-- The record that writes a job. -/
def toJson (j : Job) : Json :=
  Json.ofMembers [("vars", Json.ofDict j.vars), ("plays", .arr (j.plays.map Play.toJson))]

/-- The job that a value writes. -/
def ofJson? (value : Json) : Option Job := do
  let fields ← value.fields? ["vars", "plays"]
  let vars ← fields.optional "vars" ∅ Json.asDict?
  let plays ← fields.optional "plays" [] (Json.asList? Play.ofJson?)
  some { vars, plays }

end Job

/-- The hosts of a play: each name once, without the blanks around it, in increasing order. -/
def Play.hostNames (p : Play) : List String :=
  (Dict.setOf ((p.hosts.map Text.trimmed).filter fun h => !h.isEmpty)).keys

/-- Give a play to a host. -/
def Job.addPlay (vars : Vars) (play : Play) (jobs : Dict String Job) (host : String) :
    Dict String Job :=
  jobs.alter host { vars } fun job => { job with plays := job.plays ++ [play] }

/-- The job of every host that a play lists. -/
def Playbook.assemble (b : Playbook) (vars : Vars) : Dict String Job :=
  b.plays.foldl (fun jobs play => play.hostNames.foldl (Job.addPlay vars play) jobs) ∅

end Fleet
