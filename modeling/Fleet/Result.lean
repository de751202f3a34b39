/-
# Results

What a host reports for one task or handler: how it ended, whether anything changed, the output,
and the handlers that the change notifies. Durations are counted in nanoseconds; the record that
writes a result keeps whole microseconds in 64 bits.
-/

import Fleet.Decimal.Format
import Fleet.Playbook.Record

namespace Fleet

/-- How a task ended. -/
inductive Status where
  | success
  | failed
  | skipped
  deriving DecidableEq, Repr, Inhabited

/-- The word for a status in reports. -/
def Status.label : Status → String
  | success => "ok"
  | failed => "failed"
  | skipped => "skipped"

/-- The word for a status in records. -/
def Status.word : Status → String
  | success => "success"
  | failed => "failed"
  | skipped => "skipped"

/-- The status that a word of a record stands for. -/
def Status.ofWord? (word : String) : Option Status :=
  if word = "success" then some success
  else if word = "failed" then some failed
  else if word = "skipped" then some skipped
  else none

/-- The outcome of one task or handler on one host. -/
structure TaskResult where
  /-- The host, set where results of several hosts come together. -/
  host : String := ""
  playIndex : Nat := 0
  taskIndex : Nat := 0
  status : Status
  changed : Bool := false
  output : String := ""
  /-- How long the task took. -/
  nanoseconds : Nat := 0
  /-- The task without its internal arguments. -/
  task : Option Task := none
  /-- Handlers that the runner notifies beside those of the task. -/
  notify : KeySet String := ∅
  deriving DecidableEq

instance : Inhabited TaskResult := ⟨⟨"", 0, 0, .success, false, "", 0, none, ∅⟩⟩

namespace TaskResult

/-- A result that changed nothing yet. -/
def success (output : String) : TaskResult := { status := .success, output }

/-- A failure. -/
def failed (output : String) : TaskResult := { status := .failed, output }

/-- A result of a task that had nothing to do here. -/
def skipped (output : String) : TaskResult := { status := .skipped, output }

/-- Whether the task failed. -/
def isFailed (r : TaskResult) : Bool := r.status = .failed

/-- The handlers that a result notifies: none unless something changed. -/
def handlers (r : TaskResult) : KeySet String :=
  if r.changed then
    match r.task with
    | none => r.notify
    | some t => r.notify.union (Dict.setOf t.notify)
  else ∅

/-- The runner of the task, if the task is known. -/
def runner (r : TaskResult) : String := (r.task.map (·.runner)).getD ""

/-- The lines of the output without blanks around them, empty ones left out. -/
def lines (r : TaskResult) : List String :=
  (((Text.lines r.output.toList).map Text.trim).filter fun l => !l.isEmpty).map String.ofList

/-- The duration in seconds, with two places. -/
def seconds (r : TaskResult) : String :=
  let whole := (r.nanoseconds / 1000000000).toUInt64.toFloat
  let part := (r.nanoseconds % 1000000000).toUInt64.toFloat / 1000000000
  Decimal.twoPlaces (whole + part).toBits

/-- The result on one line. -/
def text (r : TaskResult) : String := s!"TaskResult {r.runner} from {r.host} ({r.seconds} sec)"

/-- The names of the fields, in their order. -/
def fieldNames : List String :=
  ["host", "play_idx", "task_idx", "status", "changed", "output", "duration", "task", "notify"]

/-- The duration as records keep it. -/
def microseconds (r : TaskResult) : Nat := r.nanoseconds / 1000 % 0x10000000000000000

/-- The record that writes a result. -/
def toJson (r : TaskResult) : Json :=
  Json.ofMembers <|
    (if r.host.isEmpty then [] else [("host", .str r.host)]) ++
    [("play_idx", Json.ofNat r.playIndex), ("task_idx", Json.ofNat r.taskIndex),
      ("status", .str r.status.word), ("changed", .bool r.changed), ("output", .str r.output),
      ("duration", Json.ofNat r.microseconds)] ++
    (r.task.toList.map fun t => ("task", t.toJson)) ++
    Json.memberUnlessEmpty "notify" (r.notify.keys.map .str)

/-- The greatest number that a field of a record holds. -/
def greatest : Nat := 0xFFFFFFFFFFFFFFFF

/-- The result that a value writes. -/
def ofJson? (j : Json) : Option TaskResult := do
  let fields ← j.fields? fieldNames
  let host ← fields.optional "host" "" Json.asString?
  let playIndex ← fields.optional "play_idx" 0 (Json.asNat? greatest)
  let taskIndex ← fields.optional "task_idx" 0 (Json.asNat? greatest)
  let status ← fields.required "status" (Json.asWord? Status.ofWord?)
  let changed ← fields.optional "changed" false Json.asBool?
  let output ← fields.optional "output" "" Json.asString?
  let duration ← fields.optional "duration" 0 (Json.asNat? greatest)
  let task ← fields.optional "task" none (Json.asOption? Task.ofJson?)
  let notify ← fields.optional "notify" [] Json.asStrings?
  some { host, playIndex, taskIndex, status, changed, output, task,
         nanoseconds := duration * 1000, notify := Dict.setOf notify }

end TaskResult

end Fleet
