/-
# The two streams

The controller writes a job to an agent, and the agent writes results back. A packed stream that
cannot be unpacked breaks before its first frame.
-/

import Fleet.Result
import Fleet.Wire.Compression
import Fleet.Wire.Frame

namespace Fleet

/-- The bytes that an agent reads for a job. -/
def Job.encode (j : Job) (compression : Wire.Compression) : Bytes := compression.pack j.stream

namespace Wire

/-- The frames that an agent reads from some bytes. -/
def frames (compression : Compression) (bytes : Bytes) : List (Except RecordError Frame) :=
  match compression.unpack? bytes with
  | none => [.error .stream]
  | some stream => records Frame.ofJson? stream

/-- The frames up to the first line that is none. -/
def framesUntilError (compression : Compression) (bytes : Bytes) :
    List Frame × Option RecordError :=
  untilError (frames compression bytes)

/-- The line that writes a result. -/
def encodeResult (r : TaskResult) : Bytes := encodeRecord r.toJson

/-- The results that a controller reads from the output of an agent. -/
def results (bytes : Bytes) : List (Except RecordError TaskResult) :=
  records TaskResult.ofJson? bytes

/-- The results up to the first line that is none. -/
def resultsUntilError (bytes : Bytes) : List TaskResult × Option RecordError :=
  untilError (results bytes)

/-- Whether a reader of results ends with an item: it does where the stream broke. -/
def isBroken : Except RecordError TaskResult → Bool
  | .error .stream => true
  | _ => false

end Wire

end Fleet
