/-
# Frames

A job travels as frames: a header with its variables, then one frame a play. A frame is an object
with the member `frame`, or an array that starts with the frame's kind.
-/

import Fleet.Job.Basic
import Fleet.Wire.Record

namespace Fleet.Wire

/-- One record of a job on its way. -/
inductive Frame where
  | header (vars : Vars)
  | play (p : Play)
  deriving DecidableEq

namespace Frame

/-- The word for a kind of frame. -/
def kind : Frame → String
  | header _ => "header"
  | play _ => "play"

/-- The record that writes a frame. -/
def toJson : Frame → Json
  | header vars => Json.ofMembers [("frame", .str "header"), ("vars", Json.ofDict vars)]
  | play p => Json.ofMembers (("frame", .str "play") :: p.members)

/-- The frame of a kind, from what stands beside the kind. -/
def ofParts? (kind : String) (rest : Json) : Option Frame :=
  if kind = "header" then do
    let fields ← rest.fields? ["vars"]
    (fields.optional "vars" ∅ Json.asDict?).map header
  else if kind = "play" then (Play.ofJson? rest).map play
  else none

/-- The frame that a value writes. -/
def ofJson? : Json → Option Frame
  | .obj members =>
    match members.filter fun m => m.1 = "frame" with
    | [(_, .str kind)] => ofParts? kind (.obj (members.filter fun m => m.1 ≠ "frame"))
    | _ => none
  | .arr (.str kind :: rest) => ofParts? kind (.arr rest)
  | _ => none

end Frame

end Wire

/-- The frames of a job: its header, and its plays in their order. -/
def Job.frames (j : Job) : List Wire.Frame := .header j.vars :: j.plays.map .play

/-- The stream of a job, before it is packed. -/
def Job.stream (j : Job) : Bytes := j.frames.flatMap fun f => Wire.encodeRecord f.toJson

end Fleet
