/-
# Jobs read back

A frame is read back as the frame that was written: the member that tells its kind is taken out and
what is left is the record of a header or of a play. So an agent that reads the stream of a job
meets its header, its plays in their order and the end of the stream (`frames_encode`).
-/

import Fleet.Proofs.Playbook.Record
import Fleet.Proofs.Wire.Record
import Fleet.Wire.Stream

namespace Fleet

namespace Wire.Frame

variable {members : List (String × Json)} {kind : String} {vars : Vars} {p : Play}

section Tag

variable (tag : Json) (apart : "frame" ∉ members.map (·.1))

include apart

theorem get?_frame_ofList :
    (Dict.ofList (("frame", tag) :: members)).get? "frame" = some tag := by
  rw [Dict.get?_ofList, List.reverse_cons, Dict.lookupEntry_append,
    Dict.lookupEntry_eq_none_iff.2 (by simpa using apart)]
  rfl

theorem erase_frame_ofList :
    (Dict.ofList (("frame", tag) :: members)).erase "frame" = Dict.ofList members := by
  have behind : Dict.lookupEntry "frame" members.reverse = none :=
    Dict.lookupEntry_eq_none_iff.2 (by simpa using apart)
  refine Dict.ext_get? fun k => ?_
  rw [Dict.get?_erase, Dict.get?_ofList, Dict.get?_ofList, List.reverse_cons,
    Dict.lookupEntry_append]
  by_cases same : k = "frame"
  · rw [if_pos same, same, behind]
  · simp [Dict.lookupEntry, same]

theorem filter_entries_frame :
    (Dict.ofList (("frame", tag) :: members)).entries.filter (fun m => m.1 = "frame") =
        [("frame", tag)] ∧
      (Dict.ofList (("frame", tag) :: members)).entries.filter (fun m => m.1 ≠ "frame") =
        (Dict.ofList members).entries :=
  ⟨Dict.filter_key_entries (get?_frame_ofList tag apart),
    congrArg Dict.entries (erase_frame_ofList tag apart)⟩

/-- What stands beside the kind of a frame is read as the record of that kind. -/
theorem ofJson?_ofMembers :
    ofJson? (Json.ofMembers (("frame", .str kind) :: members)) =
      ofParts? kind (Json.ofMembers members) := by
  obtain ⟨tagged, left⟩ := filter_entries_frame (.str kind) apart
  rw [Json.ofMembers, Json.ofDict, ofJson?, tagged, left]
  rfl

end Tag

theorem ofJson?_header (each : ∀ v ∈ vars.values, v.IsExact) :
    ofJson? (header vars).toJson = some (header vars) := by
  have fields : (Json.ofMembers [("vars", Json.ofDict vars)]).fields? ["vars"] =
      some (Dict.ofList [("vars", Json.ofDict vars)]) := Json.fields?_ofMembers (List.Subset.refl _)
  have given : (Dict.ofList [("vars", Json.ofDict vars)]).get? "vars" = some (Json.ofDict vars) :=
    rfl
  rw [toJson, ofJson?_ofMembers (by simp), ofParts?, if_pos rfl, fields, Option.bind_eq_bind,
    Option.bind_some, Json.Fields.optional_dict given each]
  rfl

theorem ofJson?_play (each : p.IsExact) : ofJson? (play p).toJson = some (play p) := by
  have apart : "frame" ∉ p.members.map (·.1) := fun member =>
    absurd ((Play.sublist_members p).subset member) (by decide)
  rw [toJson, ofJson?_ofMembers apart, ofParts?, if_neg (by decide), if_pos rfl]
  exact congrArg (Option.map play) each.ofJson?_toJson

end Wire.Frame

namespace Job

variable {j : Job}

/-- The values that a job carries are exact. -/
structure IsExact (j : Job) : Prop where
  vars : ∀ v ∈ j.vars.values, v.IsExact
  plays : ∀ p ∈ j.plays, p.IsExact

instance : DecidablePred IsExact := fun j =>
  decidable_of_iff ((∀ v ∈ j.vars.values, v.IsExact) ∧ ∀ p ∈ j.plays, p.IsExact)
    ⟨fun h => ⟨h.1, h.2⟩, fun h => ⟨h.vars, h.plays⟩⟩

theorem IsExact.isIntegral_frames (each : j.IsExact) : ∀ f ∈ j.frames, f.toJson.IsIntegral := by
  refine List.forall_mem_cons.2 ⟨?_, List.forall_mem_map.2 fun p member => ?_⟩
  · exact Json.isIntegral_ofMembers (List.forall_mem_cons.2
      ⟨trivial, List.forall_mem_singleton.2 (Json.isIntegral_ofDict each.vars)⟩)
  · exact Json.isIntegral_ofMembers
      (List.forall_mem_cons.2 ⟨trivial, (each.plays p member).isIntegral_members⟩)

theorem IsExact.ofJson?_frames (each : j.IsExact) :
    ∀ f ∈ j.frames, Wire.Frame.ofJson? f.toJson = some f :=
  List.forall_mem_cons.2 ⟨Wire.Frame.ofJson?_header each.vars, List.forall_mem_map.2 fun p member =>
    Wire.Frame.ofJson?_play (each.plays p member)⟩

/-- What an agent reads from the stream of a job: the header with the job's variables, the plays in
their order, each as it was, and the end. -/
theorem frames_encode (each : j.IsExact)
    (within : ∀ f ∈ j.frames, f.toJson.depth < Json.depthLimit) (c : Wire.Compression) :
    Wire.frames c (j.encode c) =
      .ok (.header j.vars) :: j.plays.map fun p => .ok (.play p) := by
  rw [Wire.frames, encode, c.unpack?_pack]
  show Wire.records _ _ = _
  rw [stream, Wire.records_flatMap each.isIntegral_frames within each.ofJson?_frames, frames,
    List.map_cons, List.map_map]
  rfl

namespace Sample

/-- A text that looks like the end of one frame and the start of another. -/
def trap : String := "done\"\x7d\n\x7b\"frame\":\"header\",\"vars\":\x7b\x7d\x7d\r\n"

/-- A task with every field, blank and odd values among them. -/
def task : Task where
  runner := "debug"
  name := " \t"
  args := Dict.ofList [("frame", .str trap), ("msg", .str ""), ("list", .arr [.null, .bool true])]
  guard := some trap
  notify := ["frame", ""]
  loop := [.int Json.greatestInt, .int Json.leastInt, .obj [("a", .arr []), ("b", .obj [])]]
  tags := ["\\"]
  vars := Dict.ofList [("frame", .str "play")]

/-- A job with a play of such tasks and one in which everything is empty. -/
def job : Job where
  vars := Dict.ofList [("frame", .str "header"), ("vars", .str trap)]
  plays := [{ name := trap, hosts := ["web"], tasks := [task, { runner := "" }],
              handlers := [{ runner := "tree", name := "frame" }], preRun := ["\n"] }, {}]

end Sample

/-- No text of the sample breaks out of its frame. -/
theorem frames_encode_sample : Sample.job.IsExact ∧
    (∀ f ∈ Sample.job.frames, f.toJson.depth < Json.depthLimit) ∧
    ∀ c : Wire.Compression, Wire.frames c (Sample.job.encode c) =
      .ok (.header Sample.job.vars) :: Sample.job.plays.map fun p => .ok (.play p) :=
  have each : Sample.job.IsExact := by decide +kernel
  have within : ∀ f ∈ Sample.job.frames, f.toJson.depth < Json.depthLimit := by decide +kernel
  ⟨each, within, frames_encode each within⟩

end Job

end Fleet
