/-
# What every reading of a job keeps

The stream of a job that holds doubles is not always read back as it was, and a play that nests too
deep is not read at all. But the play that a reader gets from the line of a play has as many tasks
and handlers, each with the runner that it had and with every argument that was exact
(`exists_keeps_of_mem_frames`). Variables that are all exact are read back as they were, those of
the header among them (`vars_of_frames_eq_header`).
-/

import Fleet.Proofs.Json.Alike
import Fleet.Proofs.Wire.Frame

namespace Fleet

open Json (Alike Fields)

variable {t t' : Task} {p p' : Play} {w : Json}

/-- All variables have exact values. -/
def Vars.AreExact (vars : Vars) : Prop := ∀ v ∈ vars.values, v.IsExact

/-- Exact variables are what is read from an alike value. -/
theorem Vars.AreExact.eq_of_asDict? {vars read : Vars} (each : vars.AreExact)
    (alike : Alike (Json.ofDict vars) w) (taken : w.asDict? = some read) : read = vars := by
  rw [alike.eq (Json.isIntegral_ofDict each), Json.asDict?_ofDict each] at taken
  exact (Option.some.inj taken).symm

/-! ## Tasks and plays -/

/-- A task has the runner of another one, every exact argument of it, and its variables if they are
exact. -/
structure Task.Keeps (t t' : Task) : Prop where
  runner : t'.runner = t.runner
  args : ∀ name v, t.args.get? name = some v → v.IsExact → t'.args.get? name = some v
  vars : t.vars.AreExact → t'.vars = t.vars

/-- The task that is read from an alike value. -/
theorem Task.keeps_of_ofJson? (alike : Alike t.toJson w) (read : ofJson? w = some t') :
    t.Keeps t' := by
  have bound (k : String) : (Dict.ofList t.members).get? k = Dict.lookupEntry k t.members :=
    Json.get?_ofList_members ((sublist_members t).nodup (by decide))
  unfold ofJson? at read
  simp only [Option.bind_eq_bind, Option.bind_eq_some_iff] at read
  obtain ⟨fields, given, runner, runs, _, _, args, takes, _, _, _, _, _, _, _, _, vars, binds,
    same⟩ := read
  obtain rfl := Option.some.inj same
  obtain ⟨_, runner', rfl⟩ := Json.exists_get?_of_fields? alike given (by decide) (bound "runner")
  obtain ⟨args', found, alikeArgs⟩ :=
    Json.exists_get?_of_fields? alike given (by decide) (bound "args")
  obtain ⟨vars', found', alikeVars⟩ :=
    Json.exists_get?_of_fields? alike given (by decide) (bound "vars")
  rw [Fields.required, runner'] at runs
  rw [Fields.optional, found] at takes
  rw [Fields.optional, found'] at binds
  exact ⟨(Option.some.inj runs).symm, fun name v => Json.get?_of_asDict? alikeArgs takes,
    fun each => each.eq_of_asDict? alikeVars binds⟩

/-- A play has the tasks and the handlers of another one as far as their runners, their exact
arguments and their variables go, and its variables if they are exact. -/
structure Play.Keeps (p p' : Play) : Prop where
  vars : p.vars.AreExact → p'.vars = p.vars
  tasks : List.Forall₂ Task.Keeps p.tasks p'.tasks
  handlers : List.Forall₂ Task.Keeps p.handlers p'.handlers

/-- The play that is read from an alike value. -/
theorem Play.keeps_of_ofJson? (alike : Alike p.toJson w) (read : ofJson? w = some p') :
    p.Keeps p' := by
  have bound (k : String) : (Dict.ofList p.members).get? k = Dict.lookupEntry k p.members :=
    Json.get?_ofList_members ((sublist_members p).nodup (by decide))
  have each (l l' : List Task) (w : Json) (alike : Alike (.arr (l.map Task.toJson)) w)
      (read : Json.asList? Task.ofJson? w = some l') : List.Forall₂ Task.Keeps l l' := by
    obtain ⟨ws, rfl, items⟩ := alike
    exact Json.forall₂_of_mapM (fun _ _ _ => Task.keeps_of_ofJson?) items read
  unfold ofJson? at read
  simp only [Option.bind_eq_bind, Option.bind_eq_some_iff] at read
  obtain ⟨fields, given, _, _, _, _, vars, binds, tasks, listed, handlers, listed', _, _, same⟩ :=
    read
  obtain rfl := Option.some.inj same
  obtain ⟨_, found'', alikeVars⟩ :=
    Json.exists_get?_of_fields? alike given (by decide) (bound "vars")
  obtain ⟨_, found, alikeTasks⟩ :=
    Json.exists_get?_of_fields? alike given (by decide) (bound "tasks")
  obtain ⟨_, found', alikeHandlers⟩ :=
    Json.exists_get?_of_fields? alike given (by decide) (bound "handlers")
  rw [Fields.optional, found] at listed
  rw [Fields.optional, found'] at listed'
  rw [Fields.optional, found''] at binds
  exact ⟨fun each => each.eq_of_asDict? alikeVars binds, each _ _ _ alikeTasks listed,
    each _ _ _ alikeHandlers listed'⟩

/-! ## Frames -/

namespace Wire

variable {f : Frame} {j : Job} {c : Compression} {vars : Vars}
  {rest : List (Except RecordError Frame)}

/-- A play is read from nothing but the frame of a play. -/
theorem exists_keeps_of_ofJson? (alike : Alike f.toJson w)
    (read : Frame.ofJson? w = some (.play p')) : ∃ p, f = .play p ∧ p.Keeps p' := by
  -- the member that tells the kind, and those beside it
  have parts (kind : String) (members : List (String × Json))
      (apart : "frame" ∉ members.map (·.1))
      (whole : Alike (Json.ofMembers (("frame", .str kind) :: members)) w) :
      ∃ rest, Frame.ofJson? w = Frame.ofParts? kind rest ∧
        Alike (Json.ofMembers members) rest := by
    obtain ⟨ms, rfl, each⟩ := whole
    obtain ⟨tagged, left⟩ := Frame.filter_entries_frame (.str kind) apart
    have tag := each.filter (· = "frame")
    have rest := each.filter (· ≠ "frame")
    rw [tagged] at tag
    rw [left] at rest
    obtain ⟨_, _, tag, rfl, rfl⟩ := tag
    exact ⟨.obj (ms.filter fun m => m.1 ≠ "frame"), by rw [Frame.ofJson?, tag], _, rfl, rest⟩
  cases f with
  | header vars =>
      obtain ⟨rest, same, -⟩ := parts "header" _ (by simp) alike
      rw [same, Frame.ofParts?, if_pos rfl] at read
      obtain ⟨fields, -, read⟩ := Option.bind_eq_some_iff.1 read
      obtain ⟨vars, -, read⟩ := Option.map_eq_some_iff.1 read
      cases read
  | play p =>
      have apart : "frame" ∉ p.members.map (·.1) := fun member =>
        absurd ((Play.sublist_members p).subset member) (by decide)
      obtain ⟨rest, same, alike⟩ := parts "play" _ apart alike
      rw [same, Frame.ofParts?, if_neg (by decide), if_pos rfl] at read
      obtain ⟨_, read, same⟩ := Option.map_eq_some_iff.1 read
      cases same
      exact ⟨p, rfl, Play.keeps_of_ofJson? alike read⟩

theorem isInked_frame (f : Frame) : isInked (Text.Utf8.encode f.toJson.printChars) = true := by
  have object : ∃ members, f.toJson = .obj members := by cases f <;> exact ⟨_, rfl⟩
  obtain ⟨members, object⟩ := object
  obtain ⟨more, starts⟩ := encode_printChars_obj members
  rw [object, starts]
  exact isInked_brace more

/-- What a reader gets from the stream of a job, frame by frame. -/
theorem map_toOption_frames_encode : (frames c (j.encode c)).map Except.toOption =
    j.frames.map fun f => readLine? Frame.ofJson? f.toJson.printChars := by
  have inked : ∀ line ∈ j.frames.map fun f => Text.Utf8.encode f.toJson.printChars,
      isInked line = true := List.forall_mem_map.2 fun f _ => isInked_frame f
  have whole : lines j.stream = j.frames.map fun f => Text.Utf8.encode f.toJson.printChars := by
    rw [← List.append_nil j.stream, Job.stream, lines_flatMap_encodeRecord]
    exact List.append_nil _
  rw [frames, Job.encode, c.unpack?_pack]
  dsimp only
  rw [map_toOption_records, lineRecords, whole, List.filter_eq_self.2 inked, List.map_map]
  exact List.map_congr_left fun f _ => lineRecord?_encode _

theorem exists_alike_of_readLine? {f' : Frame}
    (read : readLine? Frame.ofJson? f.toJson.printChars = some f') :
    ∃ w, Alike f.toJson w ∧ Frame.ofJson? w = some f' := by
  rw [readLine?] at read
  obtain ⟨w, text, read⟩ := Option.bind_eq_some_iff.1 read
  exact ⟨w, Json.alike_of_read? text, read⟩

/-- Whatever a reader gets for a play from the stream of a job keeps one of the job's plays. -/
theorem exists_keeps_of_mem_frames (member : .ok (.play p') ∈ frames c (j.encode c)) :
    ∃ p ∈ j.plays, p.Keeps p' := by
  have listed : some (.play p') ∈ (frames c (j.encode c)).map Except.toOption :=
    List.mem_map_of_mem (f := Except.toOption) member
  rw [map_toOption_frames_encode] at listed
  obtain ⟨f, sent, read⟩ := List.mem_map.1 listed
  obtain ⟨w, alike, read⟩ := exists_alike_of_readLine? read
  obtain ⟨p, rfl, keeps⟩ := exists_keeps_of_ofJson? alike read
  refine ⟨p, ?_, keeps⟩
  rcases List.mem_cons.1 sent with header | sent
  · cases header
  · obtain ⟨_, inside, same⟩ := List.mem_map.1 sent
    cases same
    exact inside

/-- The header that a reader gets from the stream of a job has the variables of the job. -/
theorem vars_of_frames_eq_header (each : j.vars.AreExact)
    (first : frames c (j.encode c) = .ok (.header vars) :: rest) : vars = j.vars := by
  have read : some (.header vars) =
      readLine? Frame.ofJson? (Frame.header j.vars).toJson.printChars := by
    have lines := congrArg (List.map Except.toOption) first
    rw [map_toOption_frames_encode, Job.frames, List.map_cons, List.map_cons] at lines
    exact (List.cons.inj lines).1.symm
  obtain ⟨w, alike, taken⟩ := exists_alike_of_readLine? read.symm
  have integral : (Frame.header j.vars).toJson.IsIntegral :=
    Json.isIntegral_ofMembers (List.forall_mem_cons.2
      ⟨trivial, List.forall_mem_singleton.2 (Json.isIntegral_ofDict each)⟩)
  rw [alike.eq integral, Frame.ofJson?_header each] at taken
  cases taken
  rfl

end Wire

end Fleet
