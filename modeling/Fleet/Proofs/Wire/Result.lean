/-
# Results read back

A result is read back as it was written but for its duration, of which whole microseconds are kept
(`results_of_pieces`). It takes one level of nesting around its task, so the task has to leave that
much room.
-/

import Fleet.Proofs.Playbook.Record
import Fleet.Proofs.Wire.Record
import Fleet.Wire.Stream

namespace Fleet

open Json (Fields)

namespace Task

variable {t : Task} {n : Nat}

/-- The record of a task is as deep as the values in the task are. -/
theorem depth_toJson_le_iff : t.toJson.depth ≤ n + 2 ↔ (∀ v ∈ t.args.values, v.depth ≤ n) ∧
    (∀ v ∈ t.vars.values, v.depth ≤ n) ∧ ∀ v ∈ t.loop, v.depth ≤ n := by
  have strings (name : String) (l : List String) :
      ∀ m ∈ Json.memberUnlessEmpty name (l.map .str), m.2.depth ≤ n + 1 :=
    Json.depth_memberUnlessEmpty (List.forall_mem_map.2 fun _ _ => Nat.zero_le n)
  have loop : (∀ m ∈ Json.memberUnlessEmpty "loop" t.loop, m.2.depth ≤ n + 1) ↔
      ∀ v ∈ t.loop, v.depth ≤ n := by
    refine ⟨fun each v member => ?_, Json.depth_memberUnlessEmpty⟩
    have some : t.loop.isEmpty = false := List.isEmpty_eq_false_iff.2 (List.ne_nil_of_mem member)
    rw [Json.memberUnlessEmpty, some] at each
    have within := each _ List.mem_cons_self
    rw [Json.depth, Nat.add_le_add_iff_right] at within
    exact Json.depthItems_le_iff.1 within v member
  rw [toJson, Json.depth_ofMembers_le_iff ((sublist_members t).nodup (by decide))]
  simp only [members, List.forall_mem_append, List.forall_mem_cons, List.forall_mem_map,
    Json.depth_ofDict_le_iff, loop]
  constructor
  · rintro ⟨⟨⟨⟨⟨-, -, args, vars, -⟩, -⟩, -⟩, loop⟩, -⟩
    exact ⟨args, vars, loop⟩
  · rintro ⟨args, vars, loop⟩
    exact ⟨⟨⟨⟨⟨Nat.zero_le _, Nat.zero_le _, args, vars, List.forall_mem_nil _⟩,
      fun _ _ => Nat.zero_le _⟩, strings "notify" t.notify⟩, loop⟩, strings "tags" t.tags⟩

/-- A task that a result may show on its way: its values are exact, and the result around it stays
within what a reader nests. -/
structure Travels (t : Task) : Prop where
  exact : t.IsExact
  within : t.toJson.depth + 1 < Json.depthLimit

theorem travels_iff : t.Travels ↔ (∀ v ∈ t.args.values, v.IsExact ∧ v.depth + 3 < Json.depthLimit) ∧
    (∀ v ∈ t.vars.values, v.IsExact ∧ v.depth + 3 < Json.depthLimit) ∧
    ∀ v ∈ t.loop, v.IsExact ∧ v.depth + 3 < Json.depthLimit := by
  have deep : t.toJson.depth + 1 < Json.depthLimit ↔
      t.toJson.depth ≤ (Json.depthLimit - 4) + 2 := by
    unfold Json.depthLimit
    omega
  have each (v : Json) : v.depth ≤ Json.depthLimit - 4 ↔ v.depth + 3 < Json.depthLimit := by
    unfold Json.depthLimit
    omega
  constructor
  · rintro ⟨exact, within⟩
    rw [deep, depth_toJson_le_iff] at within
    simp only [each] at within
    exact ⟨fun v member => ⟨exact.args v member, within.1 v member⟩,
      fun v member => ⟨exact.vars v member, within.2.1 v member⟩,
      fun v member => ⟨exact.loop v member, within.2.2 v member⟩⟩
  · rintro ⟨args, vars, loop⟩
    refine ⟨⟨fun v member => (args v member).1, fun v member => (loop v member).1,
      fun v member => (vars v member).1⟩, ?_⟩
    rw [deep, depth_toJson_le_iff]
    simp only [each]
    exact ⟨fun v member => (args v member).2, fun v member => (vars v member).2,
      fun v member => (loop v member).2⟩

instance : DecidablePred Travels := fun t =>
  decidable_of_iff (t.IsExact ∧ t.toJson.depth + 1 < Json.depthLimit)
    ⟨fun h => ⟨h.1, h.2⟩, fun h => ⟨h.1, h.2⟩⟩

end Task

namespace TaskResult

variable {r : TaskResult}

/-- A result whose numbers fit, and whose task holds exact values. -/
structure IsExact (r : TaskResult) : Prop where
  playIndex : r.playIndex ≤ greatest
  taskIndex : r.taskIndex ≤ greatest
  task : ∀ t ∈ r.task, t.IsExact

instance : DecidablePred IsExact := fun r =>
  decidable_of_iff
    (r.playIndex ≤ greatest ∧ r.taskIndex ≤ greatest ∧ ∀ t ∈ r.task.toList, t.IsExact)
    (by
      simp only [Option.mem_toList]
      exact ⟨fun h => ⟨h.1, h.2.1, h.2.2⟩, fun h => ⟨h.playIndex, h.taskIndex, h.task⟩⟩)

/-- A result that may be written: its numbers fit, and so does its task. -/
structure Travels (r : TaskResult) : Prop where
  playIndex : r.playIndex ≤ greatest
  taskIndex : r.taskIndex ≤ greatest
  task : ∀ t ∈ r.task, t.Travels

/-- The result as a reader gets it: its duration is cut to whole microseconds. -/
def arrived (r : TaskResult) : TaskResult := { r with nanoseconds := r.microseconds * 1000 }

/-- The members of the record of a result. -/
def members (r : TaskResult) : List (String × Json) :=
  (if r.host.isEmpty then [] else [("host", .str r.host)]) ++
  [("play_idx", Json.ofNat r.playIndex), ("task_idx", Json.ofNat r.taskIndex),
    ("status", .str r.status.word), ("changed", .bool r.changed), ("output", .str r.output),
    ("duration", Json.ofNat r.microseconds)] ++
  (r.task.toList.map fun t => ("task", t.toJson)) ++
  Json.memberUnlessEmpty "notify" (r.notify.keys.map .str)

theorem toJson_eq (r : TaskResult) : r.toJson = Json.ofMembers r.members := rfl

theorem sublist_members (r : TaskResult) : (r.members.map (·.1)).Sublist fieldNames := by
  have host : ((if r.host.isEmpty then [] else [("host", Json.str r.host)]).map (·.1)).Sublist
      ["host"] := by
    split
    · exact List.nil_sublist _
    · exact List.Sublist.refl _
  simp only [members, List.map_append]
  exact ((host.append (List.Sublist.refl
    ["play_idx", "task_idx", "status", "changed", "output", "duration"])).append
    Json.sublist_option).append Json.sublist_memberUnlessEmpty

theorem microseconds_le (r : TaskResult) : r.microseconds ≤ greatest :=
  Nat.le_pred_of_lt (Nat.mod_lt _ (by decide))

theorem isIntegral_ofNat {n : Nat} (bound : n ≤ greatest) : (Json.ofNat n).IsIntegral :=
  Json.isIntegral_ofNat (Int.ofNat_le.2 bound)

theorem Travels.isExact (travels : r.Travels) : r.IsExact where
  playIndex := travels.playIndex
  taskIndex := travels.taskIndex
  task t shown := (travels.task t shown).exact

theorem IsExact.isIntegral_toJson (each : r.IsExact) : r.toJson.IsIntegral := by
  rw [toJson_eq]
  refine Json.isIntegral_ofMembers ?_
  have host : ∀ m ∈ (if r.host.isEmpty then [] else [("host", Json.str r.host)]),
      m.2.IsIntegral := by
    split
    · nofun
    · exact List.forall_mem_singleton.2 trivial
  have notify : (Json.arr (r.notify.keys.map .str)).IsIntegral :=
    Json.isIntegral_arr_map fun _ _ => trivial
  simp only [members, List.forall_mem_append, List.forall_mem_cons, List.forall_mem_map,
    Option.mem_toList]
  exact ⟨⟨⟨host, isIntegral_ofNat each.playIndex, isIntegral_ofNat each.taskIndex, trivial,
    trivial, trivial, isIntegral_ofNat r.microseconds_le, nofun⟩,
    fun t shown => (each.task t shown).isIntegral_toJson⟩,
    Json.forall_mem_memberUnlessEmpty notify⟩

theorem Travels.depth_toJson_lt (travels : r.Travels) : r.toJson.depth < Json.depthLimit := by
  have host : ∀ m ∈ (if r.host.isEmpty then [] else [("host", Json.str r.host)]),
      m.2.depth ≤ 126 := by
    split
    · nofun
    · exact List.forall_mem_singleton.2 (Nat.zero_le _)
  have notify : ∀ m ∈ Json.memberUnlessEmpty "notify" (r.notify.keys.map .str),
      m.2.depth ≤ 125 + 1 :=
    Json.depth_memberUnlessEmpty (List.forall_mem_map.2 fun _ _ => Nat.zero_le _)
  refine Nat.lt_succ_of_le ?_
  rw [toJson_eq]
  refine (Json.depth_ofMembers_le_iff ((sublist_members r).nodup (by decide))).2 ?_
  simp only [members, List.forall_mem_append, List.forall_mem_cons, List.forall_mem_map,
    Option.mem_toList]
  refine ⟨⟨⟨host, Nat.zero_le _, Nat.zero_le _, Nat.zero_le _, Nat.zero_le _, Nat.zero_le _,
    Nat.zero_le _, nofun⟩, fun t shown => ?_⟩, notify⟩
  exact Nat.le_of_lt_succ (Nat.lt_of_succ_lt_succ (travels.task t shown).within)

/-- A result is read back. -/
theorem IsExact.ofJson?_toJson (each : r.IsExact) : ofJson? r.toJson = some r.arrived := by
  have fields : r.toJson.fields? fieldNames = some (Dict.ofList r.members) :=
    Json.fields?_ofMembers (sublist_members r).subset
  have given (k : String) : (Dict.ofList r.members).get? k = Dict.lookupEntry k r.members :=
    Json.get?_ofList_members ((sublist_members r).nodup (by decide))
  rw [ofJson?, fields]
  generalize Dict.ofList r.members = d at given
  simp only [members, Dict.lookupEntry_append, Dict.lookupEntry,
    Json.lookupEntry_memberUnlessEmpty, Json.lookupEntry_option] at given
  have beside {k : String} (other : k ≠ "host") : Dict.lookupEntry k
      (if r.host.isEmpty then [] else [("host", Json.str r.host)]) = none := by
    split <;> simp [Dict.lookupEntry, other]
  have host : Fields.optional d "host" "" Json.asString? = some r.host := by
    cases written : r.host.isEmpty with
    | true =>
        rw [Fields.optional, given]
        simp [Dict.lookupEntry, String.isEmpty_iff.1 written]
    | false => exact Fields.optional_string (by simp [given, written, Dict.lookupEntry])
  have rest := fun (k : String) (other : k ≠ "host") => beside other ▸ given k
  have playIndex : d.get? "play_idx" = some (.ofNat r.playIndex) := by simp [rest]
  have taskIndex : d.get? "task_idx" = some (.ofNat r.taskIndex) := by simp [rest]
  have status : d.get? "status" = some (.str r.status.word) := by simp [rest]
  have changed : d.get? "changed" = some (.bool r.changed) := by simp [rest]
  have output : d.get? "output" = some (.str r.output) := by simp [rest]
  have duration : d.get? "duration" = some (.ofNat r.microseconds) := by simp [rest]
  have task : d.get? "task" = r.task.map Task.toJson := by simp [rest]
  have notify : d.get? "notify" =
      if r.notify.keys.map Json.str ≠ [] then some (.arr (r.notify.keys.map .str)) else none := by
    simp [rest]
  have word : Json.asWord? Status.ofWord? (.str r.status.word) = some r.status := by
    cases r.status <;> rfl
  have shown : Fields.optional d "task" none (Json.asOption? Task.ofJson?) = some r.task := by
    cases shows : r.task with
    | none =>
        rw [Fields.optional, task, shows]
        rfl
    | some t =>
        refine Fields.optional_of_get? (task.trans (congrArg _ shows)) ?_
        exact congrArg (Option.map some) (each.task t shows).ofJson?_toJson
  have flag : Fields.optional d "changed" false Json.asBool? = some r.changed :=
    Fields.optional_of_get? changed rfl
  simp only [Option.bind_eq_bind, Option.bind_some, host, flag, shown,
    Fields.optional_of_get? playIndex (Json.asNat?_ofNat each.playIndex),
    Fields.optional_of_get? taskIndex (Json.asNat?_ofNat each.taskIndex),
    Fields.required_of_get? status word, Fields.optional_string output,
    Fields.optional_of_get? duration (Json.asNat?_ofNat r.microseconds_le),
    Fields.optional_strings notify, Dict.setOf_keys]
  rfl

/-- What a reader gets of written results. -/
theorem results_encode {rs : List TaskResult} (travel : ∀ r ∈ rs, r.Travels) :
    Wire.results (rs.flatMap Wire.encodeResult) = rs.map fun r => .ok r.arrived :=
  Wire.records_flatMap (fun r member => (travel r member).isExact.isIntegral_toJson)
    (fun r member => (travel r member).depth_toJson_lt)
    fun r member => (travel r member).isExact.ofJson?_toJson

/-- A duration is kept exactly if it is whole microseconds, and few enough of them. -/
theorem arrived_eq_iff (r : TaskResult) :
    r.arrived = r ↔ 1000 ∣ r.nanoseconds ∧ r.nanoseconds / 1000 < 2 ^ 64 := by
  have kept : r.arrived = r ↔ r.nanoseconds / 1000 % 2 ^ 64 * 1000 = r.nanoseconds := by
    constructor
    · exact congrArg nanoseconds
    · intro same
      exact congrArg (fun n => { r with nanoseconds := n }) same
  rw [kept]
  omega

/-- Results with exact values are read back in their order, wherever the pieces end in which their
records arrive. -/
theorem results_of_pieces {rs : List TaskResult} (exact : ∀ r ∈ rs, r.IsExact)
    {pieces : List Wire.Piece}
    (whole : pieces.flatMap Wire.Piece.bytes = rs.flatMap Wire.encodeResult) :
    Wire.pieceRecords ofJson? pieces = (rs.mapIdx fun i r =>
      if r.toJson.depth < Json.depthLimit then
        .ok { r with nanoseconds := r.nanoseconds / 1000 % 2 ^ 64 * 1000 }
      else .error (.decode (i + 1))) ∧
    ∀ r ∈ rs, { r with nanoseconds := r.nanoseconds / 1000 % 2 ^ 64 * 1000 } = r ↔
      1000 ∣ r.nanoseconds ∧ r.nanoseconds / 1000 < 2 ^ 64 := by
  refine ⟨?_, fun r _ => r.arrived_eq_iff⟩
  rw [Wire.pieceRecords_eq, whole]
  exact Wire.records_flatMap_eq (fun r member => (exact r member).isIntegral_toJson)
    fun r member => (exact r member).ofJson?_toJson

namespace Sample

/-- A result with every field, an output that looks like the end of a record, and a duration that is
not whole microseconds. -/
def full : TaskResult where
  host := "web"
  playIndex := 1
  taskIndex := 2
  status := .failed
  changed := true
  output := "done\"\x7d\n\x7b\"status\":\"success\"\x7d\r\n\n"
  nanoseconds := 1234567
  task := some { runner := "debug", args := Dict.ofList [("msg", .int (-1))], notify := ["say"] }
  notify := Dict.setOf ["tell"]

/-- A result with no field but its status. -/
def bare : TaskResult := { status := .skipped }

/-- The records of both, byte by byte. -/
def pieces : List Wire.Piece := ([full, bare].flatMap Wire.encodeResult).map (⟨·, []⟩)

theorem flatMap_bytes_pieces :
    pieces.flatMap Wire.Piece.bytes = [full, bare].flatMap Wire.encodeResult := by
  rw [pieces, List.flatMap_map]
  exact List.flatMap_singleton' _

/-- A result whose task has a value that nests deeper than a result leaves room for. -/
def deep : TaskResult where
  status := .success
  task := some {
    runner := "debug"
    args := Dict.ofList [("msg", Nat.iterate (fun v => .arr [v]) 125 .null)] }

end Sample

theorem results_of_pieces_sample : (∀ r ∈ [Sample.full, Sample.bare], r.IsExact) ∧
    Sample.pieces.flatMap Wire.Piece.bytes =
      [Sample.full, Sample.bare].flatMap Wire.encodeResult ∧
    Wire.pieceRecords ofJson? Sample.pieces =
      [.ok { Sample.full with nanoseconds := 1234000 }, .ok Sample.bare] ∧
    ({ Sample.full with nanoseconds := 1234000 } = Sample.full ↔
      1000 ∣ Sample.full.nanoseconds ∧ Sample.full.nanoseconds / 1000 < 2 ^ 64) := by
  have exact : ∀ r ∈ [Sample.full, Sample.bare], r.IsExact := by decide +kernel
  obtain ⟨read, kept⟩ := results_of_pieces exact Sample.flatMap_bytes_pieces
  have within : ∀ r ∈ [Sample.full, Sample.bare], r.toJson.depth < Json.depthLimit := by
    decide +kernel
  refine ⟨exact, Sample.flatMap_bytes_pieces, ?_, kept _ List.mem_cons_self⟩
  rw [read]
  simp only [List.mapIdx_cons, List.mapIdx_nil, within _ List.mem_cons_self,
    within _ (List.mem_cons_of_mem _ List.mem_cons_self), if_true]
  rfl

/-- The record of a result with exact values that is refused. -/
theorem deep_result_refused : Sample.deep.IsExact ∧ 1000 ∣ Sample.deep.nanoseconds ∧
    Wire.results (Wire.encodeResult Sample.deep) = [.error (.decode 1)] := by
  have exact : Sample.deep.IsExact := by decide +kernel
  have deep : ¬ Sample.deep.toJson.depth < Json.depthLimit := by decide +kernel
  have read := Wire.records_flatMap_eq (l := [Sample.deep])
    (List.forall_mem_singleton.2 exact.isIntegral_toJson)
    (List.forall_mem_singleton.2 exact.ofJson?_toJson)
  rw [List.flatMap_singleton, List.mapIdx_cons, List.mapIdx_nil, if_neg deep] at read
  exact ⟨exact, by decide, read⟩

end TaskResult

end Fleet
