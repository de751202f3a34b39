/-
# Tasks and plays read back

A task or a play that is written is read back whole if the values in it are exact: a field that is
left out because it is empty is read as its empty value.
-/

import Fleet.Playbook.Record
import Fleet.Proofs.Json.Record

namespace Fleet

open Json (Fields)

namespace Task

variable {t : Task}

/-- The values that a task carries are exact. -/
structure IsExact (t : Task) : Prop where
  args : ∀ v ∈ t.args.values, v.IsExact
  loop : ∀ v ∈ t.loop, v.IsExact
  vars : ∀ v ∈ t.vars.values, v.IsExact

instance : DecidablePred IsExact := fun t =>
  decidable_of_iff
    ((∀ v ∈ t.args.values, v.IsExact) ∧ (∀ v ∈ t.loop, v.IsExact) ∧ ∀ v ∈ t.vars.values, v.IsExact)
    ⟨fun h => ⟨h.1, h.2.1, h.2.2⟩, fun h => ⟨h.args, h.loop, h.vars⟩⟩

theorem sublist_members (t : Task) : (t.members.map (·.1)).Sublist
    (["runner", "name", "args", "vars"] ++ ["unless"] ++ ["notify"] ++ ["loop"] ++ ["tags"]) := by
  simp only [members, List.map_append]
  exact ((((List.Sublist.refl _).append Json.sublist_option).append
    Json.sublist_memberUnlessEmpty).append Json.sublist_memberUnlessEmpty).append
    Json.sublist_memberUnlessEmpty

theorem IsExact.isIntegral_toJson (each : t.IsExact) : t.toJson.IsIntegral := by
  refine Json.isIntegral_ofMembers ?_
  have strings (l : List String) : (Json.arr (l.map .str)).IsIntegral :=
    Json.isIntegral_arr_map fun _ _ => trivial
  have loop : (Json.arr t.loop).IsIntegral :=
    Json.areIntegral_iff.2 fun v member => (each.loop v member).integral
  simp only [members, List.forall_mem_append, List.forall_mem_cons, List.forall_mem_map]
  exact ⟨⟨⟨⟨⟨trivial, trivial, Json.isIntegral_ofDict each.args, Json.isIntegral_ofDict each.vars,
    nofun⟩, fun _ _ => trivial⟩, Json.forall_mem_memberUnlessEmpty (strings t.notify)⟩,
    Json.forall_mem_memberUnlessEmpty loop⟩, Json.forall_mem_memberUnlessEmpty (strings t.tags)⟩

/-- A task is read back. -/
theorem IsExact.ofJson?_toJson (each : t.IsExact) : ofJson? t.toJson = some t := by
  have fields : t.toJson.fields? fieldNames = some (Dict.ofList t.members) :=
    Json.fields?_ofMembers (List.Subset.trans (sublist_members t).subset (by decide))
  have given (k : String) : (Dict.ofList t.members).get? k = Dict.lookupEntry k t.members :=
    Json.get?_ofList_members ((sublist_members t).nodup (by decide))
  rw [ofJson?, fields]
  generalize Dict.ofList t.members = d at given
  simp only [members, Dict.lookupEntry_append, Dict.lookupEntry,
    Json.lookupEntry_memberUnlessEmpty, Json.lookupEntry_option] at given
  have runner : d.get? "runner" = some (.str t.runner) := by simp [given]
  have name : d.get? "name" = some (.str t.name) := by simp [given]
  have args : d.get? "args" = some (.ofDict t.args) := by simp [given]
  have guard : d.get? "unless" = t.guard.map .str := by simp [given]
  have notify : d.get? "notify" =
      if t.notify.map Json.str ≠ [] then some (.arr (t.notify.map .str)) else none := by
    simp [given]
  have loop : d.get? "loop" = if t.loop ≠ [] then some (.arr t.loop) else none := by simp [given]
  have tags : d.get? "tags" =
      if t.tags.map Json.str ≠ [] then some (.arr (t.tags.map .str)) else none := by
    simp [given]
  have vars : d.get? "vars" = some (.ofDict t.vars) := by simp [given]
  simp only [Option.bind_eq_bind, Option.bind_some, Fields.required_string runner,
    Fields.optional_string name, Fields.optional_dict args each.args,
    Fields.optional_string? guard, Fields.optional_strings notify,
    Fields.optional_list loop (Json.mapM_asJson? each.loop), Fields.optional_strings tags,
    Fields.optional_dict vars each.vars]

end Task

namespace Play

variable {p : Play}

/-- The values that a play carries are exact. -/
structure IsExact (p : Play) : Prop where
  vars : ∀ v ∈ p.vars.values, v.IsExact
  tasks : ∀ t ∈ p.tasks, t.IsExact
  handlers : ∀ t ∈ p.handlers, t.IsExact

instance : DecidablePred IsExact := fun p =>
  decidable_of_iff
    ((∀ v ∈ p.vars.values, v.IsExact) ∧ (∀ t ∈ p.tasks, t.IsExact) ∧ ∀ t ∈ p.handlers, t.IsExact)
    ⟨fun h => ⟨h.1, h.2.1, h.2.2⟩, fun h => ⟨h.vars, h.tasks, h.handlers⟩⟩

theorem sublist_members (p : Play) : (p.members.map (·.1)).Sublist fieldNames := by
  simp only [members, List.map_append]
  exact (List.Sublist.refl ["name", "hosts", "vars", "tasks", "handlers"]).append
    Json.sublist_memberUnlessEmpty

theorem IsExact.isIntegral_members (each : p.IsExact) : ∀ m ∈ p.members, m.2.IsIntegral := by
  have strings (l : List String) : (Json.arr (l.map .str)).IsIntegral :=
    Json.isIntegral_arr_map fun _ _ => trivial
  simp only [members, List.forall_mem_append, List.forall_mem_cons]
  exact ⟨⟨trivial, strings p.hosts, Json.isIntegral_ofDict each.vars,
    Json.isIntegral_arr_map fun t member => (each.tasks t member).isIntegral_toJson,
    Json.isIntegral_arr_map fun t member => (each.handlers t member).isIntegral_toJson, nofun⟩,
    Json.forall_mem_memberUnlessEmpty (strings p.preRun)⟩

/-- A play is read back. -/
theorem IsExact.ofJson?_toJson (each : p.IsExact) : ofJson? p.toJson = some p := by
  have fields : p.toJson.fields? fieldNames = some (Dict.ofList p.members) :=
    Json.fields?_ofMembers (sublist_members p).subset
  have given (k : String) : (Dict.ofList p.members).get? k = Dict.lookupEntry k p.members :=
    Json.get?_ofList_members ((sublist_members p).nodup (by decide))
  rw [ofJson?, fields]
  generalize Dict.ofList p.members = d at given
  simp only [members, Dict.lookupEntry_append, Dict.lookupEntry,
    Json.lookupEntry_memberUnlessEmpty] at given
  have name : d.get? "name" = some (.str p.name) := by simp [given]
  have hosts : d.get? "hosts" = some (.ofStrings p.hosts) := by simp [given]
  have vars : d.get? "vars" = some (.ofDict p.vars) := by simp [given]
  have tasks : d.get? "tasks" = some (.arr (p.tasks.map Task.toJson)) := by simp [given]
  have handlers : d.get? "handlers" = some (.arr (p.handlers.map Task.toJson)) := by simp [given]
  have preRun : d.get? "pre_run" =
      if p.preRun.map Json.str ≠ [] then some (.arr (p.preRun.map .str)) else none := by
    simp [given]
  have read (l : List Task) (each : ∀ t ∈ l, t.IsExact) :
      Json.asList? Task.ofJson? (.arr (l.map Task.toJson)) = some l :=
    Json.mapM_map_eq fun t member => (each t member).ofJson?_toJson
  have hostNames : Json.asStrings? (.ofStrings p.hosts) = some p.hosts :=
    Json.mapM_map_eq fun _ _ => rfl
  simp only [Option.bind_eq_bind, Option.bind_some, Fields.optional_string name,
    Fields.optional_of_get? hosts hostNames, Fields.optional_dict vars each.vars,
    Fields.optional_of_get? tasks (read p.tasks each.tasks),
    Fields.optional_of_get? handlers (read p.handlers each.handlers),
    Fields.optional_strings preRun]

end Play

end Fleet
