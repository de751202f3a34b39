/-
# Assets read back

The record of an asset reads back as the asset, as long as its modes are no greater than modes may
be: bytes are written in base64 and read from it, and a file without bytes leaves them out.
-/

import Fleet.Asset.Basic
import Fleet.Proofs.Json.Record

namespace Fleet

open Json (Fields)

namespace AssetFile

variable {f : AssetFile}

/-- The members of the record that writes a file. -/
def members (f : AssetFile) : List (String × Json) :=
  [("path", Json.str f.path), ("mode", Json.ofNat f.mode)] ++
    if f.data.isEmpty then [] else [("data", .str (String.ofList (Text.Base64.encode f.data)))]

theorem sublist_members (f : AssetFile) :
    (f.members.map (·.1)).Sublist ["path", "mode", "data"] := by
  unfold members
  cases f.data.isEmpty with
  | true => exact List.sublist_append_left ["path", "mode"] ["data"]
  | false => exact List.Sublist.refl _

theorem data?_encode (data : Bytes) :
    data? (.str (String.ofList (Text.Base64.encode data))) = some data := by
  show Text.Base64.decode? (String.ofList (Text.Base64.encode data)).toList = some data
  rw [String.toList_ofList, Text.Base64.decode?_encode]

/-- A file is read back. -/
theorem ofJson?_toJson (small : f.mode ≤ greatestMode) : ofJson? f.toJson = some f := by
  have fields : f.toJson.fields? ["path", "data", "mode"] = some (Dict.ofList f.members) :=
    Json.fields?_ofMembers (List.Subset.trans (sublist_members f).subset (by decide))
  have given (k : String) : (Dict.ofList f.members).get? k = Dict.lookupEntry k f.members :=
    Json.get?_ofList_members ((sublist_members f).nodup (by decide))
  rw [ofJson?, fields]
  generalize Dict.ofList f.members = d at given
  have path : d.get? "path" = some (.str f.path) := by
    rw [given]
    rfl
  have mode : d.get? "mode" = some (Json.ofNat f.mode) := by
    rw [given]
    rfl
  have data : Fields.optional d "data" [] data? = some f.data := by
    rw [members] at given
    cases bytes : f.data with
    | nil =>
        rw [Fields.optional, given, bytes]
        rfl
    | cons b rest =>
        refine Fields.optional_of_get? ?_ (data?_encode (b :: rest))
        rw [given, bytes]
        rfl
  simp only [Option.bind_eq_bind, Option.bind_some, Fields.required_string path, data,
    Fields.required_of_get? mode (Json.asNat?_ofNat small)]

/-- The record of a file holds no number but its mode. -/
theorem isExact_toJson (small : f.mode ≤ greatestMode) : f.toJson.IsExact := by
  refine Json.isExact_ofMembers (List.forall_mem_append.2 ⟨?_, ?_⟩)
  · have fits : (f.mode : Int) ≤ Json.greatestInt :=
      Int.le_trans (Int.ofNat_le.2 small) (by decide)
    exact List.forall_mem_cons.2
      ⟨Json.isExact_str _, List.forall_mem_singleton.2 ⟨Json.isIntegral_ofNat fits, rfl⟩⟩
  · split
    · nofun
    · exact List.forall_mem_singleton.2 (Json.isExact_str _)

end AssetFile

theorem Asset.isExact_toJson {a : Asset} (small : ∀ f ∈ a.files, f.mode ≤ AssetFile.greatestMode) :
    a.toJson.IsExact :=
  Json.isExact_ofMembers (List.forall_mem_cons.2 ⟨Json.isExact_str _, List.forall_mem_singleton.2
    (Json.isExact_arr_map fun f member => AssetFile.isExact_toJson (small f member))⟩)

/-- An asset is read back. -/
theorem Asset.ofJson?_toJson {a : Asset} (small : ∀ f ∈ a.files, f.mode ≤ AssetFile.greatestMode) :
    ofJson? a.toJson = some a := by
  have files : Json.asList? AssetFile.ofJson? (.arr (a.files.map AssetFile.toJson)) =
      some a.files :=
    Json.mapM_map_eq fun f member => AssetFile.ofJson?_toJson (small f member)
  let members := [("name", Json.str a.name), ("files", .arr (a.files.map AssetFile.toJson))]
  have fields : a.toJson.fields? ["name", "files"] = some (Dict.ofList members) :=
    Json.fields?_ofMembers (List.Subset.refl ["name", "files"])
  have given (k : String) : (Dict.ofList members).get? k = Dict.lookupEntry k members :=
    Json.get?_ofList_members (show ["name", "files"].Nodup by decide)
  have name : (Dict.ofList members).get? "name" = some (.str a.name) := given "name"
  have list : (Dict.ofList members).get? "files" = some (.arr (a.files.map AssetFile.toJson)) :=
    given "files"
  rw [ofJson?, fields]
  simp only [Option.bind_eq_bind, Option.bind_some, Fields.required_string name,
    Fields.required_of_get? list files]

end Fleet
