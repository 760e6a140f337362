import McStatus.Library.Loop
import McStatus.Python.Forge.Impl

/-!
This module shows for which of Forge's formats without optimized data `ForgeData.build` returns
every mod: `raw.get("mods") or raw.get("modList")` does not find an empty list under `mods`.
-/

namespace McStatus

open Fallible

namespace Python

structure RawForgeDataMod.IsEntry (entry : RawForgeDataMod) : Prop where
  id : entry.modid.isSome ∨ entry.modId.isSome
  version : entry.modmarker.isSome ∨ entry.version.isSome

namespace ForgeData

/-- The mod of an entry: `modmarker` and `modid` come first, also when they are empty. -/
structure IsModOf (entry : RawForgeDataMod) (mod : ForgeDataMod) : Prop where
  name : entry.modid = some mod.name ∨ entry.modid = none ∧ entry.modId = some mod.name
  marker : entry.modmarker = some mod.marker
    ∨ entry.modmarker = none ∧ entry.version = some mod.marker

def KeepsMods (raw : RawForgeData) (entries : List RawForgeDataMod) : Prop :=
  ∃ data, build raw = .ok data ∧ List.Forall₂ IsModOf entries data.mods
    ∧ data.channels = (raw.channels.getD []).map fun channel =>
      { name := channel.res, version := channel.version, required := channel.required }

theorem exists_orElse {α : Type} {x y : Option α} (h : x.isSome ∨ y.isSome)
    : ∃ a, (x <|> y) = some a ∧ (x = some a ∨ x = none ∧ y = some a) := by
  cases x with
  | some a => exact ⟨a, rfl, Or.inl rfl⟩
  | none =>
    rcases Option.isSome_iff_exists.mp (h.resolve_left (by simp)) with ⟨a, rfl⟩
    exact ⟨a, rfl, Or.inr ⟨rfl, rfl⟩⟩

theorem exists_build {entry : RawForgeDataMod} (h : entry.IsEntry)
    : ∃ mod, ForgeDataMod.build entry = .ok mod ∧ IsModOf entry mod := by
  rcases exists_orElse h.version with ⟨marker, hmarker, hversion⟩
  rcases exists_orElse h.id with ⟨name, hname, hid⟩
  refine ⟨{ name := name, marker := marker }, ?_, ⟨hid, hversion⟩⟩
  rw [ForgeDataMod.build, hmarker]
  dsimp only
  rw [hname]

theorem build_of_no_d {raw : RawForgeData} (hd : raw.d = none)
    : build raw
        =
      match modList raw with
      | none => .error (.keyError "Neither `mods` or `modList` keys exist.".toList)
      | some mod_list => do
        return {
          fml_network_version := raw.fmlNetworkVersion.getD 1
          channels := (raw.channels.getD []).map ForgeDataChannel.build
          mods := ← mod_list.mapM ForgeDataMod.build
          truncated := false
        } := by
  unfold build
  dsimp only
  rw [hd]
  rfl

theorem modList_eq_nil {raw : RawForgeData} {data : ForgeData} (hd : raw.d = none)
    (hbuild : build raw = .ok data) (hmods : data.mods = []) : modList raw = some [] := by
  rw [build_of_no_d hd] at hbuild
  cases hlist : modList raw with
  | none =>
    rw [hlist] at hbuild
    cases hbuild
  | some entries =>
    rw [hlist] at hbuild
    rcases bind_eq_ok.mp hbuild with ⟨mods, hmapM, heq⟩
    cases heq
    cases entries with
    | nil => rfl
    | cons entry entries =>
      rcases (mem_of_mapM_eq_ok hmapM).1 entry List.mem_cons_self with ⟨mod, hmem, _⟩
      have hnil : mods = [] := hmods
      rw [hnil] at hmem
      exact absurd hmem List.not_mem_nil

theorem keepsMods_of_modList {raw : RawForgeData} {entries : List RawForgeDataMod}
    (hd : raw.d = none)
    (hlist : modList raw = some entries) (hentries : ∀ entry ∈ entries, entry.IsEntry)
    : KeepsMods raw entries := by
  rcases exists_mapM_of_forall fun entry hmem => exists_build (hentries entry hmem)
    with ⟨mods, hmods, hall⟩
  refine ⟨{
    fml_network_version := raw.fmlNetworkVersion.getD 1
    channels := (raw.channels.getD []).map ForgeDataChannel.build
    mods := mods
    truncated := false
  }, ?_, hall, rfl⟩
  rw [build_of_no_d hd, hlist]
  dsimp only
  rw [hmods]
  rfl

theorem keepsMods_iff_modList {raw : RawForgeData} {entries : List RawForgeDataMod}
    (hd : raw.d = none) (hlist : (raw.mods <|> raw.modList) = some entries)
    (hentries : ∀ entry ∈ entries, entry.IsEntry)
    : KeepsMods raw entries ↔ (raw.mods = some [] → raw.modList = some []) := by
  cases hmods : raw.mods with
  | none =>
    rw [hmods] at hlist
    have hlist' : modList raw = some entries := by rwa [modList, hmods]
    exact iff_of_true (keepsMods_of_modList hd hlist' hentries) nofun
  | some mods =>
    rw [hmods] at hlist
    cases hlist
    cases entries with
    | cons entry entries =>
      have hlist : modList raw = some (entry :: entries) := by rw [modList, hmods]
      exact iff_of_true (keepsMods_of_modList hd hlist hentries) nofun
    | nil =>
      have hlist : modList raw = raw.modList := by rw [modList, hmods]
      constructor
      . rintro ⟨data, hbuild, hall, _⟩ _
        rw [← hlist]
        exact modList_eq_nil hd hbuild (List.forall₂_nil_left_iff.mp hall)
      . intro h
        exact keepsMods_of_modList hd (hlist.trans (h rfl)) hentries

/-- An empty version and an empty id are kept, where the other name would have had another one. -/
def emptyStrings : RawForgeDataMod where
  modid := some []
  modId := some "other".toList
  modmarker := some []
  version := some "1.0".toList

theorem keepsMods_emptyStrings
    : KeepsMods { modList := some [emptyStrings] } [emptyStrings]
        ↔ ((none : Option (List RawForgeDataMod)) = some []
          → some [emptyStrings] = some []) :=
  keepsMods_iff_modList rfl rfl (by
    intro entry hmem
    rw [List.mem_singleton.mp hmem]
    exact { id := Or.inl rfl, version := Or.inl rfl })

theorem not_keepsMods_nil
    : build { mods := some [] }
          = .error (.keyError "Neither `mods` or `modList` keys exist.".toList)
        ∧ ¬ ∀ raw entries, raw.d = none → (raw.mods <|> raw.modList) = some entries →
          (∀ entry ∈ entries, entry.IsEntry) → KeepsMods raw entries := by
  have hbuild : build { mods := some [] }
      = .error (.keyError "Neither `mods` or `modList` keys exist.".toList) := rfl
  refine ⟨hbuild, fun h => ?_⟩
  rcases h { mods := some [] } [] rfl rfl (fun _ hmem => absurd hmem List.not_mem_nil)
    with ⟨data, hok, _⟩
  rw [hbuild] at hok
  cases hok

end ForgeData

end Python

end McStatus
