import McStatus.Python.Forge.Impl
import McStatus.Rust.Motd.Events
import McStatus.Rust.Response.Java

/-!
This module contains which mods of the JSON formats of Forge are in the status response, for each of
the places where a server may put them.
-/

namespace McStatus

open Fallible

namespace Rust

def stringAt (obj : Object) (key : String) : Option (List Char) :=
  (Value.get obj key.toList).bind Value.asStr

def without (key : String) (obj : Object) : Object :=
  obj.filter fun field => field.1 ≠ key.toList

theorem get_without {key : String} {key' : List Char} (h : key' ≠ key.toList) (obj : Object)
    : Value.get (without key obj) key' = Value.get obj key' := by
  induction obj with
  | nil => rfl
  | cons field obj ih =>
    rcases field with ⟨k, v⟩
    unfold without at ih ⊢
    by_cases hk : k = key.toList
    . rw [List.filter_cons_of_neg (by simpa using hk), Value.get, if_neg (by rw [hk]; exact h.symm)]
      exact ih
    . rw [List.filter_cons_of_pos (by simpa using hk), Value.get, Value.get, ih]

theorem field_without {α : Type} {key name : String} (h : name.toList ≠ key.toList) (obj : Object)
    (place : Nat) (missing : Serde.Missing α) (read : Value → Option α)
    : Serde.field (.object (without key obj)) [name] place missing read
        = Serde.field (.object obj) [name] place missing read := by
  apply Serde.field_congr
  intro n hn
  rw [List.mem_singleton.mp hn]
  exact get_without h obj

inductive ForgeContainer where
  | forgeData
  | modinfo
  deriving DecidableEq, Repr

def ForgeContainer.key (container : ForgeContainer) : String :=
  match container with
  | forgeData => "forgeData"
  | modinfo => "modinfo"

theorem ForgeContainer.ne_key {name : String} (hforge : name ≠ "forgeData")
    (hinfo : name ≠ "modinfo") (container : ForgeContainer)
    : name.toList ≠ container.key.toList := by
  intro heq
  cases container with
  | forgeData => exact hforge (String.toList_injective heq)
  | modinfo => exact hinfo (String.toList_injective heq)

inductive ModsKey where
  | mods
  | modList
  deriving DecidableEq, Repr

namespace ModsKey

def key (list : ModsKey) : String :=
  match list with
  | mods => "mods"
  | modList => "modList"

def other (list : ModsKey) : ModsKey :=
  match list with
  | mods => modList
  | modList => mods

theorem ne_key {name : String} (hmods : name ≠ "mods") (hlist : name ≠ "modList") (list : ModsKey)
    : name.toList ≠ list.key.toList := by
  intro heq
  cases list with
  | mods => exact hmods (String.toList_injective heq)
  | modList => exact hlist (String.toList_injective heq)

end ModsKey

def modEntryId (entry : Object) : Option (List Char) :=
  stringAt entry "modid" <|> stringAt entry "modId"

def modEntryVersion (entry : Object) : Option (List Char) :=
  stringAt entry "modmarker" <|> stringAt entry "version"

structure IsModEntry (entry : Object) : Prop where
  strings : ∀ key ∈ ["modid", "modId", "modmarker", "modName", "version"], ∀ v,
    Value.get entry key.toList = some v → ∃ s, v = .string s
  id : (modEntryId entry).isSome
  version : (modEntryVersion entry).isSome

structure HoldsMods (fields : Object) (container : ForgeContainer) (data : Object) (list : ModsKey)
    (entries : List Object) : Prop where
  container_eq : Value.get fields container.key.toList = some (.object data)
  forge_data : Value.get fields "forge_data".toList = none
  forgeData : container = .modinfo → Value.get fields "forgeData".toList = none
    ∨ Value.get fields "forgeData".toList = some .null
  list_eq : Value.get data list.key.toList = some (.array (entries.map .object))
  other : Value.get data list.other.key.toList = none
  d : Value.get data "d".toList = none
  entries : ∀ entry ∈ entries, IsModEntry entry
  status : ∃ latency response,
    JavaStatusResponse.build (.object (without container.key fields)) latency = .ok (.ok response)
  modinfo : container = .modinfo →
    (RawForgeData.deserialize (.object (without list.key data))).isSome

def KeepsMods (fields : Object) (entries : List Object) (latency : Float) : Prop :=
  ∃ response forge_data, JavaStatusResponse.build (.object fields) latency = .ok (.ok response)
    ∧ response.forge_data = some forge_data
    ∧ forge_data.mods.map (fun mod => (mod.mod_id, mod.marker <|> mod.version))
        = entries.map (fun entry => (modEntryId entry, modEntryVersion entry))

def readMod (entry : Object) : ForgeDataMod where
  mod_id := stringAt entry "modId"
  marker := stringAt entry "modmarker"
  name := stringAt entry "modName"
  version := stringAt entry "version"

theorem builtItems_map {α : Type} {obj : Object} {key : List Char} {toValue : α → Value}
    {f : α → ForgeDataMod} {as : List α} (h : Value.get obj key = some (.array (as.map toValue)))
    (hbuild : ∀ a, ForgeDataMod.build (toValue a) = .ok (f a))
    : builtItems ForgeDataMod.build obj key = as.map f := by
  rw [builtItems, h, Option.bind_some, Value.asArray]
  dsimp only
  clear h
  induction as with
  | nil => rfl
  | cons a as ih => rw [List.map_cons, List.filterMap_cons, hbuild a, ih]; rfl

theorem builtItems_none {obj : Object} {key : List Char}
    (h : (Value.get obj key).bind Value.asArray = none)
    : builtItems ForgeDataMod.build obj key = [] := by
  rw [builtItems, h]

theorem build_of_no_d (obj : Object)
    (h : (Value.get obj ['d']).bind Value.asStr = none)
    : ∃ forge_data, ForgeData.build (.object obj) = .ok forge_data
        ∧ forge_data.mods = builtItems ForgeDataMod.build obj "mods".toList := by
  rw [ForgeData.build]
  dsimp only
  rw [h]
  exact ⟨_, rfl, rfl⟩

theorem asStr_optionToValue (s : Option (List Char)) : (optionToValue .string s).asStr = s := by
  cases s <;> rfl

def rawMod (entry : Object) : RawForgeMod where
  mod_id := stringAt entry "modId"
  mod_marker := stringAt entry "modmarker"
  mod_name := stringAt entry "modName"
  version := stringAt entry "version"

theorem field_string {entry : Object} {name : String}
    (h : ∀ v, Value.get entry name.toList = some v → ∃ s, v = .string s) (place : Nat)
    : Serde.field (.object entry) [name] place (.option none) (Serde.option Serde.string)
        = some (stringAt entry name) := by
  cases hget : Value.get entry name.toList with
  | none =>
    rw [Serde.field_of_get_none hget, stringAt, hget]
    rfl
  | some v =>
    rcases h v hget with ⟨s, rfl⟩
    rw [Serde.field_of_get hget, stringAt, hget]
    rfl

theorem IsModEntry.deserialize {entry : Object} (h : IsModEntry entry)
    : RawForgeMod.deserialize (.object entry) = some (rawMod entry) := by
  rw [RawForgeMod.deserialize, field_string (h.strings "modId" (by decide)),
    field_string (h.strings "modmarker" (by decide)),
    field_string (h.strings "modName" (by decide)),
    field_string (h.strings "version" (by decide))]
  rfl

theorem build_toValue_rawMod (entry : Object)
    : ForgeDataMod.build (rawMod entry).toValue = .ok (readMod entry) := by
  have hget : ForgeDataMod.build (rawMod entry).toValue = .ok {
      mod_id := (optionToValue .string (stringAt entry "modId")).asStr
      marker := (optionToValue .string (stringAt entry "modmarker")).asStr
      name := (optionToValue .string (stringAt entry "modName")).asStr
      version := (optionToValue .string (stringAt entry "version")).asStr
    } := rfl
  rw [hget]
  simp only [asStr_optionToValue]
  rfl

def readMods (list : ModsKey) (entries : List Object) : List ForgeDataMod :=
  match list with
  | .mods => entries.map readMod
  | .modList => []

section HoldsMods

variable {fields data : Object} {container : ForgeContainer} {list : ModsKey}
  {entries : List Object}

theorem HoldsMods.build_data (h : HoldsMods fields container data list entries)
    : ∃ forge_data, ForgeData.build (.object data) = .ok forge_data
        ∧ forge_data.mods = readMods list entries := by
  rcases build_of_no_d data (by rw [show Value.get data ['d'] = none from h.d]; rfl)
    with ⟨forge_data, hbuild, hmods⟩
  refine ⟨forge_data, hbuild, ?_⟩
  rw [hmods]
  cases list with
  | mods => exact builtItems_map h.list_eq fun _ => rfl
  | modList =>
    have hother : Value.get data "mods".toList = none := h.other
    exact builtItems_none (by rw [hother]; rfl)

def rawMods (list : ModsKey) (entries : List Object) : Option (List RawForgeMod) :=
  match list with
  | .mods => some (entries.map rawMod)
  | .modList => none

theorem HoldsMods.deserialize_data (h : HoldsMods fields container data list entries)
    (hmodinfo : container = .modinfo)
    : ∃ raw, RawForgeData.deserialize (.object data) = some raw
        ∧ raw.mods = rawMods list entries ∧ raw.d = none := by
  rcases Option.isSome_iff_exists.mp (h.modinfo hmodinfo) with ⟨raw, hraw⟩
  rcases RawForgeData.deserialize_eq_some_iff.mp hraw with
    ⟨_, _, hchannels, hversion, htruncated, _⟩
  have hmods : Serde.field (.object data) ["mods"] 0 (.default none)
      (Serde.option (Serde.vec RawForgeMod.deserialize)) = some (rawMods list entries) := by
    cases list with
    | mods =>
      have hvec := @Serde.vec_map _ _ RawForgeMod.deserialize Value.object rawMod entries
        fun entry hentry => (h.entries entry hentry).deserialize
      have hlist : Value.get data "mods".toList = some (.array (entries.map .object)) := h.list_eq
      rw [Serde.field_of_get hlist]
      change (Serde.vec RawForgeMod.deserialize (.array (entries.map .object))).map some = _
      rw [hvec]
      rfl
    | modList =>
      have hother : Value.get data "mods".toList = none := h.other
      rw [Serde.field_of_get_none hother]
      rfl
  have hd : Serde.field (.object data) ["d"] 4 (.default none) (Serde.option Serde.string)
      = some none := by
    rw [Serde.field_of_get_none h.d]
    rfl
  refine ⟨{ raw with mods := rawMods list entries, d := none }, ?_, rfl, rfl⟩
  -- the other fields are the ones that are there without the list
  rw [field_without (list.ne_key (by decide) (by decide))] at hchannels hversion htruncated
  exact RawForgeData.deserialize_eq_some_iff.mpr ⟨rfl, hmods, hchannels, hversion, htruncated, hd⟩

theorem build_toValue {raw : RawForgeData} (hmods : raw.mods = rawMods list entries)
    (hd : raw.d = none)
    : ∃ forge_data, ForgeData.build raw.toValue = .ok forge_data
        ∧ forge_data.mods = readMods list entries := by
  rcases raw with ⟨mods, channels, fml_network_version, truncated, d⟩
  subst hmods hd
  rcases build_of_no_d [
      ("mods".toList, optionToValue (fun mods => .array (mods.map RawForgeMod.toValue))
        (rawMods list entries)),
      ("channels".toList,
        optionToValue (fun channels => .array (channels.map RawForgeChannel.toValue)) channels),
      ("fmlNetworkVersion".toList,
        optionToValue (fun n => .number (.posInt n.toUInt64)) fml_network_version),
      ("truncated".toList, optionToValue .bool truncated), ("d".toList, .null)] rfl
    with ⟨forge_data, hbuild, hread⟩
  refine ⟨forge_data, hbuild, ?_⟩
  rw [hread]
  cases list with
  | mods =>
    refine @builtItems_map _ _ _ (fun entry => (rawMod entry).toValue) readMod entries ?_
      build_toValue_rawMod
    simp [Value.get, rawMods, optionToValue]
  | modList => exact builtItems_none rfl

theorem HoldsMods.deserialize (h : HoldsMods fields container data list entries)
    : ∃ raw v motd, RawJavaResponse.deserialize (.object fields) = some raw ∧ raw.version = some v
        ∧ raw.description.toMotd = .ok motd
        ∧ ∃ forge_data, JavaStatusResponse.forgeData raw = some forge_data
          ∧ forge_data.mods = readMods list entries := by
  rcases h.status with ⟨latency, response, hstatus⟩
  rcases JavaStatusResponse.build_eq_ok_iff.mp hstatus with ⟨raw, v, motd, hraw, hv, hmotd, _⟩
  rcases RawJavaResponse.deserialize_eq_some_iff.mp hraw
    with ⟨_, hdescription, hplayers, hversion, hsecure, hfavicon, _, hmodinfo⟩
  rw [field_without (container.ne_key (by decide) (by decide))] at hdescription hplayers hversion
  rw [field_without (container.ne_key (by decide) (by decide))] at hsecure hfavicon
  cases container with
  | forgeData =>
    have hget : Value.get fields "forgeData".toList = some (.object data) := h.container_eq
    have hforge : Serde.field (.object fields) ["forge_data", "forgeData"] 5 (.default none)
        (Serde.option Serde.value) = some (some (.object data)) := by
      simp only [Serde.field, List.filterMap_cons, List.filterMap_nil, h.forge_data, hget]
      rfl
    have hinfo : "modinfo".toList ≠ ForgeContainer.forgeData.key.toList := by decide
    rw [field_without hinfo] at hmodinfo
    rcases h.build_data with ⟨forge_data, hbuild, hmods⟩
    refine ⟨{ raw with forge_data := some (.object data) }, v, motd, ?_, hv, hmotd, forge_data, ?_,
      hmods⟩
    . rw [RawJavaResponse.deserialize_eq_some_iff]
      exact ⟨rfl, hdescription, hplayers, hversion, hsecure, hfavicon, hforge, hmodinfo⟩
    . change (ForgeData.build (.object data)).toOption = some forge_data
      rw [hbuild]
      rfl
  | modinfo =>
    rcases h.deserialize_data rfl with ⟨info, hinfo, hinfomods, hinfod⟩
    have hget : Value.get fields "modinfo".toList = some (.object data) := h.container_eq
    have hforge : Serde.field (.object fields) ["forge_data", "forgeData"] 5 (.default none)
        (Serde.option Serde.value) = some none := by
      rcases h.forgeData rfl with hnone | hnull
      . simp only [Serde.field, List.filterMap_cons, List.filterMap_nil, h.forge_data, hnone]
        rfl
      . simp only [Serde.field, List.filterMap_cons, List.filterMap_nil, h.forge_data, hnull]
        rfl
    have hfield : Serde.field (.object fields) ["modinfo"] 6 (.default none)
        (Serde.option RawForgeData.deserialize) = some (some info) := by
      rw [Serde.field_of_get hget]
      change (RawForgeData.deserialize (.object data)).map some = _
      rw [hinfo]
      rfl
    rcases build_toValue hinfomods hinfod with ⟨forge_data, hbuild, hmods⟩
    refine ⟨{ raw with forge_data := none, modinfo := some info }, v, motd, ?_, hv, hmotd,
      forge_data,
      ?_, hmods⟩
    . rw [RawJavaResponse.deserialize_eq_some_iff]
      exact ⟨rfl, hdescription, hplayers, hversion, hsecure, hfavicon, hforge, hfield⟩
    . change (ForgeData.build info.toValue).toOption = some forge_data
      rw [hbuild]
      rfl

/-- The builder takes the entries under `mods`, and of an id only what is under `modId`. -/
def ReadsMods (list : ModsKey) (entries : List Object) : Prop :=
  entries = [] ∨ (list = .mods ∧ ∀ entry ∈ entries,
    stringAt entry "modid" = none ∨ stringAt entry "modid" = stringAt entry "modId")

theorem modEntryId_eq_iff (entry : Object)
    : stringAt entry "modId" = modEntryId entry
        ↔ stringAt entry "modid" = none ∨ stringAt entry "modid" = stringAt entry "modId" := by
  rw [modEntryId]
  cases stringAt entry "modid" with
  | none => simp
  | some id =>
    rw [or_iff_right (Option.some_ne_none id)]
    exact eq_comm

theorem readMods_eq_iff (list : ModsKey) (entries : List Object)
    : (readMods list entries).map (fun mod => (mod.mod_id, mod.marker <|> mod.version))
          = entries.map (fun entry => (modEntryId entry, modEntryVersion entry))
        ↔ ReadsMods list entries := by
  cases list with
  | mods =>
    have hmod (entry : Object)
        : ((readMod entry).mod_id, (readMod entry).marker <|> (readMod entry).version)
        = (modEntryId entry, modEntryVersion entry)
          ↔ stringAt entry "modid" = none ∨ stringAt entry "modid" = stringAt entry "modId" := by
      rw [← modEntryId_eq_iff, Prod.mk.injEq]
      exact and_iff_left rfl
    rw [readMods, List.map_map, List.map_inj_left]
    simp only [Function.comp_apply, hmod]
    constructor
    . intro hall
      exact Or.inr ⟨rfl, hall⟩
    . rintro (rfl | ⟨_, hall⟩)
      . exact fun entry hentry => absurd hentry List.not_mem_nil
      . exact hall
  | modList =>
    rw [readMods, List.map_nil, eq_comm, List.map_eq_nil_iff, ReadsMods]
    constructor
    . exact Or.inl
    . rintro (hnil | ⟨hlist, _⟩)
      . exact hnil
      . cases hlist

/--
The response keeps the mods exactly when there are none, or when they are under `mods` and none of
them has an id under `modid` that is not also under `modId`.
-/
theorem keepsMods_iff (h : HoldsMods fields container data list entries) (latency : Float)
    : KeepsMods fields entries latency ↔ ReadsMods list entries := by
  rcases h.deserialize with ⟨raw, v, motd, hraw, hv, hmotd, forge_data, hforge, hmods⟩
  rw [← readMods_eq_iff, ← hmods]
  constructor
  . rintro ⟨response, forge_data', hbuild, hforge', heq⟩
    rcases JavaStatusResponse.build_eq_ok_iff.mp hbuild with ⟨raw', v', motd', hraw', _, _, rfl⟩
    rw [hraw, Option.some.injEq] at hraw'
    subst hraw'
    change JavaStatusResponse.forgeData raw = some forge_data' at hforge'
    rw [hforge, Option.some.injEq] at hforge'
    rw [hforge']
    exact heq
  . intro heq
    refine ⟨.ofRaw (.object fields) latency raw v motd, forge_data, ?_, hforge, heq⟩
    exact JavaStatusResponse.build_eq_ok_iff.mpr ⟨raw, v, motd, hraw, hv, hmotd, rfl⟩

end HoldsMods

/-- What `ForgeDataMod.build` of `mcstatus` is given for an entry. -/
def rawPythonMod (entry : Object) : Python.RawForgeDataMod where
  modid := stringAt entry "modid"
  modId := stringAt entry "modId"
  modmarker := stringAt entry "modmarker"
  version := stringAt entry "version"

theorem IsModEntry.python_build {entry : Object} (h : IsModEntry entry)
    : ∃ mod, Python.ForgeDataMod.build (rawPythonMod entry) = .ok mod
        ∧ modEntryId entry = some mod.name ∧ modEntryVersion entry = some mod.marker := by
  rcases Option.isSome_iff_exists.mp h.id with ⟨id, hid⟩
  rcases Option.isSome_iff_exists.mp h.version with ⟨version, hversion⟩
  refine ⟨{ name := id, marker := version }, ?_, hid, hversion⟩
  rw [modEntryId] at hid
  rw [modEntryVersion] at hversion
  rw [Python.ForgeDataMod.build, rawPythonMod]
  dsimp only
  rw [hversion]
  dsimp only
  rw [hid]

def lowerEntry : Object :=
  [("modid".toList, .string "m".toList), ("version".toList, .string ['1'])]

def upperEntry : Object :=
  [("modId".toList, .string "m".toList), ("modmarker".toList, .string ['1'])]

def forgeStatus (data : Object) : Object :=
  [("forgeData".toList, .object data), ("version".toList,
    .object [("name".toList, .string "1.12".toList), ("protocol".toList, .number (.posInt 340))])]

theorem holdsMods_forgeStatus {entry : Object} (h : IsModEntry entry)
    : HoldsMods (forgeStatus [("mods".toList, .array [.object entry])]) .forgeData
        [("mods".toList, .array [.object entry])] .mods [entry] where
  container_eq := rfl
  forge_data := rfl
  forgeData := nofun
  list_eq := rfl
  other := rfl
  d := rfl
  entries := by
    intro entry' hmem
    rw [List.mem_singleton.mp hmem]
    exact h
  status := by
    refine ⟨0, _, JavaStatusResponse.build_eq_ok_iff.mpr ⟨{
      description := .string []
      players := none
      version := some { name := "1.12".toList, protocol := 340 }
      enforces_secure_chat := none
      favicon := none
      forge_data := none
      modinfo := none
    }, { name := "1.12".toList, protocol := 340 }, _, rfl, rfl, rfl, rfl⟩⟩
  modinfo := nofun

theorem mem_of_get {obj : Object} {key : List Char} {v : Value} (h : Value.get obj key = some v)
    : (key, v) ∈ obj := by
  induction obj with
  | nil => cases h
  | cons field obj ih =>
    rcases field with ⟨k, w⟩
    rw [Value.get] at h
    split at h
    . next hk =>
      cases h
      rw [hk]
      exact List.mem_cons_self
    . exact List.mem_cons_of_mem _ (ih h)

theorem isModEntry_upperEntry : IsModEntry upperEntry := by
  constructor
  . intro key _ v hget
    rcases List.mem_pair.mp (mem_of_get hget) with heq | heq
    . exact ⟨_, (Prod.mk.inj heq).2⟩
    . exact ⟨_, (Prod.mk.inj heq).2⟩
  . rfl
  . rfl

theorem isModEntry_lowerEntry : IsModEntry lowerEntry := by
  constructor
  . intro key _ v hget
    rcases List.mem_pair.mp (mem_of_get hget) with heq | heq
    . exact ⟨_, (Prod.mk.inj heq).2⟩
    . exact ⟨_, (Prod.mk.inj heq).2⟩
  . rfl
  . rfl

theorem keepsMods_upperEntry
    : KeepsMods (forgeStatus [("mods".toList, .array [.object upperEntry])]) [upperEntry] 0
        ↔ ReadsMods .mods [upperEntry] :=
  keepsMods_iff (holdsMods_forgeStatus isModEntry_upperEntry) 0

theorem keepsMods_lowerEntry
    : ¬ ∀ (fields data : Object) (container : ForgeContainer) (list : ModsKey)
        (entries : List Object)
        (latency : Float), HoldsMods fields container data list entries →
        KeepsMods fields entries latency := by
  intro h
  rcases h _ _ _ _ _ 0 (holdsMods_forgeStatus isModEntry_lowerEntry)
    with ⟨response, forge_data, hbuild, hforge, hmods⟩
  rcases JavaStatusResponse.build_eq_ok_iff.mp hbuild with ⟨raw, v, motd, hraw, _, _, rfl⟩
  cases hraw
  cases hforge
  cases hmods

end Rust

end McStatus
