import McStatus.Rust.Serde

/-!
This module contains the raw responses of `src/response/raw.rs` that a Java server sends, with what
is derived for them.
-/

namespace McStatus

namespace Rust

open Serde (field checkLength)

inductive RawMotd where
  | string (s : List Char)
  | object (v : Value)

namespace RawMotd

/-- `#[serde(untagged)]`: the first variant that can be read. -/
def deserialize (v : Value) : Option RawMotd :=
  match v with
  | .string s => some (.string s)
  | v => some (.object v)

def default : RawMotd :=
  .string []

end RawMotd

structure RawJavaPlayer where
  name : List Char
  id : List Char
  deriving DecidableEq, Repr

def RawJavaPlayer.deserialize (raw : Value) : Option RawJavaPlayer := do
  checkLength raw 2
  return {
    name := ← field raw ["name"] 0 .error Serde.string
    id := ← field raw ["id"] 1 .error Serde.string
  }

structure RawJavaPlayers where
  online : UInt32
  max : UInt32
  sample : Option (List RawJavaPlayer)
  deriving DecidableEq, Repr

def RawJavaPlayers.deserialize (raw : Value) : Option RawJavaPlayers := do
  checkLength raw 3
  return {
    online := ← field raw ["online"] 0 .error Serde.u32
    max := ← field raw ["max"] 1 .error Serde.u32
    sample := ← field raw ["sample"] 2 (.default none)
      (Serde.option (Serde.vec RawJavaPlayer.deserialize))
  }

structure RawJavaVersion where
  name : List Char
  protocol : UInt32
  deriving DecidableEq, Repr

def RawJavaVersion.deserialize (raw : Value) : Option RawJavaVersion := do
  checkLength raw 2
  return {
    name := ← field raw ["name"] 0 .error Serde.string
    protocol := ← field raw ["protocol"] 1 .error Serde.u32
  }

structure RawForgeMod where
  mod_id : Option (List Char)
  mod_marker : Option (List Char)
  mod_name : Option (List Char)
  version : Option (List Char)
  deriving DecidableEq, Repr

def RawForgeMod.deserialize (raw : Value) : Option RawForgeMod := do
  checkLength raw 4
  return {
    mod_id := ← field raw ["modId"] 0 (.option none) (Serde.option Serde.string)
    mod_marker := ← field raw ["modmarker"] 1 (.option none) (Serde.option Serde.string)
    mod_name := ← field raw ["modName"] 2 (.option none) (Serde.option Serde.string)
    version := ← field raw ["version"] 3 (.option none) (Serde.option Serde.string)
  }

structure RawForgeChannel where
  res : List Char
  version : List Char
  required : Bool
  deriving DecidableEq, Repr

def RawForgeChannel.deserialize (raw : Value) : Option RawForgeChannel := do
  checkLength raw 3
  return {
    res := ← field raw ["res"] 0 .error Serde.string
    version := ← field raw ["version"] 1 .error Serde.string
    required := ← field raw ["required"] 2 .error Serde.bool
  }

structure RawForgeData where
  mods : Option (List RawForgeMod)
  channels : Option (List RawForgeChannel)
  fml_network_version : Option UInt32
  truncated : Option Bool
  d : Option (List Char)
  deriving DecidableEq, Repr

def RawForgeData.deserialize (raw : Value) : Option RawForgeData := do
  checkLength raw 5
  return {
    mods := ← field raw ["mods"] 0 (.default none)
      (Serde.option (Serde.vec RawForgeMod.deserialize))
    channels := ← field raw ["channels"] 1 (.default none)
      (Serde.option (Serde.vec RawForgeChannel.deserialize))
    fml_network_version := ← field raw ["fmlNetworkVersion"] 2 (.option none)
      (Serde.option Serde.u32)
    truncated := ← field raw ["truncated"] 3 (.default none) (Serde.option Serde.bool)
    d := ← field raw ["d"] 4 (.default none) (Serde.option Serde.string)
  }

def optionToValue {α : Type} (toValue : α → Value) (a : Option α) : Value :=
  match a with
  | some a => toValue a
  | none => .null

def RawForgeMod.toValue (mod : RawForgeMod) : Value :=
  .object [
    ("modId".toList, optionToValue .string mod.mod_id),
    ("modmarker".toList, optionToValue .string mod.mod_marker),
    ("modName".toList, optionToValue .string mod.mod_name),
    ("version".toList, optionToValue .string mod.version)
  ]

def RawForgeChannel.toValue (channel : RawForgeChannel) : Value :=
  .object [
    ("res".toList, .string channel.res),
    ("version".toList, .string channel.version),
    ("required".toList, .bool channel.required)
  ]

def RawForgeData.toValue (data : RawForgeData) : Value :=
  .object [
    ("mods".toList, optionToValue (fun mods => .array (mods.map RawForgeMod.toValue)) data.mods),
    ("channels".toList,
      optionToValue (fun channels => .array (channels.map RawForgeChannel.toValue)) data.channels),
    ("fmlNetworkVersion".toList,
      optionToValue (fun n => .number (.posInt n.toUInt64)) data.fml_network_version),
    ("truncated".toList, optionToValue .bool data.truncated),
    ("d".toList, optionToValue .string data.d)
  ]

structure RawJavaResponse where
  description : RawMotd
  players : Option RawJavaPlayers
  version : Option RawJavaVersion
  enforces_secure_chat : Option Bool
  favicon : Option (List Char)
  forge_data : Option Value
  /-- Pre-1.18.1 forge data location -/
  modinfo : Option RawForgeData

def RawJavaResponse.deserialize (raw : Value) : Option RawJavaResponse := do
  checkLength raw 7
  return {
    description := ← field raw ["description"] 0 (.default .default) RawMotd.deserialize
    players := ← field raw ["players"] 1 (.option none) (Serde.option RawJavaPlayers.deserialize)
    version := ← field raw ["version"] 2 (.option none) (Serde.option RawJavaVersion.deserialize)
    enforces_secure_chat := ← field raw ["enforcesSecureChat"] 3 (.option none)
      (Serde.option Serde.bool)
    favicon := ← field raw ["favicon"] 4 (.default none) (Serde.option Serde.string)
    forge_data := ← field raw ["forge_data", "forgeData"] 5 (.default none)
      (Serde.option Serde.value)
    modinfo := ← field raw ["modinfo"] 6 (.default none) (Serde.option RawForgeData.deserialize)
  }

theorem RawForgeData.deserialize_eq_some_iff {raw : Value} {data : RawForgeData}
    : deserialize raw = some data
        ↔ checkLength raw 5 = some ()
          ∧ field raw ["mods"] 0 (.default none) (Serde.option (Serde.vec RawForgeMod.deserialize))
              = some data.mods
          ∧ field raw ["channels"] 1 (.default none)
              (Serde.option (Serde.vec RawForgeChannel.deserialize)) = some data.channels
          ∧ field raw ["fmlNetworkVersion"] 2 (.option none) (Serde.option Serde.u32)
              = some data.fml_network_version
          ∧ field raw ["truncated"] 3 (.default none) (Serde.option Serde.bool)
            = some data.truncated
          ∧ field raw ["d"] 4 (.default none) (Serde.option Serde.string) = some data.d := by
  cases data
  simp only [deserialize, bind, Option.bind_eq_some_iff, pure, Option.some.injEq,
    RawForgeData.mk.injEq]
  constructor
  . rintro ⟨_, hlen, m, hm, c, hc, f, hf, t, ht, d, hd, rfl, rfl, rfl, rfl, rfl⟩
    exact ⟨hlen, hm, hc, hf, ht, hd⟩
  . rintro ⟨hlen, hm, hc, hf, ht, hd⟩
    exact ⟨(), hlen, _, hm, _, hc, _, hf, _, ht, _, hd, rfl, rfl, rfl, rfl, rfl⟩

theorem RawJavaResponse.deserialize_eq_some_iff {raw_json : Value} {raw : RawJavaResponse}
    : deserialize raw_json = some raw
        ↔ checkLength raw_json 7 = some ()
          ∧ field raw_json ["description"] 0 (.default .default) RawMotd.deserialize
              = some raw.description
          ∧ field raw_json ["players"] 1 (.option none) (Serde.option RawJavaPlayers.deserialize)
              = some raw.players
          ∧ field raw_json ["version"] 2 (.option none) (Serde.option RawJavaVersion.deserialize)
              = some raw.version
          ∧ field raw_json ["enforcesSecureChat"] 3 (.option none) (Serde.option Serde.bool)
              = some raw.enforces_secure_chat
          ∧ field raw_json ["favicon"] 4 (.default none) (Serde.option Serde.string)
              = some raw.favicon
          ∧ field raw_json ["forge_data", "forgeData"] 5 (.default none) (Serde.option Serde.value)
              = some raw.forge_data
          ∧ field raw_json ["modinfo"] 6 (.default none) (Serde.option RawForgeData.deserialize)
              = some raw.modinfo := by
  cases raw
  simp only [deserialize, bind, Option.bind_eq_some_iff, pure, Option.some.injEq,
    RawJavaResponse.mk.injEq]
  constructor
  . rintro ⟨_, hlen, d, hd, p, hp, v, hv, e, he, f, hf, g, hg, m, hm, rfl, rfl, rfl, rfl, rfl, rfl,
      rfl⟩
    exact ⟨hlen, hd, hp, hv, he, hf, hg, hm⟩
  . rintro ⟨hlen, hd, hp, hv, he, hf, hg, hm⟩
    exact ⟨(), hlen, _, hd, _, hp, _, hv, _, he, _, hf, _, hg, _, hm, rfl, rfl, rfl, rfl, rfl, rfl,
      rfl⟩

end Rust

end McStatus
