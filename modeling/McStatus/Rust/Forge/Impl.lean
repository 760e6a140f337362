import McStatus.Library.Reader
import McStatus.Library.Text
import McStatus.Library.Utf16
import McStatus.Rust.Json

/-!
This module contains the decoder of Forge's mod data in `src/response/forge.rs`.
-/

namespace McStatus

open Reader

namespace Rust

structure ForgeDataChannel where
  name : List Char
  version : List Char
  required : Bool
  deriving DecidableEq, Repr

structure ForgeDataMod where
  mod_id : Option (List Char)
  marker : Option (List Char)
  name : Option (List Char)
  version : Option (List Char)
  deriving DecidableEq, Repr

structure ForgeData where
  fml_network_version : Option UInt32
  channels : List ForgeDataChannel
  mods : List ForgeDataMod
  truncated : Option Bool
  deriving DecidableEq, Repr

def encodeUtf16 (c : Char) : List UInt16 :=
  (Utf16.units c).map UInt16.ofNat

structure StringBuffer where
  data : List UInt8
  pos : Nat
  deriving DecidableEq, Repr

/-- Nothing that is done to a `StringBuffer` can fail. -/
abbrev Reading := EStateM Empty StringBuffer

namespace StringBuffer

def readByte : Reading UInt8 := do
  let buffer ← get
  match buffer.data[buffer.pos]? with
  | some byte =>
    set { buffer with pos := buffer.pos + 1 }
    return byte
  | none => return 0

def readBool : Reading Bool := do
  return (← readByte) ≠ 0

/-- The loop of `read_varuint`, with `left` turns to go. -/
def readVaruint.go (left i : Nat) (result : UInt64) : Reading UInt64 :=
  match left with
  | 0 => return result
  | left + 1 => do
    let byte ← readByte
    let result := result ||| ((byte &&& 0x7F).toUInt64 <<< UInt64.ofNat (7 * i))
    if byte &&& 0x80 = 0 then
      return result
    else
      go left (i + 1) result

def readVaruint : Reading UInt64 :=
  readVaruint.go 5 0 0

def readUtf : Reading (List Char) := do
  let length ← readVaruint
  let bytes ← listM length.toNat readByte
  return (Utf8.decode? bytes).getD []

end StringBuffer

open StringBuffer

def nonEmpty (s : List Char) : Option (List Char) :=
  if s.isEmpty then none else some s

/-- One turn of the loop over the mods in `decode_optimized_buffer`. -/
def decodeMod (truncated : Bool) : Reading ForgeDataMod := do
  let mod_id ← readUtf
  let marker ← readUtf
  let name ← if truncated then pure none else some <$> readUtf
  let version ← if truncated then pure none else some <$> readUtf
  return { mod_id := nonEmpty mod_id, marker := nonEmpty marker, name := name, version := version }

/-- One turn of the loop over the channels in `decode_optimized_buffer`. -/
def decodeChannel : Reading ForgeDataChannel := do
  let name ← readUtf
  let version ← readUtf
  let required ← readBool
  return { name := name, version := version, required := required }

/-- Two bytes for a UTF-16 unit, whose highest bit is left out. -/
def unitBytes (ch : UInt16) : List UInt8 :=
  [(ch >>> 8).toUInt8 &&& 0x7F, ch.toUInt8]

def decodeLists : Reading (List ForgeDataChannel × List ForgeDataMod) := do
  let truncated ← readBool
  let num_mods ← StringBuffer.readVaruint
  let mods ← listM num_mods.toNat (decodeMod truncated)
  let num_channels ← StringBuffer.readVaruint
  let channels ← listM num_channels.toNat decodeChannel
  return (channels, mods)

def decodeOptimizedBuffer (data : List Char)
    : Except String (List ForgeDataChannel × List ForgeDataMod) :=
  let chars := data.flatMap encodeUtf16
  if chars.isEmpty then
    .ok ([], [])
  else
    match decodeLists { data := chars.flatMap unitBytes, pos := 0 } with
    | .ok lists _ => .ok lists

def ForgeDataChannel.build (raw : Value) : Except String ForgeDataChannel :=
  match raw with
  | .object obj => .ok {
      name := ((Value.get obj "res".toList).bind Value.asStr).getD []
      version := ((Value.get obj "version".toList).bind Value.asStr).getD []
      required := ((Value.get obj "required".toList).bind Value.asBool).getD false
    }
  | _ => .error "Channel must be a JSON object"

def ForgeDataMod.build (raw : Value) : Except String ForgeDataMod :=
  match raw with
  | .object obj => .ok {
      mod_id := (Value.get obj "modId".toList).bind Value.asStr
      marker := (Value.get obj "modmarker".toList).bind Value.asStr
      name := (Value.get obj "modName".toList).bind Value.asStr
      version := (Value.get obj "version".toList).bind Value.asStr
    }
  | _ => .error "Mod must be a JSON object"

def builtItems {α : Type} (build : Value → Except String α) (obj : List (List Char × Value))
    (key : List Char) : List α :=
  match (Value.get obj key).bind Value.asArray with
  | some items => items.filterMap fun item => (build item).toOption
  | none => []

def ForgeData.build (raw : Value) : Except String ForgeData :=
  match raw with
  | .object obj => do
    let fml_network_version := ((Value.get obj "fmlNetworkVersion".toList).bind Value.asU64).map
      UInt64.toUInt32
    let truncated := (Value.get obj "truncated".toList).bind Value.asBool
    let top_mods := builtItems ForgeDataMod.build obj "mods".toList
    let top_channels := builtItems ForgeDataChannel.build obj "channels".toList
    match (Value.get obj ['d']).bind Value.asStr with
    | some d_field =>
      let (channels, mods_from_d) ← decodeOptimizedBuffer d_field
      return {
        fml_network_version := fml_network_version
        channels := channels ++ top_channels
        mods := mods_from_d ++ top_mods
        truncated := truncated
      }
    | none =>
      return {
        fml_network_version := fml_network_version
        channels := top_channels
        mods := top_mods
        truncated := truncated
      }
  | _ => .error "Forge data must be a JSON object"

end Rust

end McStatus
