import McStatus.Python.Forge.StringBuffer

/-!
This module contains the decoder of Forge's mod data in `mcstatus/responses/forge.py`.
-/

namespace McStatus

open Reader

namespace Python

open BaseSyncReader

namespace StringBuffer

def readOptimizedSize : Py StringBuffer Int := do
  let low ← readValue .short
  let high ← readValue .short
  return Int.lor low (high * 2 ^ 15)

/-- What the loop of `read_optimized_buffer` carries: the buffer, `value` and `bits`. -/
structure Carry where
  buffer : Buffer
  value : Nat
  bits : Int

/-- `value |= (self.read_value(StructFormat.SHORT) & 0x7FFF) << bits; bits += 15` -/
def refill (carry : Carry) : Py StringBuffer Carry := do
  if carry.bits < 8 ∧ (← get).remaining ≠ 0 then
    -- ignoring the sign bit
    let short ← readValue .short
    if carry.bits < 0 then
      throw (.valueError .negativeShift)
    else
      return { carry with
        value := carry.value ||| ((Int.land short 0x7FFF).toNat <<< carry.bits.toNat)
        bits := carry.bits + 15
      }
  else
    return carry

/-- `buffer.write((value & 0xFF).to_bytes(1, "big")); value >>= 8; bits -= 8` -/
def writeByte (carry : Carry) : Carry where
  buffer := carry.buffer.append [UInt8.ofNat (carry.value &&& 0xFF)]
  value := carry.value >>> 8
  bits := carry.bits - 8

/-- `read_optimized_buffer`, with `left` bytes of the buffer to be written. -/
def readOptimizedBuffer.go (left : Nat) (carry : Carry) : Py StringBuffer Buffer :=
  match left with
  | 0 => return carry.buffer
  | left + 1 => do
    let carry ← refill carry
    go left (writeByte carry)

def readOptimizedBuffer : Py StringBuffer Buffer := do
  let size ← readOptimizedSize
  -- every turn of `while buffer.remaining < size` writes one byte
  readOptimizedBuffer.go size.toNat { buffer := Buffer.ofBytes [], value := 0, bits := 0 }

end StringBuffer

structure ForgeDataChannel where
  name : List Char
  version : List Char
  required : Bool
  deriving DecidableEq, Repr

structure RawForgeDataChannel where
  res : List Char
  version : List Char
  required : Bool
  deriving DecidableEq, Repr

namespace ForgeDataChannel

def build (raw : RawForgeDataChannel) : ForgeDataChannel where
  name := raw.res
  version := raw.version
  required := raw.required

def decode (mod_id : Option (List Char)) : Py Buffer ForgeDataChannel := do
  let channel_identifier ← readUtf
  let channel_identifier := match mod_id with
    | some mod_id => mod_id ++ ':' :: channel_identifier
    | none => channel_identifier
  let version ← readUtf
  let client_required ← readValue .bool
  return { name := channel_identifier, version := version, required := client_required }

end ForgeDataChannel

structure ForgeDataMod where
  name : List Char
  marker : List Char
  deriving DecidableEq, Repr

structure RawForgeDataMod where
  modid : Option (List Char) := none
  modId : Option (List Char) := none
  modmarker : Option (List Char) := none
  version : Option (List Char) := none
  deriving DecidableEq, Repr

def ignoreServerOnly : List Char :=
  "<not required for client>".toList

def versionFlagIgnoreServerOnly : Int :=
  0b1

namespace ForgeDataMod

/-- `build`. The messages go on with the entry itself, which is left out here. -/
def build (raw : RawForgeDataMod) : Except Exception ForgeDataMod :=
  match raw.modmarker <|> raw.version with
  | none => .error (.keyError "Mod version in Forge mod data must be provided.".toList)
  | some mod_version =>
    match raw.modid <|> raw.modId with
    | none => .error (.keyError "Mod ID in Forge mod data must be provided.".toList)
    | some mod_id => .ok { name := mod_id, marker := mod_version }

/-- The marker of a mod: its version, unless `is_server`. -/
def readMarker (is_server : Bool) : Py Buffer (List Char) :=
  if ¬ is_server then readUtf else pure ignoreServerOnly

def decode : Py Buffer (ForgeDataMod × List ForgeDataChannel) := do
  let channel_version_flags ← readVarint
  let channel_count := channel_version_flags >>> 1
  let is_server := Int.land channel_version_flags versionFlagIgnoreServerOnly ≠ 0
  let mod_id ← readUtf
  let mod_version ← readMarker is_server
  let channels ← listM channel_count.toNat (ForgeDataChannel.decode (some mod_id))
  return ({ name := mod_id, marker := mod_version }, channels)

end ForgeDataMod

structure ForgeData where
  fml_network_version : Int
  channels : List ForgeDataChannel
  mods : List ForgeDataMod
  truncated : Bool
  deriving DecidableEq, Repr

structure RawForgeData where
  fmlNetworkVersion : Option Int := none
  channels : Option (List RawForgeDataChannel) := none
  mods : Option (List RawForgeDataMod) := none
  modList : Option (List RawForgeDataMod) := none
  d : Option (List Char) := none
  deriving DecidableEq, Repr

namespace ForgeData

def decodeOptimized (string : List Char) : Except Exception Buffer :=
  match StringBuffer.readOptimizedBuffer (StringBuffer.ofString string) with
  | .ok buffer _ => .ok buffer
  | .error e _ => .error e

/-- The local variables of `build` that its `try` block changes. -/
structure Locals where
  buffer : Buffer
  channels : List ForgeDataChannel := []
  mods : List ForgeDataMod := []

def onBuffer {α : Type} (x : Py Buffer α) : Py Locals α :=
  zoom Locals.buffer (fun locals buffer => { locals with buffer := buffer }) x

def pushMod (mod : ForgeDataMod) (mod_channels : List ForgeDataChannel) (locals : Locals)
    : Locals :=
  { locals with
    channels := locals.channels ++ mod_channels
    mods := locals.mods ++ [mod]
  }

def pushChannel (channel : ForgeDataChannel) (locals : Locals) : Locals :=
  { locals with channels := locals.channels ++ [channel] }

def modStep : Py Locals Unit := do
  let (mod, mod_channels) ← onBuffer ForgeDataMod.decode
  modify (pushMod mod mod_channels)

/-- `channels.extend` takes one channel from its generator. -/
def channelStep : Py Locals Unit := do
  let channel ← onBuffer (ForgeDataChannel.decode none)
  modify (pushChannel channel)

/-- The body of the `try`. What a generator yields before it raises is in the list. -/
def decodeLists (mod_count : Int) : Py Locals Unit := do
  timesM mod_count.toNat modStep
  let non_mod_channel_count ← onBuffer readVarint
  timesM non_mod_channel_count.toNat channelStep

/-- `try: ... except OSError: if not truncated: raise` -/
def catchTruncated (truncated : Bool) (x : Py Locals Unit) : Py Locals Unit :=
  tryCatch x fun e =>
    match e with
    | .osError _ => if ¬ truncated then throw e else pure ()
    | _ => throw e

/-- `build` from the buffer on. -/
def buildOptimized (fml_network_version : Int) : Py Locals ForgeData := do
  let truncated ← onBuffer (readValue .bool)
  let mod_count ← onBuffer (readValue .ushort)
  catchTruncated truncated (decodeLists mod_count)
  let locals ← get
  return {
    fml_network_version := fml_network_version
    channels := locals.channels
    mods := locals.mods
    truncated := truncated
  }

/-- `raw.get("mods") or raw.get("modList")`, where an empty list counts as nothing. -/
def modList (raw : RawForgeData) : Option (List RawForgeDataMod) :=
  match raw.mods with
  | none | some [] => raw.modList
  | some mods => some mods

def build (raw : RawForgeData) : Except Exception ForgeData := do
  let fml_network_version := raw.fmlNetworkVersion.getD 1
  match raw.d with
  | none =>
    match modList raw with
    | none => throw (.keyError "Neither `mods` or `modList` keys exist.".toList)
    | some mod_list =>
      return {
        fml_network_version := fml_network_version
        channels := (raw.channels.getD []).map ForgeDataChannel.build
        mods := ← mod_list.mapM ForgeDataMod.build
        truncated := false
      }
  | some d =>
    let buffer ← decodeOptimized d
    match buildOptimized fml_network_version { buffer := buffer } with
    | .ok data _ => return data
    | .error e _ => throw e

end ForgeData

end Python

end McStatus
