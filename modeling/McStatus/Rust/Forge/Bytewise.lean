import McStatus.Library.Grammar
import McStatus.Rust.Forge.Impl

/-!
This module contains the decoder of Forge's mod data over any way to read a byte: with that of
`src/response/forge.rs`, which reads zeros behind the end of the data, and with one that fails
there.
-/

namespace McStatus

open Reader

namespace Rust

namespace Bytewise

section

variable {ε : Type} (byte : EStateM ε StringBuffer UInt8)

def readBool : EStateM ε StringBuffer Bool := do
  return (← byte) ≠ 0

def readVaruint.go (left i : Nat) (result : UInt64) : EStateM ε StringBuffer UInt64 :=
  match left with
  | 0 => return result
  | left + 1 => do
    let b ← byte
    let result := result ||| ((b &&& 0x7F).toUInt64 <<< UInt64.ofNat (7 * i))
    if b &&& 0x80 = 0 then
      return result
    else
      go left (i + 1) result

def readVaruint : EStateM ε StringBuffer UInt64 :=
  readVaruint.go byte 5 0 0

def readUtf : EStateM ε StringBuffer (List Char) := do
  let length ← readVaruint byte
  let bytes ← listM length.toNat byte
  return (Utf8.decode? bytes).getD []

def decodeMod (truncated : Bool) : EStateM ε StringBuffer ForgeDataMod := do
  let mod_id ← readUtf byte
  let marker ← readUtf byte
  let name ← if truncated then pure none else some <$> readUtf byte
  let version ← if truncated then pure none else some <$> readUtf byte
  return { mod_id := nonEmpty mod_id, marker := nonEmpty marker, name := name, version := version }

def decodeChannel : EStateM ε StringBuffer ForgeDataChannel := do
  let name ← readUtf byte
  let version ← readUtf byte
  let required ← readBool byte
  return { name := name, version := version, required := required }

def decodeLists : EStateM ε StringBuffer (List ForgeDataChannel × List ForgeDataMod) := do
  let truncated ← readBool byte
  let num_mods ← readVaruint byte
  let mods ← listM num_mods.toNat (decodeMod byte truncated)
  let num_channels ← readVaruint byte
  let channels ← listM num_channels.toNat (decodeChannel byte)
  return (channels, mods)

end

theorem go_eq (left i : Nat) (result : UInt64)
    : StringBuffer.readVaruint.go left i result
        = readVaruint.go StringBuffer.readByte left i result := by
  induction left generalizing i result with
  | zero => rfl
  | succ left ih =>
    rw [StringBuffer.readVaruint.go, readVaruint.go]
    simp only [ih]

theorem readVaruint_eq : StringBuffer.readVaruint = readVaruint StringBuffer.readByte :=
  go_eq 5 0 0

theorem readUtf_eq : StringBuffer.readUtf = readUtf StringBuffer.readByte := by
  rw [StringBuffer.readUtf, readVaruint_eq]
  rfl

theorem decodeLists_eq : Rust.decodeLists = decodeLists StringBuffer.readByte := by
  have hmod (truncated : Bool)
      : Rust.decodeMod truncated = decodeMod StringBuffer.readByte truncated := by
    rw [Rust.decodeMod, readUtf_eq]
    rfl
  have hchannel : Rust.decodeChannel = decodeChannel StringBuffer.readByte := by
    rw [Rust.decodeChannel, readUtf_eq]
    rfl
  rw [Rust.decodeLists, readVaruint_eq, hchannel]
  simp only [hmod]
  rfl

/-- `read_byte`, but it fails behind the end of the data. -/
def existingByte : EStateM Unit StringBuffer UInt8 := do
  let buffer ← get
  match buffer.data[buffer.pos]? with
  | some byte =>
    set { buffer with pos := buffer.pos + 1 }
    return byte
  | none => throw ()

def decodeExisting (data : List Char) : Option (List ForgeDataChannel × List ForgeDataMod) :=
  let chars := data.flatMap encodeUtf16
  if chars.isEmpty then
    some ([], [])
  else
    match decodeLists existingByte { data := chars.flatMap unitBytes, pos := 0 } with
    | .ok lists _ => some lists
    | .error _ _ => none

section Agrees

variable {ε ε' : Type} {byte : EStateM ε StringBuffer UInt8} {byte' : EStateM ε' StringBuffer UInt8}

theorem agrees_go (h : Agrees byte byte') (left i : Nat) (result : UInt64)
    : Agrees (readVaruint.go byte left i result) (readVaruint.go byte' left i result) := by
  induction left generalizing i result with
  | zero => exact Agrees.pure result
  | succ left ih =>
    rw [readVaruint.go, readVaruint.go]
    refine h.bind fun b => ?_
    dsimp only
    split
    . exact Agrees.pure _
    . exact ih _ _

theorem agrees_readBool (h : Agrees byte byte') : Agrees (readBool byte) (readBool byte') :=
  h.bind fun b => Agrees.pure (decide (b ≠ 0))

theorem agrees_readUtf (h : Agrees byte byte') : Agrees (readUtf byte) (readUtf byte') :=
  (agrees_go h 5 0 0).bind fun length => (h.listM length.toNat).bind fun _ => Agrees.pure _

theorem agrees_decodeMod (h : Agrees byte byte') (truncated : Bool)
    : Agrees (decodeMod byte truncated) (decodeMod byte' truncated) := by
  have htext := agrees_readUtf h
  refine htext.bind fun mod_id => htext.bind fun marker => ?_
  cases truncated with
  | true =>
      exact (Agrees.pure none).bind fun name =>
        (Agrees.pure none).bind fun version => Agrees.pure _
  | false =>
    have hsome : Agrees (some <$> readUtf byte) (some <$> readUtf byte') := by
      rw [map_eq_pure_bind, map_eq_pure_bind]
      exact htext.bind fun text => Agrees.pure (some text)
    exact hsome.bind fun name => hsome.bind fun version => Agrees.pure _

theorem agrees_decodeChannel (h : Agrees byte byte')
    : Agrees (decodeChannel byte) (decodeChannel byte') :=
  (agrees_readUtf h).bind fun _ => (agrees_readUtf h).bind fun _ =>
    (agrees_readBool h).bind fun _ => Agrees.pure _

theorem agrees_decodeLists (h : Agrees byte byte')
    : Agrees (decodeLists byte) (decodeLists byte') :=
  (agrees_readBool h).bind fun truncated => (agrees_go h 5 0 0).bind fun num_mods =>
    ((agrees_decodeMod h truncated).listM num_mods.toNat).bind fun _ =>
    (agrees_go h 5 0 0).bind fun num_channels =>
    ((agrees_decodeChannel h).listM num_channels.toNat).bind fun _ => Agrees.pure _

end Agrees

theorem agrees_existingByte : Agrees existingByte StringBuffer.readByte := by
  intro s b s' hrun
  rw [existingByte, bind_of_ok (get_apply s)] at hrun
  rw [StringBuffer.readByte, bind_of_ok (get_apply s)]
  cases hbyte : s.data[s.pos]? with
  | some byte =>
    rw [hbyte] at hrun
    cases hrun
    rfl
  | none =>
    rw [hbyte] at hrun
    cases hrun

theorem decodeOptimizedBuffer_of_existing {data : List Char}
    {lists : List ForgeDataChannel × List ForgeDataMod} (h : decodeExisting data = some lists)
    : decodeOptimizedBuffer data = .ok lists := by
  unfold decodeExisting at h
  unfold decodeOptimizedBuffer
  dsimp only at h ⊢
  split at h
  . next hempty =>
    cases h
    rw [if_pos hempty]
  . next hempty =>
    rw [if_neg hempty]
    split at h
    . next lists' s hrun =>
      cases h
      rw [decodeLists_eq, agrees_decodeLists agrees_existingByte _ _ _ hrun]
    . cases h

end Bytewise

end Rust

end McStatus
