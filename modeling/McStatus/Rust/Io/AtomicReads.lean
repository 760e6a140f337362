import McStatus.Rust.Io.Buffer

/-!
This module contains runs of the public operations of a `Buffer`, and shows which lengths
`read_bytes` can be called with after one: either it reads them whole, or it returns an error and
nothing changes.
-/

namespace McStatus

namespace Rust

namespace Buffer

/-- A call of one of the operations that take `&mut self`. -/
inductive Op where
  | reset
  | clear
  | writeBytes (data : List UInt8)
  | writeUbyte (value : UInt8)
  | writeUshort (value : UInt16)
  | writeUint (value : UInt32)
  | writeUlonglong (value : UInt64)
  | writeByte (value : Int8)
  | writeShort (value : Int16)
  | writeBool (value : Bool)
  | readBytes (length : UInt64)
  | readUbyte
  | readUshort
  | readUint
  | readUlonglong
  | readBool
  /-- `std::io::Write` -/
  | write (data : List UInt8)
  | flush
  /-- `std::io::Read`, into a slice of `length` bytes. -/
  | read (length : UInt64)

def Op.exec (op : Op) : Io Buffer Unit :=
  match op with
  | reset => Buffer.reset
  | clear => Buffer.clear
  | writeBytes data => Buffer.writeBytes data
  | writeUbyte value => Buffer.writeUbyte value
  | writeUshort value => Buffer.writeUshort value
  | writeUint value => Buffer.writeUint value
  | writeUlonglong value => Buffer.writeUlonglong value
  | writeByte value => Buffer.writeByte value
  | writeShort value => Buffer.writeShort value
  | writeBool value => Buffer.writeBool value
  | readBytes length => discard (Buffer.readBytes length.toNat)
  | readUbyte => discard Buffer.readUbyte
  | readUshort => discard Buffer.readUshort
  | readUint => discard Buffer.readUint
  | readUlonglong => discard Buffer.readUlonglong
  | readBool => discard Buffer.readBool
  | write data => discard (Buffer.write data)
  | flush => Buffer.flush
  | read length => discard (Buffer.read length.toNat)

def Op.after (op : Op) (b : Buffer) : Buffer :=
  match op.exec b with
  | .ok _ b' => b'
  | .error _ b' => b'

/-- The buffer after `from_bytes(data)` (or `new()`, where there is none) and the operations. -/
def run (data : List UInt8) (ops : List Op) : Buffer :=
  ops.foldl (fun b op => op.after b) (fromBytes data)

/-- `read_bytes(length)` returns the next bytes, or there are not enough of them and it fails. -/
structure ReadsAtomically (b : Buffer) (length : Nat) : Prop where
  ok : length ≤ b.remaining → ∃ b', readBytes length b = .ok (b.unread.take length) b'
    ∧ b'.data = b.data ∧ b'.pos = b.pos + length
  error : b.remaining < length → ∃ e, readBytes length b = .error (.error e) b

theorem remaining_lt_iff (b : Buffer) (length : Nat)
    : b.remaining < length ↔ b.data.length < b.pos + length := by
  have := b.pos_le
  rw [remaining]
  omega

theorem readBytes_of_overflow {b : Buffer} {length : Nat} (hzero : length ≠ 0)
    (h : 2 ^ 64 ≤ b.pos + length) : readBytes length b = .error .panic b := by
  rw [readBytes, if_neg hzero, if_pos h]

theorem readsAtomically_iff (b : Buffer) (length : Nat)
    : ReadsAtomically b length ↔ length = 0 ∨ b.pos + length < 2 ^ 64 := by
  by_cases hzero : length = 0
  . subst hzero
    refine iff_of_true ?_ (Or.inl rfl)
    exact { ok := fun _ => ⟨b, rfl, rfl, rfl⟩, error := nofun }
  by_cases hfits : b.pos + length < 2 ^ 64
  . refine iff_of_true ?_ (Or.inr hfits)
    constructor
    . intro hle
      have hend : ¬ b.pos + length > b.data.length := by
        rw [gt_iff_lt, ← remaining_lt_iff]
        omega
      refine ⟨{ data := b.data, pos := b.pos + length, pos_le := Nat.le_of_not_lt hend },
        ?_, rfl, rfl⟩
      rw [readBytes, if_neg hzero, if_neg (by omega), dif_neg hend]
    . intro hlt
      have herror : readBytes length b = .error (.error (.new .unexpectedEof
          s!"Not enough bytes to read: requested {length}, available {b.remaining}")) b := by
        rw [readBytes, if_neg hzero, if_neg (by omega),
          dif_pos ((remaining_lt_iff b length).mp hlt)]
      exact ⟨_, herror⟩
  . -- the sum overflows, so neither outcome is reached
    have hpanic := readBytes_of_overflow hzero (Nat.le_of_not_lt hfits)
    refine iff_of_false ?_ (by omega)
    intro h
    rcases Nat.lt_or_ge b.remaining length with hlt | hge
    . rcases h.error hlt with ⟨e, herror⟩
      rw [hpanic] at herror
      cases herror
    . rcases h.ok hge with ⟨b', hok, _⟩
      rw [hpanic] at hok
      cases hok

theorem run_readsAtomically_iff (data : List UInt8) (ops : List Op) (length : UInt64)
    : (run data ops).pos ≤ (run data ops).data.length
        ∧ (ReadsAtomically (run data ops) length.toNat
          ↔ length = 0 ∨ (run data ops).pos + length.toNat < 2 ^ 64) := by
  refine ⟨(run data ops).pos_le, ?_⟩
  rw [readsAtomically_iff, ← UInt64.toNat_inj]
  rfl

theorem not_readsAtomically_max
    : readBytes 0xFFFFFFFFFFFFFFFF (run [1, 2] [.readUbyte])
          = .error .panic (run [1, 2] [.readUbyte])
        ∧ ¬ ∀ data ops, ∀ length : UInt64, ReadsAtomically (run data ops) length.toNat := by
  refine ⟨readBytes_of_overflow (by decide) (by decide), fun h => ?_⟩
  have hmax := (readsAtomically_iff _ _).mp (h [1, 2] [.readUbyte] 0xFFFFFFFFFFFFFFFF)
  exact absurd hmax (by decide)

end Buffer

end Rust

end McStatus
