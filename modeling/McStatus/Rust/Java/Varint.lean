import McStatus.Rust.Io.Varint
import McStatus.Rust.Java.Impl

/-!
This module compares the varint readers of the Java client with the one of `io.rs`. The client
collects the groups in an `i32` and does not look at what the fifth group shifts out of it.
-/

namespace McStatus

open Reader

namespace Rust

theorem toNat_or_shiftLeft_i32 {i : Nat} {result : Int32} (b : UInt8) (hi : i < 5)
    (hresult : result.toUInt32.toNat < 2 ^ (7 * i))
    : (result ||| ((b &&& 0x7F).toUInt32.toInt32 <<< Int32.ofNat (7 * i))).toUInt32.toNat
        =
      (result.toUInt32.toNat + b.toNat % 128 * 2 ^ (7 * i)) % 2 ^ 32 := by
  have hdistance : ∀ i < 5, ((Int32.ofNat (7 * i)).toBitVec.smod 32).toNat = 7 * i := by decide
  have hlow : (b &&& 0x7F).toUInt32.toInt32.toBitVec.toNat = b.toNat % 128 := by
    have : (b &&& 0x7F).toUInt32.toNat = b.toNat % 128 := by
      rw [UInt8.toNat_toUInt32, UInt8.toNat_and]
      exact toNat_and_low b
    exact this
  have hbits : (result ||| ((b &&& 0x7F).toUInt32.toInt32 <<< Int32.ofNat (7 * i))).toUInt32.toNat
      = (result ||| ((b &&& 0x7F).toUInt32.toInt32 <<< Int32.ofNat (7 * i))).toBitVec.toNat := rfl
  rw [hbits, Int32.toBitVec_or, Int32.toBitVec_shiftLeft, BitVec.toNat_or, BitVec.shiftLeft_eq',
    BitVec.toNat_shiftLeft, hlow, hdistance i hi]
  exact or_shiftLeft_mod hresult (by omega) _

theorem int32_ofNat_eq {m n : Nat} (h : m % 2 ^ 32 = n % 2 ^ 32)
    : Int32.ofNat m = Int32.ofNat n := by
  have hmod (k : Nat) : ((k % 2 ^ 32 : Nat) : Int).bmod Int32.size = (k : Int).bmod Int32.size :=
    Int.emod_bmod k (2 ^ 32)
  apply Int32.toInt_inj.mp
  rw [Int32.toInt_ofNat', Int32.toInt_ofNat', ← hmod, h, hmod]

theorem ofNat_toNat_toUInt32 {r : Int32} {n : Nat} (h : r.toUInt32.toNat = n % 2 ^ 32)
    : r = Int32.ofNat n := by
  have hr : r = Int32.ofNat r.toUInt32.toNat := by
    apply Int32.toInt_inj.mp
    rw [Int32.toInt_ofNat']
    exact BitVec.toInt_eq_toNat_bmod r.toBitVec
  rw [hr]
  apply int32_ofNat_eq
  rw [h, Nat.mod_mod]

/--
`read_byte` hands out the bytes of `view` in order and returns an error at its end, as long as there
is `room` to ask for more bytes.
-/
structure ReadsBytes {σ : Type} (room : Nat → σ → Prop) (view : σ → List UInt8)
    (read_byte : EStateM Failure σ UInt8) : Prop where
  ok_of_cons {n : Nat} {s : σ} {b : UInt8} {rest : List UInt8} :
    room (n + 1) s → view s = b :: rest →
      ∃ s', read_byte s = .ok b s' ∧ view s' = rest ∧ room n s'
  error_of_nil {n : Nat} {s : σ} :
    room (n + 1) s → view s = [] → ∃ e s', read_byte s = .error (.error e) s'

namespace JavaClient

section Loop

variable {σ : Type} {room : Nat → σ → Prop} {view : σ → List UInt8}
variable {read_byte : EStateM Failure σ UInt8}

theorem readVarintLoop_go_byte {left i : Nat} {result : Int32} {b : UInt8} {s : σ}
    {rest : List UInt8} (hbytes : ReadsBytes room view read_byte) (hroom : room (left + 1) s)
    (hview : view s = b :: rest) (hi : i < 5) (hresult : result.toUInt32.toNat < 2 ^ (7 * i))
    : ∃ t : σ, ∃ result' : Int32, view t = rest ∧ room left t
        ∧ result'.toUInt32.toNat
            = (result.toUInt32.toNat + b.toNat % 128 * 2 ^ (7 * i)) % 2 ^ 32
        ∧ readVarintLoop.go read_byte (left + 1) i result s
          =
        (if b.toNat < 128 then pure result' else readVarintLoop.go read_byte left (i + 1) result'
          : EStateM Failure σ Int32) t := by
  rcases hbytes.ok_of_cons hroom hview with ⟨t, hread, hrest, hroom'⟩
  refine ⟨t, _, hrest, hroom', toNat_or_shiftLeft_i32 b hi hresult, ?_⟩
  rw [readVarintLoop.go, bind_of_ok hread]
  simp only [and_high_eq_zero_iff]

theorem readVarintLoop_go_cases {left i : Nat} {result : Int32}
    (hbytes : ReadsBytes room view read_byte)
    (hleft : left + i ≤ 5) (hresult : result.toUInt32.toNat < 2 ^ (7 * i)) (s : σ)
    (hroom : room left s)
    : (∃ input s', Varint.Starts left (view s) input (view s')
        ∧ readVarintLoop.go read_byte left i result s
            = .ok (Int32.ofNat (result.toUInt32.toNat + Varint.value input * 2 ^ (7 * i))) s')
      ∨ (∀ input rest, ¬ Varint.Starts left (view s) input rest)
        ∧ ∃ e s', readVarintLoop.go read_byte left i result s = .error (.error e) s' := by
  induction left generalizing i result s with
  | zero =>
    exact Or.inr ⟨fun _ _ => Varint.Starts.not_zero, _, s, rfl⟩
  | succ left ih =>
    cases hview : view s with
    | nil =>
      rcases hbytes.error_of_nil hroom hview with ⟨e, t, hread⟩
      refine Or.inr ⟨fun _ _ => Varint.Starts.not_nil, e, t, ?_⟩
      rw [readVarintLoop.go, bind_of_error hread]
    | cons b rest =>
      rcases readVarintLoop_go_byte hbytes hroom hview (by omega) hresult with
        ⟨t, r, hrest, hroom', hr, hgo⟩
      rw [hgo]
      by_cases hlast : b.toNat < 128
      . have hvalue := Varint.group_add_value i result.toUInt32.toNat b []
        simp only [Varint.value_nil, Nat.zero_mul, Nat.add_zero] at hvalue
        refine Or.inl ⟨[b], t, hrest ▸ Varint.Starts.last hlast, ?_⟩
        rw [if_pos hlast, hvalue, ← ofNat_toNat_toUInt32 hr]
        rfl
      . have hgroup : r.toUInt32.toNat < 2 ^ (7 * (i + 1)) :=
          hr ▸ Nat.lt_of_le_of_lt (Nat.mod_le _ _) (Varint.group_lt b hresult)
        rw [if_neg hlast]
        rcases ih (by omega) hgroup t hroom' with
          ⟨input, s', hstarts, hok⟩ | ⟨hnone, herror⟩
        . rw [hrest] at hstarts
          refine Or.inl ⟨b :: input, s', hstarts.more hlast, ?_⟩
          rw [hok, Varint.group_add_value, int32_ofNat_eq]
          rw [hr, Nat.mod_add_mod]
        . refine Or.inr ⟨?_, herror⟩
          intro input rest' hstarts
          rcases hstarts.tail hlast with ⟨input', hstarts'⟩
          rw [← hrest] at hstarts'
          exact hnone input' rest' hstarts'

def SameOutcome (view : σ → List UInt8) (r : EStateM.Result IoFailure Buffer Int32)
    (r' : EStateM.Result Failure σ Int32) : Prop :=
  (∃ v b s, r = .ok v b ∧ r' = .ok v s ∧ b.unread = view s)
    ∨ ∃ e b e' s, r = .error (.error e) b ∧ r' = .error (.error e') s

theorem readVarintLoop_sameOutcome_iff {bytes : List UInt8} {s : σ}
    (hbytes : ReadsBytes room view read_byte) (hroom : room 5 s) (hview : view s = bytes)
    : SameOutcome view (readVarint (Buffer.fromBytes bytes)) (readVarintLoop read_byte s)
        ↔
      ¬ Varint.LastOverflows 4 16 bytes := by
  rcases readVarint_readsExactly (Buffer.fromBytes bytes) with ⟨hok, herror⟩
  rcases @readVarintLoop_go_cases σ room view read_byte 5 0 0 hbytes (by decide) (by decide) s
      hroom with
    ⟨input, s', ⟨hsplit, hframed, hlen⟩, hloop⟩ | ⟨hnone, e, s', hloop⟩
  . have hvalue : (0 : Int32).toUInt32.toNat + Varint.value input * 2 ^ (7 * 0)
        = Varint.value input := by
      rw [Nat.mul_zero, Nat.pow_zero, Nat.mul_one]
      exact Nat.zero_add _
    rw [hvalue] at hloop
    rw [hview] at hsplit
    rw [hsplit, Varint.lastOverflows_iff (by decide) hframed hlen, ← hsplit]
    by_cases hlt : Varint.value input < 2 ^ 32
    . rcases hok input (view s') hsplit ⟨hframed, hlen, hlt⟩ with ⟨b, hread, hrest⟩
      have hsame : SameOutcome view (readVarint (Buffer.fromBytes bytes))
          (readVarintLoop read_byte s) := Or.inl ⟨_, b, s', hread, hloop, hrest⟩
      exact ⟨fun _ => by omega, fun _ => hsame⟩
    . -- the loop returns what is left of the number, the other reader refuses it
      have hout : ¬ ∃ input rest, LawfulRead.view (Buffer.fromBytes bytes) = input ++ rest
          ∧ Varint.InRange 32 input := by
        rintro ⟨input', rest, hsplit', hrange⟩
        have hsame := hframed.unique hrange.framed (hsplit.symm.trans hsplit')
        exact hlt (hsame.1 ▸ hrange.value_lt)
      rcases herror hout with ⟨e, b, hread⟩
      constructor
      . rintro (⟨v, b', t, hread', -⟩ | ⟨e, b', e', t, -, hloop'⟩)
        . rw [hread] at hread'
          cases hread'
        . rw [readVarintLoop, hloop] at hloop'
          cases hloop'
      . intro hfits
        omega
  . rw [hview] at hnone
    have hout : ¬ ∃ input rest, LawfulRead.view (Buffer.fromBytes bytes) = input ++ rest
        ∧ Varint.InRange 32 input := by
      rintro ⟨input, rest, hsplit, hrange⟩
      exact hnone input rest ⟨hsplit, hrange.framed, hrange.length_le⟩
    rcases herror hout with ⟨e', b, hread⟩
    have hfits : ¬ Varint.LastOverflows 4 16 bytes := by
      intro hover
      rcases hover.framed with ⟨input, rest, hsplit, hframed, hlen⟩
      exact hnone input rest ⟨hsplit, hframed, by omega⟩
    exact ⟨fun _ => hfits, fun _ => Or.inr ⟨e', b, e, s', hread, hloop⟩⟩

end Loop

theorem readsBytes_buffer
    : ReadsBytes (fun n (b : Buffer) => b.pos + n < 2 ^ 64) Buffer.unread (do
        let byte ← mapErr (fun e => .protocol s!"Failed to read varint byte: {e.display}")
          (Buffer.readBytes 1)
        ofExec (index byte 0)) where
  ok_of_cons := by
    intro n s b rest hroom hview
    have hlen := congrArg List.length hview
    rw [Buffer.length_unread, Buffer.remaining, List.length_cons] at hlen
    have hfit : ¬ (s.pos + 1 > s.data.length) := by omega
    have hread : Buffer.readBytes 1 s
        = .ok [b] { data := s.data, pos := s.pos + 1, pos_le := Nat.le_of_not_lt hfit } := by
      rw [Buffer.readBytes, if_neg (by decide), if_neg (by omega), dif_neg hfit, hview]
      rfl
    refine ⟨{ data := s.data, pos := s.pos + 1, pos_le := Nat.le_of_not_lt hfit }, ?_, ?_, ?_⟩
    . rw [bind_of_ok (mapErr_of_ok hread)]
      rfl
    . change s.data.drop (s.pos + 1) = rest
      have hdrop : s.data.drop (s.pos + 1) = s.unread.drop 1 := by
        rw [Buffer.unread, List.drop_drop]
      rw [hdrop, hview]
      rfl
    . change s.pos + 1 + n < 2 ^ 64
      omega
  error_of_nil := by
    intro n s hroom hview
    have hlen := congrArg List.length hview
    rw [Buffer.length_unread, Buffer.remaining, List.length_nil] at hlen
    have hpos := s.pos_le
    have hcut : s.pos + 1 > s.data.length := by omega
    have hread : Buffer.readBytes 1 s = .error (.error (.new .unexpectedEof
        s!"Not enough bytes to read: requested {1}, available {s.remaining}")) s := by
      rw [Buffer.readBytes, if_neg (by decide), if_neg (by omega), dif_pos hcut]
    exact ⟨_, s, bind_of_error (mapErr_of_error hread)⟩

theorem readsBytes_tcpConnection
    : ReadsBytes (fun _ _ => True) TcpConnection.incoming TcpConnection.readByte where
  ok_of_cons := by
    intro n c b rest _ hview
    have hexact : TcpConnection.readExact 1 c = .ok [b] { c with incoming := rest } := by
      simp [TcpConnection.readExact, hview]
    refine ⟨{ c with incoming := rest }, ?_, rfl, trivial⟩
    rw [TcpConnection.readByte, bind_of_ok hexact]
    rfl
  error_of_nil := by
    intro n c _ hview
    have hexact : TcpConnection.readExact 1 c
        = .error (.error c.failure) { c with incoming := [] } := by
      simp [TcpConnection.readExact, hview]
    exact ⟨_, _, bind_of_error hexact⟩

theorem readVarint_agree_iff (bytes : List UInt8) (failure : McStatusError)
    : SameOutcome Buffer.unread (readVarint (Buffer.fromBytes bytes))
          (readVarintFromBuffer (Buffer.fromBytes bytes))
        ∧ SameOutcome TcpConnection.incoming (readVarint (Buffer.fromBytes bytes))
          (readVarintFromStream { incoming := bytes, failure := failure })
        ↔
      ¬ Varint.LastOverflows 4 16 bytes := by
  have hroom : (Buffer.fromBytes bytes).pos + 5 < 2 ^ 64 := by
    change 0 + 5 < 2 ^ 64
    decide
  have hbuffer : SameOutcome Buffer.unread (readVarint (Buffer.fromBytes bytes))
      (readVarintFromBuffer (Buffer.fromBytes bytes)) ↔ ¬ Varint.LastOverflows 4 16 bytes :=
    readVarintLoop_sameOutcome_iff readsBytes_buffer hroom rfl
  have hstream : SameOutcome TcpConnection.incoming (readVarint (Buffer.fromBytes bytes))
      (readVarintFromStream { incoming := bytes, failure := failure })
        ↔ ¬ Varint.LastOverflows 4 16 bytes :=
    readVarintLoop_sameOutcome_iff readsBytes_tcpConnection trivial rfl
  rw [hbuffer, hstream, and_self]

/-- `2 ^ 32` is refused by `read_varint` and read as `0` by the client. -/
theorem readVarint_not_agree
    : ¬ (SameOutcome Buffer.unread (readVarint (Buffer.fromBytes [0x80, 0x80, 0x80, 0x80, 0x10]))
          (readVarintFromBuffer (Buffer.fromBytes [0x80, 0x80, 0x80, 0x80, 0x10]))
        ∧ SameOutcome TcpConnection.incoming
          (readVarint (Buffer.fromBytes [0x80, 0x80, 0x80, 0x80, 0x10]))
          (readVarintFromStream
            { incoming := [0x80, 0x80, 0x80, 0x80, 0x10], failure := .timeout })) := by
  rintro ⟨-, hstream⟩
  refine (@readVarintLoop_sameOutcome_iff TcpConnection _ _ _ _
    { incoming := _, failure := .timeout }
    readsBytes_tcpConnection trivial rfl).mp hstream ?_
  exact ⟨List.replicate 4 0x80, 0x10, [], rfl, rfl, by simp, by decide, by decide⟩

end JavaClient

end Rust

end McStatus
