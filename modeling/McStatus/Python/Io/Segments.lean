import McStatus.Library.Mirror
import McStatus.Python.Io.Connection
import McStatus.Python.Io.Lemmas.Read

/-!
This module shows that it makes no difference to a `TCPSocketConnection` how the bytes of a stream
are split up on their way: it reads what a `Buffer` reads.
-/

namespace McStatus

open Reader

namespace Python

/-- A socket that is sent a stream, of which the coming calls of `recv` get parts of any sizes. -/
structure Segments where
  incoming : List UInt8
  sizes : Nat → Nat

namespace Segments

/-- At least one byte and at most `n` of them, or none at the end of the stream. -/
def recv (n : Nat) : Py Segments (List UInt8) := fun s =>
  let size := min n (max 1 (s.sizes 0))
  .ok (s.incoming.take size)
    { incoming := s.incoming.drop size, sizes := fun call => s.sizes (call + 1) }

instance : Socket Segments where
  recv := recv
  sendall _ := pure ()
  available s := s.incoming.length
  available_lt := by
    intro n s s' data h hne
    rw [recv, EStateM.Result.ok.injEq] at h
    rcases h with ⟨rfl, rfl⟩
    have hpos := List.length_pos_iff.mpr hne
    rw [List.length_take] at hpos
    rw [List.length_drop]
    omega

theorem recv_eq {n : Nat} (hn : n ≠ 0) (s : Segments)
    : ∃ size s', 1 ≤ size ∧ size ≤ n ∧ Socket.recv n s = .ok (s.incoming.take size) s'
        ∧ s'.incoming = s.incoming.drop size :=
  ⟨min n (max 1 (s.sizes 0)), _, by omega, Nat.min_le_left _ _, rfl, rfl⟩

instance : BaseSyncReader Segments where
  read := TCPSocketConnection.read
  available s := s.incoming.length
  available_lt := TCPSocketConnection.available_lt_of_read

theorem readLoop_of_le {missing : Nat} {s : Segments} (h : missing ≤ s.incoming.length)
    : ∃ s', TCPSocketConnection.readLoop missing s = .ok (s.incoming.take missing) s'
        ∧ s'.incoming = s.incoming.drop missing := by
  induction missing using Nat.strongRecOn generalizing s with
  | ind missing ih =>
    unfold TCPSocketConnection.readLoop
    by_cases hzero : missing = 0
    . rw [if_pos hzero, hzero]
      exact ⟨s, rfl, rfl⟩
    . rcases recv_eq hzero s with ⟨size, t, hpos, hle, hrecv, ht⟩
      have hlen : (s.incoming.take size).length = size := List.length_take_of_le (by omega)
      rcases ih (missing - size) (by omega) (s := t)
          (by rw [ht, List.length_drop]; omega) with ⟨s', hrest, hview⟩
      rw [if_neg hzero, bind_of_ok hrecv, hlen, if_neg (by omega), bind_of_ok hrest, ht]
      refine ⟨s', ?_, ?_⟩
      . rw [pure_apply, ← List.take_add, Nat.add_sub_cancel' hle]
      . rw [hview, ht, List.drop_drop, Nat.add_sub_cancel' hle]

theorem readLoop_of_lt {missing : Nat} {s : Segments} (h : s.incoming.length < missing)
    : ∃ s', TCPSocketConnection.readLoop missing s = .error (.osError .noInformation) s' := by
  induction missing using Nat.strongRecOn generalizing s with
  | ind missing ih =>
    unfold TCPSocketConnection.readLoop
    have hzero : missing ≠ 0 := by omega
    rcases recv_eq hzero s with ⟨size, t, hpos, hle, hrecv, ht⟩
    rw [if_neg hzero, bind_of_ok hrecv]
    by_cases hend : (s.incoming.take size).length = 0
    . rw [if_pos hend]
      exact ⟨t, rfl⟩
    . rw [if_neg hend]
      rw [List.length_take] at hend ⊢
      rcases ih (missing - min size s.incoming.length) (by omega) (s := t)
          (by rw [ht, List.length_drop]; omega) with ⟨s', hrest⟩
      exact ⟨s', bind_of_error hrest⟩

end Segments

/-- The same exception, or two that `except OSError` catches. -/
def Exception.Alike (e e' : Exception) : Prop :=
  e = e' ∨ (e.IsOSError ∧ e'.IsOSError)

theorem Exception.Alike.refl (e : Exception) : e.Alike e :=
  Or.inl rfl

section Mirrors

open BaseSyncReader

/-- A connection does what a `Buffer` does that holds what the connection is still to receive. -/
abbrev MirrorsBuffer {α : Type} (x : Py Segments α) (y : Py Buffer α) : Prop :=
  Mirrors Segments.incoming Buffer.unreadView Exception.Alike x y

theorem mirrors_read (n : Nat)
    : MirrorsBuffer (read n : Py Segments (List UInt8)) (read n : Py Buffer (List UInt8)) := by
  intro s b hview
  have hread : (read n : Py Segments (List UInt8)) s = TCPSocketConnection.readLoop n s := rfl
  have hread' : (read n : Py Buffer (List UInt8)) b = Buffer.read n b := rfl
  rw [hread, hread']
  cases Nat.lt_or_ge b.unreadView.length n with
  | inl hlt =>
    rcases Buffer.read_of_lt hlt with ⟨b', hbuffer, -⟩
    rcases Segments.readLoop_of_lt (hview ▸ hlt) with ⟨s', hsegments⟩
    rw [hsegments, hbuffer]
    exact .error (Or.inr ⟨⟨_, rfl⟩, ⟨_, rfl⟩⟩)
  | inr hle =>
    rcases Buffer.read_of_le hle with ⟨b', hbuffer, hrest⟩
    rcases Segments.readLoop_of_le (hview ▸ hle) with ⟨s', hsegments, hrest'⟩
    rw [hsegments, hbuffer, hview]
    exact .ok (by rw [hrest, hrest', hview])

theorem mirrors_ofExcept {α : Type} (x : Except Exception α)
    : MirrorsBuffer (ofExcept x) (ofExcept x) := by
  cases x with
  | ok a => exact Mirrors.pure a
  | error e => exact Mirrors.throw (.refl e)

theorem mirrors_readValue (fmt : StructFormat) : MirrorsBuffer (readValue fmt) (readValue fmt) :=
  (mirrors_read _).bind fun _ => mirrors_ofExcept _

theorem mirrors_readVaruint (max_bits : Nat)
    : MirrorsBuffer (readVaruint max_bits) (readVaruint max_bits) := by
  have hgo : ∀ left i result, MirrorsBuffer (readVaruint.go max_bits left i result)
      (readVaruint.go max_bits left i result) := by
    intro left
    induction left with
    | zero =>
      intro i result
      exact Mirrors.throw (.refl _)
    | succ left ih =>
      intro i result
      refine (mirrors_readValue .ubyte).bind fun byte => ?_
      refine Mirrors.ite (fun _ => Mirrors.throw (.refl _)) fun _ => ?_
      exact Mirrors.ite (fun _ => Mirrors.pure _) fun _ => ih _ _
  exact hgo _ _ _

theorem mirrors_readVarint : MirrorsBuffer readVarint readVarint :=
  (mirrors_readVaruint 32).bind fun _ => mirrors_ofExcept _

theorem mirrors_readVarlong : MirrorsBuffer readVarlong readVarlong :=
  (mirrors_readVaruint 64).bind fun _ => mirrors_ofExcept _

theorem mirrors_read_of_not_neg {length : Int} (h : ¬ length < 0)
    : MirrorsBuffer (read length) (read length) := by
  rcases Int.eq_ofNat_of_zero_le (Int.not_lt.mp h) with ⟨n, rfl⟩
  exact mirrors_read n

theorem mirrors_readBytearray : MirrorsBuffer readBytearray readBytearray := by
  refine mirrors_readVarint.bind fun length => ?_
  exact Mirrors.ite (fun _ => Mirrors.throw (.refl _)) mirrors_read_of_not_neg

theorem mirrors_readAscii : MirrorsBuffer readAscii readAscii := by
  refine (Mirrors.loop (fun result => ?_) []).bind fun _ => Mirrors.pure _
  refine Mirrors.ite (fun _ => ?_) fun _ => Mirrors.pure _
  exact (mirrors_read 1).bind fun _ => Mirrors.pure _

theorem mirrors_readUtf : MirrorsBuffer readUtf readUtf := by
  refine mirrors_readVarint.bind fun length => ?_
  refine Mirrors.ite (fun _ => Mirrors.throw (.refl _)) fun hneg => ?_
  refine Mirrors.ite (fun _ => Mirrors.throw (.refl _)) fun _ => ?_
  refine (mirrors_read_of_not_neg hneg).bind fun data => ?_
  refine (mirrors_ofExcept _).bind fun chars => ?_
  exact Mirrors.ite (fun _ => Mirrors.throw (.refl _)) fun _ => Mirrors.pure _

theorem mirrors_readOptional {α : Type} {reader : Py Segments α} {reader' : Py Buffer α}
    (h : MirrorsBuffer reader reader')
    : MirrorsBuffer (readOptional reader) (readOptional reader') := by
  refine (mirrors_readValue .bool).bind fun present => ?_
  exact Mirrors.ite (fun _ => Mirrors.pure _) fun _ => h.bind fun _ => Mirrors.pure _

end Mirrors

inductive ReaderCall where
  | varint
  | varlong
  | value (fmt : StructFormat)
  | bytearray
  | ascii
  | utf
  | optional (reader : ReaderCall)
  deriving DecidableEq, Repr

namespace ReaderCall

open BaseSyncReader

abbrev Value (call : ReaderCall) : Type :=
  match call with
  | varint | varlong => Int
  | value fmt => fmt.Value
  | bytearray => List UInt8
  | ascii | utf => List Char
  | optional reader => Option reader.Value

def read {σ : Type} [BaseSyncReader σ] (call : ReaderCall) : Py σ call.Value :=
  match call with
  | varint => readVarint
  | varlong => readVarlong
  | value fmt => readValue fmt
  | bytearray => readBytearray
  | ascii => readAscii
  | utf => readUtf
  | optional reader => readOptional reader.read

theorem mirrors_read (call : ReaderCall) : MirrorsBuffer call.read call.read := by
  induction call with
  | varint => exact mirrors_readVarint
  | varlong => exact mirrors_readVarlong
  | value fmt => exact mirrors_readValue fmt
  | bytearray => exact mirrors_readBytearray
  | ascii => exact mirrors_readAscii
  | utf => exact mirrors_readUtf
  | optional reader ih => exact mirrors_readOptional ih

theorem delimited_read (call : ReaderCall)
    : Delimited Buffer.unreadView Exception.IsOSError (call.read : Py Buffer call.Value) := by
  induction call with
  | varint => exact delimited_readVarint
  | varlong => exact delimited_readVarlong
  | value fmt => exact delimited_readValue fmt
  | bytearray => exact delimited_readBytearray
  | ascii => exact delimited_readAscii
  | utf => exact delimited_readUtf
  | optional reader ih => exact delimited_readOptional ih

end ReaderCall

inductive ReaderCalls where
  | done
  | call (first : ReaderCall) (next : first.Value → ReaderCalls)

namespace ReaderCalls

def run {σ : Type} [BaseSyncReader σ] (calls : ReaderCalls)
    : Py σ (List ((call : ReaderCall) × call.Value)) :=
  match calls with
  | done => return []
  | call first next => do
    let value ← first.read
    let values ← (next value).run
    return ⟨first, value⟩ :: values

theorem mirrors_run (calls : ReaderCalls) : MirrorsBuffer calls.run calls.run := by
  induction calls with
  | done => exact Mirrors.pure []
  | call first next ih =>
    exact first.mirrors_read.bind fun value => (ih value).bind fun _ => Mirrors.pure _

theorem delimited_run (calls : ReaderCalls)
    : Delimited Buffer.unreadView Exception.IsOSError
        (calls.run : Py Buffer (List ((call : ReaderCall) × call.Value))) := by
  induction calls with
  | done => exact Delimited.pure []
  | call first next ih =>
    exact first.delimited_read.bind fun value => (ih value).bind fun _ => Delimited.pure _

theorem run_isOSError {calls : ReaderCalls} {stream more : List UInt8} {b : Buffer}
    {values : List ((call : ReaderCall) × call.Value)}
    (h : calls.run (Buffer.ofBytes (stream ++ more)) = .ok values b)
    (hmore : b.remaining < more.length)
    : ∃ e b', calls.run (Buffer.ofBytes stream) = .error (.osError e) b' := by
  rcases calls.delimited_run _ _ _ h with ⟨input, hview, -, hout⟩
  rw [Buffer.unreadView_ofBytes] at hview
  have hlen := congrArg List.length hview
  rw [List.length_append, List.length_append, Buffer.length_unreadView] at hlen
  have hstart : stream <+: input := by
    apply List.prefix_of_prefix_length_le (List.prefix_append stream more)
    . rw [hview]
      exact List.prefix_append _ _
    . omega
  have hne : stream ≠ input := by
    rintro rfl
    omega
  rcases hout (Buffer.ofBytes stream) hstart hne with ⟨e, b', herror, os, rfl⟩
  exact ⟨os, b', herror⟩

end ReaderCalls

theorem run_segments (calls : ReaderCalls) (stream : List UInt8) (sizes : Nat → Nat)
    : (∀ values b, calls.run (Buffer.ofBytes stream) = .ok values b →
          ∃ s taken, calls.run (Segments.mk stream sizes) = .ok values s
            ∧ s.incoming = b.unreadView ∧ stream = taken ++ s.incoming)
        ∧ (∀ e b, calls.run (Buffer.ofBytes stream) = .error e b →
          ∃ e' s, calls.run (Segments.mk stream sizes) = .error e' s ∧ e'.Alike e)
        ∧ ∀ more values b, calls.run (Buffer.ofBytes (stream ++ more)) = .ok values b →
          b.remaining < more.length →
            (∃ e b', calls.run (Buffer.ofBytes stream) = .error (.osError e) b')
              ∧ ∃ e s, calls.run (Segments.mk stream sizes) = .error (.osError e) s := by
  have hview : (Segments.mk stream sizes).incoming = (Buffer.ofBytes stream).unreadView := rfl
  refine ⟨?_, ?_, ?_⟩
  . intro values b h
    rcases calls.mirrors_run.of_ok hview h with ⟨s, hs, hsame⟩
    rcases calls.delimited_run _ _ _ h with ⟨taken, htaken, -⟩
    exact ⟨s, taken, hs, hsame, by rw [hsame, ← htaken, Buffer.unreadView_ofBytes]⟩
  . intro e b h
    exact calls.mirrors_run.of_error hview h
  . intro more values b h hmore
    rcases ReaderCalls.run_isOSError h hmore with ⟨e, b', herror⟩
    rcases calls.mirrors_run.of_error hview herror with ⟨e', s, hs, halike⟩
    refine ⟨⟨e, b', herror⟩, ?_⟩
    rcases halike with rfl | ⟨⟨os, rfl⟩, -⟩
    . exact ⟨e, s, hs⟩
    . exact ⟨os, s, hs⟩

end Python

end McStatus
