import Mathlib.Data.List.Induction
import McStatus.Python.Io.RoundTrip
import McStatus.Python.Io.Lemmas.Record

/-!
This module contains the ping of the `JavaClient` of `mcstatus/_protocol/java_client.py`, over any
connection, and the packets it is made of.
-/

namespace McStatus

open Reader

namespace Python

open BaseSyncReader BaseSyncWriter

/-- `Address`, with what `_ensure_validity` checks. -/
structure Address where
  host : List Char
  port : Int
  port_valid : 0 ≤ port ∧ port ≤ 65535

def Address.new (host : List Char) (port : Int) : Except Exception Address :=
  if port_valid : 0 ≤ port ∧ port ≤ 65535 then
    .ok { host, port, port_valid }
  else
    .error (.valueError (.portRange port))

theorem Address.new_port (addr : Address) (host : List Char)
    : Address.new host addr.port = .ok { addr with host } := by
  rw [Address.new, dif_pos addr.port_valid]

/-- What `random.randint(0, (1 << 63) - 1)` returns. -/
structure RandomToken where
  value : Int
  value_valid : 0 ≤ value ∧ value ≤ 2 ^ 63 - 1

/-- `perf_counter()`, in seconds. It is exact here, where Python has a `float`. -/
class Clock (σ : Type) where
  perfCounter : Py σ Rat

def packetOf (x : Py Buffer Unit) : Except Exception (List UInt8) :=
  match x (Buffer.ofBytes []) with
  | .ok _ b => .ok b.data
  | .error e _ => .error e

def readFrom {α : Type} (x : Py Buffer α) (data : List UInt8) : Except Exception α :=
  match x (Buffer.ofBytes data) with
  | .ok a _ => .ok a
  | .error e _ => .error e

structure JavaClient where
  address : Address
  version : Int
  ping_token : Int

namespace JavaClient

/-- `__post_init__` replaces a missing token. -/
def new (address : Address) (version : Int) (ping_token : Option Int) (random : RandomToken)
    : JavaClient where
  address := address
  version := version
  ping_token := ping_token.getD random.value

def buildHandshakePacket (client : JavaClient) : Py Buffer Unit := do
  writeVarint 0
  writeVarint client.version
  writeUtf client.address.host
  writeValue .ushort client.address.port
  writeVarint 1

def buildPingPacket (client : JavaClient) : Py Buffer Unit := do
  writeVarint 1
  writeValue .longlong client.ping_token

def handlePingResponse (client : JavaClient) (start stop : Rat) : Py Buffer Rat := do
  if (← readVarint) ≠ 1 then
    throw (.osError .invalidPing)
  else
    let received_token ← readValue .longlong
    if received_token ≠ client.ping_token then
      throw (.osError (.mangledPing client.ping_token received_token))
    else
      return (stop - start) * 1000

variable {σ : Type} [BaseSyncReader σ] [BaseSyncWriter σ] [Clock σ]

def handshake (client : JavaClient) : Py σ Unit := do
  let packet ← ofExcept (packetOf client.buildHandshakePacket)
  writeBytearray packet

def testPing (client : JavaClient) : Py σ Rat := do
  let request ← ofExcept (packetOf client.buildPingPacket)
  let start ← Clock.perfCounter
  writeBytearray request
  let response ← readBytearray
  let stop ← Clock.perfCounter
  ofExcept (readFrom (client.handlePingResponse start stop) response)

end JavaClient

def ValidToken (token : Int) : Prop :=
  -2 ^ 63 ≤ token ∧ token < 2 ^ 63

def tokenBytes (token : Int) : List UInt8 :=
  BigEndian.encode 8 (token % 2 ^ 64).toNat

def pingPacket (token : Int) : List UInt8 :=
  1 :: tokenBytes token

/-- Bytes that the client takes for a reply to the ping with this token. -/
def ReadsAsReply (token : Int) (bytes : List UInt8) : Prop :=
  ∃ length id extra, bytes = length ++ (id ++ (tokenBytes token ++ extra))
    ∧ Varint.InRange 32 length
    ∧ Varint.value length = (id ++ (tokenBytes token ++ extra)).length
    ∧ Varint.InRange 32 id
    ∧ Varint.value id = 1

theorem tokenBytes_unpackSigned {data : List UInt8} (h : data.length = 8)
    : tokenBytes (unpackSigned data) = data := by
  have hlt := BigEndian.decode_lt data
  have hback := BigEndian.encode_decode data
  rw [h] at hlt hback
  have hmod : (unpackSigned data % 2 ^ 64).toNat = BigEndian.decode data := by
    simp only [unpackSigned, h]
    split <;> omega
  rw [tokenBytes, hmod, hback]

theorem length_pingPacket (token : Int) : (pingPacket token).length = 9 := by
  rw [pingPacket, List.length_cons, tokenBytes, BigEndian.length_encode]

theorem packetOf_of_writes {x : Py Buffer Unit} {bytes : List UInt8} (h : Writes x bytes)
    : packetOf x = .ok bytes := by
  rw [packetOf, h]
  rfl

theorem writes_id {n : Nat} (h : n < 128)
    : Writes (writeVarint (n : Nat) : Py Buffer Unit) [UInt8.ofNat n] := by
  have := @writes_writeVarint Buffer _ n (by omega)
  rwa [Varint.encode, if_pos h] at this

theorem packetOf_buildPingPacket {client : JavaClient} (h : ValidToken client.ping_token)
    : packetOf client.buildPingPacket = .ok (pingPacket client.ping_token) := by
  have hid : Writes (writeVarint 1 : Py Buffer Unit) [1] := writes_id (by decide : 1 < 128)
  have hpack : pack .longlong client.ping_token = .ok (tokenBytes client.ping_token) := if_pos h
  exact packetOf_of_writes (hid.bind (writes_writeValue hpack))

theorem packetOf_buildPingPacket_of_not {client : JavaClient} (h : ¬ ValidToken client.ping_token)
    : packetOf client.buildPingPacket = .error .structError := by
  have hid : Writes (writeVarint 1 : Py Buffer Unit) [1] := writes_id (by decide : 1 < 128)
  have hpack : pack .longlong client.ping_token = .error .structError := if_neg h
  rw [packetOf, JavaClient.buildPingPacket, bind_of_ok (hid _), writeValue, hpack]
  rfl

theorem head_of_handshakePacket {client : JavaClient} {packet : List UInt8}
    (h : packetOf client.buildHandshakePacket = .ok packet) : packet.head? = some 0 := by
  have hwrite : ∀ data,
      Keeps (fun b : Buffer => b.data.head? = some 0) (write data : Py Buffer Unit) := by
    intro data b hb
    constructor
    . intro a b' hrun
      cases hrun
      change (b.data ++ data).head? = some 0
      rw [List.head?_append, hb]
      rfl
    . intro e b' hrun
      cases hrun
  have hrest : Keeps (fun b : Buffer => b.data.head? = some 0)
      (do
        writeVarint client.version
        writeUtf client.address.host
        writeValue .ushort client.address.port
        writeVarint 1) := by
    refine Keeps.bind (keeps_writeVarint hwrite _) fun _ => ?_
    refine Keeps.bind (keeps_writeUtf hwrite _) fun _ => ?_
    exact Keeps.bind (keeps_writeValue hwrite .ushort _) fun _ => keeps_writeVarint hwrite _
  have hid : Writes (writeVarint 0 : Py Buffer Unit) [0] := writes_id (by decide : 0 < 128)
  rw [packetOf, JavaClient.buildHandshakePacket, bind_of_ok (hid _)] at h
  split at h
  . next b hrun =>
    cases h
    exact (hrest _ rfl).1 _ _ hrun
  . cases h

theorem readVarint_one {b b' : Buffer} (h : readVarint b = .ok 1 b')
    : ∃ id, b.unreadView = id ++ b'.unreadView ∧ Varint.InRange 32 id ∧ Varint.value id = 1 := by
  rcases bind_eq_ok.mp h with ⟨n, u, hread, hsigned⟩
  rcases readVaruint_cases 32 b with ⟨id, t, hview, hrange, hok⟩ | ⟨e, t, herror, -⟩
  . rw [hread, EStateM.Result.ok.injEq] at hok
    rcases hok with ⟨rfl, rfl⟩
    cases hfrom : fromTwosComplement (Varint.value id) 32 with
    | error e =>
      rw [hfrom] at hsigned
      cases hsigned
    | ok value =>
      rw [hfrom] at hsigned
      cases hsigned
      have hone := (eq_of_fromTwosComplement (by decide) hrange.value_lt (by decide) hfrom).1
      exact ⟨id, hview, hrange, by omega⟩
  . rw [hread] at herror
    cases herror

theorem readValue_longlong {b b' : Buffer} {token : Int}
    (h : readValue .longlong b = .ok token b')
    : b.unreadView = tokenBytes token ++ b'.unreadView := by
  rcases bind_eq_ok.mp h with ⟨data, t, hread, hunpack⟩
  rcases LawfulReader.length_of_read hread with ⟨hlen, hview⟩
  have hlen : data.length = 8 := by
    have : ((StructFormat.longlong.calcsize : Nat) : Int) = 8 := rfl
    omega
  have hvalue : unpack .longlong data = .ok (unpackSigned data) :=
    if_neg (not_not_intro hlen)
  rw [hvalue] at hunpack
  cases hunpack
  rw [tokenBytes_unpackSigned hlen]
  exact hview

theorem handlePingResponse_eq_ok {client : JavaClient} {start stop latency : Rat}
    {data : List UInt8} (h : readFrom (client.handlePingResponse start stop) data = .ok latency)
    : ∃ id extra, data = id ++ (tokenBytes client.ping_token ++ extra) ∧ Varint.InRange 32 id
        ∧ Varint.value id = 1 := by
  unfold readFrom at h
  split at h
  . next latency' b' hrun =>
    rcases bind_eq_ok.mp hrun with ⟨id_value, t, hid, hrun⟩
    split at hrun
    . cases hrun
    . next hone =>
      rw [not_not.mp hone] at hid
      rcases readVarint_one hid with ⟨id, hview, hrange, hvalue⟩
      rcases bind_eq_ok.mp hrun with ⟨token, u, htoken, hrun⟩
      split at hrun
      . cases hrun
      . next hsame =>
        rw [not_not.mp hsame] at htoken
        rw [readValue_longlong htoken] at hview
        exact ⟨id, _, hview, hrange, hvalue⟩
  . cases h

end Python

end McStatus
