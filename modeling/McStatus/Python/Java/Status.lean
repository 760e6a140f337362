import McStatus.Java.Cut
import McStatus.Java.Server
import McStatus.Python.Java.Server
import McStatus.Python.Java.Session
import McStatus.Python.Response.Java

/-!
This module contains the status request of the `JavaClient` of `mcstatus/_protocol/java_client.py`,
and what it makes of the packet that it gets.
-/

namespace McStatus

open Reader Duplex

namespace Python

open BaseSyncReader BaseSyncWriter

/-- What the status methods raise: their own `OSError`s, and everything else. -/
inductive StatusError where
  | raised (e : Exception)
  /-- `Received invalid status response packet.` -/
  | invalidPacket
  /-- `Received invalid JSON` -/
  | invalidJson
  /-- `Received invalid status response` -/
  | invalidResponse
  deriving DecidableEq, Repr

/-- `json.loads`, which raises a `ValueError` where there is nothing. -/
abbrev Loads := List Char → Option RawJavaResponse

/-- What `except ValueError` makes of an exception of `read_utf`. -/
def StatusError.ofRead (e : Exception) : StatusError :=
  match e with
  | .valueError _ | .unicodeDecodeError | .unicodeEncodeError => .invalidJson
  | e => .raised e

/-- What `except KeyError` makes of an exception of `build`. -/
def StatusError.ofBuild (e : Exception) : StatusError :=
  match e with
  | .keyError _ => .invalidResponse
  | e => .raised e

def ofResult {ε σ α : Type} (x : Except ε α) : EStateM ε σ α :=
  match x with
  | .ok a => pure a
  | .error e => throw e

/-- `_handle_status_response`, from the text on. -/
def parseStatus (loads : Loads) (text : List Char) (latency_ms : Rat)
    : Except StatusError JavaStatusResponse :=
  match loads text with
  | none => .error .invalidJson
  | some raw => (JavaStatusResponse.build raw latency_ms).mapError .ofBuild

namespace JavaClient

def handleStatusResponse (loads : Loads) (start stop : Rat)
    : EStateM StatusError Buffer JavaStatusResponse := do
  if (← EStateM.adaptExcept .raised readVarint) ≠ 0 then
    throw .invalidPacket
  else
    let text ← EStateM.adaptExcept .ofRead readUtf
    ofResult (parseStatus loads text ((stop - start) * 1000))

def buildStatusRequest : Py Buffer Unit :=
  writeVarint 0

section Connection

variable {σ : Type} [BaseSyncReader σ] [BaseSyncWriter σ] [Clock σ]

/-- The part of `read_status` that uses the connection, and the times around the response. -/
def requestStatus : Py σ (Rat × Rat × List UInt8) := do
  let request ← ofExcept (packetOf buildStatusRequest)
  writeBytearray request
  let start ← Clock.perfCounter
  let response ← readBytearray
  let stop ← Clock.perfCounter
  return (start, stop, response)

def readStatus (loads : Loads) : EStateM StatusError σ JavaStatusResponse := do
  let (start, stop, response) ← EStateM.adaptExcept .raised requestStatus
  match handleStatusResponse loads start stop (Buffer.ofBytes response) with
  | .ok response _ => pure response
  | .error e _ => throw e

end Connection

end JavaClient

namespace JavaServer

section Connection

variable {σ : Type} [BaseSyncReader σ] [BaseSyncWriter σ] [Clock σ]

/-- `_retry_status`, with what `random` gives to its client. -/
def retryStatus (server : JavaServer) (version : Int) (ping_token : Option Int)
    (random : RandomToken) (loads : Loads) : EStateM StatusError σ JavaStatusResponse := do
  let java_client := JavaClient.new server.address version ping_token random
  EStateM.adaptExcept .raised java_client.handshake
  JavaClient.readStatus loads

/-- `status` from the point on where the connection is open: one connection for all of the tries. -/
def status (server : JavaServer) (tries version : Int) (ping_token : Option Int)
    (random : Nat → RandomToken) (loads : Loads) : EStateM StatusError σ JavaStatusResponse :=
  attemptsFrom (fun i => server.retryStatus version ping_token (random i) loads) 0 tries.toNat
    (.raised .unboundLocalError)

end Connection

end JavaServer

/-! The packets of the client are the ones of the protocol. -/

theorem pingPacket_eq (token : Int)
    : pingPacket token = Java.pingPacket (token % 2 ^ 64).toNat := by
  rw [pingPacket, tokenBytes]
  rfl

/-- A handshake with this address and version can be written, and this is what it says. -/
structure Says (address : Address) (version : Int) (hello : Java.Handshake) : Prop where
  version_eq : hello.version = version
  host_eq : hello.host = address.host
  port_eq : (hello.port : Int) = address.port

theorem packetOf_buildHandshakePacket {client : JavaClient} {hello : Java.Handshake}
    (h : Says client.address client.version hello)
    : packetOf client.buildHandshakePacket = .ok hello.packet := by
  have hid : Writes (writeVarint 0 : Py Buffer Unit) [0] := writes_id (by decide : 0 < 128)
  have hnext : Writes (writeVarint 1 : Py Buffer Unit) [1] := writes_id (by decide : 1 < 128)
  have hversion : Writes (writeVarint client.version : Py Buffer Unit)
      (Varint.encode (hello.version % 2 ^ 32).toNat) := by
    have hvalid := hello.version_valid
    rw [h.version_eq] at hvalid ⊢
    exact writes_writeVarint_of_inRange hvalid.1 hvalid.2
  have hhost : Writes (writeUtf client.address.host : Py Buffer Unit) (Java.text hello.host) := by
    rw [h.host_eq]
    exact writes_writeUtf (h.host_eq ▸ hello.host_valid)
  have hport : pack .ushort client.address.port = .ok (BigEndian.encode 2 hello.port) := by
    have hvalid := hello.port_valid
    have hlt : 0 ≤ client.address.port ∧ client.address.port < 2 ^ (8 * 2) := by
      rw [← h.port_eq]
      omega
    have htoNat : client.address.port.toNat = hello.port := by
      rw [← h.port_eq, Int.toNat_natCast]
    rw [pack, packUnsigned, if_pos hlt, htoNat]
  refine packetOf_of_writes (hid.bind (hversion.bind (hhost.bind ?_)))
  exact (writes_writeValue hport).bind hnext

theorem packetOf_buildHandshakePacket_of_long {client : JavaClient}
    (h : 32767 < client.address.host.length)
    : ∃ e, packetOf client.buildHandshakePacket = .error e := by
  have hid : Writes (writeVarint 0 : Py Buffer Unit) [0] := writes_id (by decide : 0 < 128)
  rw [packetOf, JavaClient.buildHandshakePacket, bind_of_ok (hid _)]
  cases hversion : (writeVarint client.version : Py Buffer Unit)
    (LawfulWriter.append (Buffer.ofBytes []) [0]) with
  | ok _ b =>
    have hhost : writeUtf client.address.host b = .error (.valueError .utfChars) b := by
      rw [writeUtf, if_pos h]
      rfl
    rw [bind_of_ok hversion, bind_of_error hhost]
    exact ⟨_, rfl⟩
  | error e b =>
    rw [bind_of_error hversion]
    exact ⟨_, rfl⟩

theorem packetOf_buildStatusRequest
    : packetOf JavaClient.buildStatusRequest = .ok Java.statusRequest :=
  packetOf_of_writes (writes_id (by decide : 0 < 128))

end Python

end McStatus
