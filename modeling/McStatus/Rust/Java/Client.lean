import McStatus.Library.Duplex
import McStatus.Rust.Address
import McStatus.Rust.Io.Impl
import McStatus.Rust.Java.Impl
import McStatus.Rust.Response.Java

/-!
This module contains the `JavaClient` of `protocol/java.rs`, over a session with any responder.
-/

namespace McStatus

open Reader

namespace Rust

/-- `Instant::duration_since`, `as_secs_f64` and the conversion to milliseconds. -/
def millisecondsBetween (start stop : Nat) : Float :=
  let nanos := stop - start
  (Float.ofNat (nanos / 10 ^ 9) + Float.ofNat (nanos % 10 ^ 9) / 1e9) * 1000.0

/-- What `x` has put into a new buffer. An `std::io::Error` becomes a `McStatusError::Io`. -/
def writtenBy {σ : Type} (x : Io Buffer Unit) : EStateM Failure σ (List UInt8) :=
  match x Buffer.new with
  | .ok _ b => pure b.data
  | .error (.error _) _ => throw (.error .io)
  | .error .panic _ => throw .panic

def onBuffer {σ α : Type} (x : EStateM Failure Buffer α) (b : Buffer) : EStateM Failure σ α :=
  match x b with
  | .ok a _ => pure a
  | .error failure _ => throw failure

/-! `TcpConnection`, where its stream is a session. -/

namespace TcpSession

variable {S : Type} {responder : Duplex.Responder S UInt8}

def failureOf (ending : Duplex.Ending) : McStatusError :=
  match ending with
  | .timedOut => .timeout
  | .closed => .io

def readExact (length : Nat) : EStateM Failure (Duplex.Session responder) (List UInt8) :=
  fun session =>
    match session.fill length with
    | .ok data session => .ok data session
    | .error ending session => .error (.error (failureOf ending)) session

def writeAll (data : List UInt8) : EStateM Failure (Duplex.Session responder) Unit :=
  modify fun session => session.send data

def readByte : EStateM Failure (Duplex.Session responder) UInt8 := do
  let bytes ← readExact 1
  ofExec (index bytes 0)

/-- `Instant::now()`, in nanoseconds. -/
def now : EStateM Failure (Duplex.Session responder) Nat := do
  return (← get).clock

end TcpSession

/-- `serde_json::from_str`, with the text of its error. -/
abbrev FromStr := List Char → Except String Value

/-- The text that `build` returns. Where `serde` fails, its own text follows. -/
def BuildError.display (e : BuildError) : String :=
  match e with
  | .parse => "Failed to parse Java status JSON: "
  | .missingVersion => "Missing 'version' field in status response"

/-- `JavaClient` without its connection. -/
structure JavaClient where
  address : Address
  version : Int32
  ping_token : Int64
  deriving DecidableEq, Repr

/-- What `gen_range(0..i64::MAX)` returns. -/
structure RandomToken where
  value : Int64
  value_valid : 0 ≤ value ∧ value < Int64.maxValue

namespace JavaClient

def new (address : Address) (version : Int32) (ping_token : Option Int64) (random : RandomToken)
    : JavaClient where
  address := address
  version := version
  ping_token := ping_token.getD random.value

def handshakePacket (client : JavaClient) : Io Buffer Unit := do
  writeVarint 0
  writeVarint client.version
  writeMcUtf client.address.host
  Buffer.writeUshort client.address.port
  writeVarint 1

def statusRequest : Io Buffer Unit :=
  writeVarint 0

def pingRequest (client : JavaClient) : Io Buffer Unit := do
  writeVarint 1
  Buffer.writeUlonglong client.ping_token.toUInt64

/-- The first byte is the packet id, which is a varint for a server. -/
def readPacketId : EStateM Failure Buffer UInt8 := do
  let packet_id ← mapErr (fun e => .protocol s!"Failed to read packet ID: {e.display}")
    (Buffer.readBytes 1)
  ofExec (index packet_id 0)

/-- What is done with the text of a status: `handle_status_response`, from there on. -/
def parseStatus (from_str : FromStr) (json_str : List Char) (latency_ms : Float)
    : Exec JavaStatusResponse :=
  match from_str json_str with
  | .error e => throw (.error (.protocol s!"Invalid JSON in status response: {e}"))
  | .ok raw_json => do
    match ← JavaStatusResponse.build raw_json latency_ms with
    | .ok response => return response
    | .error e => throw (.error (.invalidResponse e.display))

def handleStatusResponse (from_str : FromStr) (start stop : Nat)
    : EStateM Failure Buffer JavaStatusResponse := do
  if (← readPacketId) ≠ 0 then
    throw (.error (.protocol "Received invalid status response packet"))
  else
    let length ← readVarintFromBuffer
    if length < 0 then
      throw (.error (.protocol "Invalid JSON length in status response"))
    else
      let json_bytes ← mapErr (fun e => .protocol s!"Failed to read JSON payload: {e.display}")
        (Buffer.readBytes length.toInt.toNat)
      match Utf8.decode? json_bytes with
      | none =>
        throw (.error (.protocol s!"Invalid UTF-8 in status response: {IoError.fromUtf8.display}"))
      | some json_str => ofExec (parseStatus from_str json_str (millisecondsBetween start stop))

def handlePingResponse (client : JavaClient) (start stop : Nat) : EStateM Failure Buffer Float := do
  if (← readPacketId) ≠ 1 then
    throw (.error (.protocol "Received invalid ping response packet"))
  else
    let token_bytes ← mapErr (fun e => .protocol s!"Failed to read ping token: {e.display}")
      (Buffer.readBytes 8)
    let received_token := (UInt64.ofNat (BigEndian.decode token_bytes)).toInt64
    if received_token ≠ client.ping_token then
      throw (.error (.protocol
        s!"Received mangled ping response (expected token {client.ping_token}, got {received_token})"))
    else
      return millisecondsBetween start stop

section Session

variable {S : Type} {responder : Duplex.Responder S UInt8}

/-- `packet` behind its length, in one write. -/
def writeFramed (packet : List UInt8) : EStateM Failure (Duplex.Session responder) Unit := do
  let framed ← writtenBy (writeMcBytearray packet)
  TcpSession.writeAll framed

def readPacket : EStateM Failure (Duplex.Session responder) Buffer := do
  let length ← readVarintLoop TcpSession.readByte
  if length ≤ 0 then
    throw (.error (.protocol "Received empty or invalid packet"))
  else
    let data ← TcpSession.readExact length.toInt.toNat
    return Buffer.fromBytes data

def handshake (client : JavaClient) : EStateM Failure (Duplex.Session responder) Unit := do
  let packet ← writtenBy client.handshakePacket
  writeFramed packet

def readStatus (from_str : FromStr)
    : EStateM Failure (Duplex.Session responder) JavaStatusResponse := do
  let request ← writtenBy statusRequest
  writeFramed request
  let start ← TcpSession.now
  let response_data ← readPacket
  let stop ← TcpSession.now
  onBuffer (handleStatusResponse from_str start stop) response_data

def testPing (client : JavaClient) : EStateM Failure (Duplex.Session responder) Float := do
  let request ← writtenBy client.pingRequest
  let start ← TcpSession.now
  writeFramed request
  let response_data ← readPacket
  let stop ← TcpSession.now
  onBuffer (client.handlePingResponse start stop) response_data

def tryStatus (client : JavaClient) (from_str : FromStr)
    : EStateM Failure (Duplex.Session responder) JavaStatusResponse := do
  client.handshake
  readStatus from_str

def tryPing (client : JavaClient) : EStateM Failure (Duplex.Session responder) Float := do
  client.handshake
  client.testPing

end Session

end JavaClient

end Rust

end McStatus
