import McStatus.Python.Bedrock.Impl
import McStatus.Python.Io.Lemmas.Codec
import McStatus.Python.Java.Client
import McStatus.Python.Network
import McStatus.Python.Query.Impl
import McStatus.Python.Query.Software

/-!
This module contains the `UDPSocketConnection` of `mcstatus/_protocol/io/connection.py` and the
`QueryClient` of `mcstatus/_protocol/query_client.py` on it, with the response that it builds.
-/

namespace McStatus

open Reader

namespace Python

/--
`UDPSocketConnection`: `sendings` and `receipts` hold how the calls of `sendto` and of `recvfrom`
end, and what was sent and what `read` has returned is logged.
-/
structure UDPSocketConnection where
  sendings : List (Option Exception)
  receipts : List (Except Exception (List UInt8))
  sent : List (List UInt8)
  received : List (List UInt8)

namespace UDPSocketConnection

def remaining : Nat := 65535

def recvfrom (size : Nat) : Py UDPSocketConnection (List UInt8) := fun connection =>
  match connection.receipts with
  | [] => .error (.osError .timedOut) connection
  | .error e :: receipts => .error e { connection with receipts }
  | .ok data :: receipts => .ok (data.take size) { connection with receipts }

def readStep (_ : Unit) : Py UDPSocketConnection (Unit ⊕ List UInt8) := do
  let result ← recvfrom remaining
  if result.length = 0 then return .inl () else return .inr result

theorem recvfrom_lt {size : Nat} {connection connection' : UDPSocketConnection} {data : List UInt8}
    (h : recvfrom size connection = .ok data connection')
    : connection'.receipts.length < connection.receipts.length := by
  rw [recvfrom] at h
  split at h
  . cases h
  . cases h
  . next receipts hreceipts =>
    cases h
    rw [hreceipts]
    exact Nat.lt_succ_self _

theorem readStep_lt {connection connection' : UDPSocketConnection}
    (h : readStep () connection = .ok (.inl ()) connection')
    : connection'.receipts.length < connection.receipts.length := by
  rcases bind_eq_ok.mp h with ⟨result, middle, hrecvfrom, hreturn⟩
  have hlt := recvfrom_lt hrecvfrom
  split at hreturn
  . cases hreturn
    exact hlt
  . cases hreturn

/-- Datagrams with nothing in them are skipped, and the length that is asked for does nothing. -/
def read (_length : Nat) : Py UDPSocketConnection (List UInt8) := do
  let result ← loop (fun connection => connection.receipts.length) readStep
    (fun _ _ _ _ h => readStep_lt h) ()
  modify fun connection => { connection with received := connection.received ++ [result] }
  return result

def write (data : List UInt8) : Py UDPSocketConnection Unit := fun connection =>
  match connection.sendings with
  | [] => .error (.osError .timedOut) connection
  | some e :: sendings => .error e { connection with sendings }
  | none :: sendings => .ok () { connection with sendings, sent := connection.sent ++ [data] }

end UDPSocketConnection

/-- `raw[key]` -/
def RawQueryResponse.getItem (raw : RawQueryResponse) (key : String)
    : Except Exception (List Char) :=
  match raw.lookup key.toList with
  | some value => .ok value
  | none => .error (.keyError key.toList)

structure QueryPlayers where
  online : Int
  max : Int
  list : List (List Char)
  deriving DecidableEq, Repr

def QueryPlayers.build (raw : RawQueryResponse) (players_list : List (List Char))
    : Except Exception QueryPlayers := do
  let online ← intBase10 (← raw.getItem "numplayers")
  let max ← intBase10 (← raw.getItem "maxplayers")
  return { online, max, list := players_list }

structure QueryResponse where
  raw : RawQueryResponse
  motd : Motd
  map_name : List Char
  players : QueryPlayers
  software : QuerySoftware
  ip : List Char
  port : Int
  game_type : List Char
  game_id : List Char

def QueryResponse.build (raw : RawQueryResponse) (players_list : List (List Char))
    : Except Exception QueryResponse := do
  let motd ← Motd.parse (.str (← raw.getItem "hostname")) false
  let map_name ← raw.getItem "map"
  let players ← QueryPlayers.build raw players_list
  let software := QuerySoftware.build (← raw.getItem "version") (← raw.getItem "plugins")
  let ip ← raw.getItem "hostip"
  let port ← intBase10 (← raw.getItem "hostport")
  let game_type ← raw.getItem "gametype"
  let game_id ← raw.getItem "game_id"
  return { raw, motd, map_name, players, software, ip, port, game_type, game_id }

structure QueryClient where
  connection : UDPSocketConnection
  challenge : Int

namespace QueryClient

open BaseSyncReader BaseSyncWriter

def magicPrefix : List UInt8 :=
  [0xFE, 0xFD]

def padding : List UInt8 :=
  [0x00, 0x00, 0x00, 0x00]

def packetTypeChallenge : Int := 9

def packetTypeQuery : Int := 0

def new (connection : UDPSocketConnection) : QueryClient where
  connection := connection
  challenge := 0

/-- `_generate_session_id`, where `raw` is what `randint(0, 2**31)` gives. -/
def generateSessionId (raw : Nat) : Int :=
  (raw &&& 0x0F0F0F0F : Nat)

def createPacket (raw : Nat) (challenge : Int) : Py Buffer Unit := do
  Buffer.write magicPrefix
  writeValue .ubyte packetTypeQuery
  writeValue .uint (generateSessionId raw)
  writeValue .int challenge
  Buffer.write padding

def createHandshakePacket (raw : Nat) : Py Buffer Unit := do
  Buffer.write magicPrefix
  writeValue .ubyte packetTypeChallenge
  writeValue .uint (generateSessionId raw)

/-- `x` on a packet, and what is left of the packet. -/
def onPacket {α : Type} (x : Py Buffer α) (packet : Buffer) : Except Exception (α × Buffer) :=
  match x packet with
  | .ok a packet => .ok (a, packet)
  | .error e _ => .error e

def onConnection {α : Type} (x : Py UDPSocketConnection α) : Py QueryClient α :=
  zoom QueryClient.connection (fun client connection => { client with connection }) x

/-- What `_read_packet` makes of a datagram. -/
def packetOf (data : List UInt8) : Except Exception Buffer := do
  let (_, packet) ← onPacket (Buffer.read (1 + 4)) (Buffer.ofBytes data)
  return packet

def parseChallenge (data : List UInt8) : Except Exception Int := do
  let (text, _) ← onPacket readAscii (← packetOf data)
  intBase10 text

def parseQuery (data : List UInt8) : Except Exception QueryResponse := do
  let ((raw, players_list), _) ← onPacket parseResponse (← packetOf data)
  QueryResponse.build raw players_list

def request (packet : Py Buffer Unit) : Py QueryClient (List UInt8) := do
  let packet ← ofExcept (Python.packetOf packet)
  onConnection (UDPSocketConnection.write packet)
  onConnection (UDPSocketConnection.read UDPSocketConnection.remaining)

def handshake (raw : Nat) : Py QueryClient Unit := do
  let data ← request (createHandshakePacket raw)
  let challenge ← ofExcept (parseChallenge data)
  modify fun client => { client with challenge }

def readQuery (raw : Nat) : Py QueryClient QueryResponse := do
  let client ← get
  let data ← request (createPacket raw client.challenge)
  ofExcept (parseQuery data)

def withClient {α : Type} (x : Py QueryClient α) : Py UDPSocketConnection α := fun connection =>
  match x (new connection) with
  | .ok a client => .ok a client.connection
  | .error e client => .error e client.connection

/-- The conversation of one attempt, where `raw` and `raw'` make its session ids. -/
def converse (raw raw' : Nat) : Py QueryClient QueryResponse := do
  handshake raw
  readQuery raw'

def query (raw raw' : Nat) : Py UDPSocketConnection QueryResponse :=
  withClient (converse raw raw')

theorem withClient_of_ok {α : Type} {x : Py QueryClient α} {a : α} {client : QueryClient}
    {connection : UDPSocketConnection} (h : x (new connection) = .ok a client)
    : withClient x connection = .ok a client.connection := by
  rw [withClient, h]

theorem withClient_eq_ok {α : Type} {x : Py QueryClient α} {a : α}
    {connection connection' : UDPSocketConnection} (h : withClient x connection = .ok a connection')
    : ∃ client, x (new connection) = .ok a client ∧ client.connection = connection' := by
  rw [withClient] at h
  split at h
  . next client hrun =>
    cases h
    exact ⟨client, hrun, rfl⟩
  . cases h

end QueryClient

/-- `_retry_query` of the `JavaServer`, where `raw` makes the session ids of each attempt. -/
def JavaServer.retryQuery (tries : Int) (raw : Nat → Nat × Nat)
    : Py (Network UDPSocketConnection) QueryResponse :=
  Network.retry id tries fun attempt => QueryClient.query (raw attempt).1 (raw attempt).2

end Python

end McStatus
