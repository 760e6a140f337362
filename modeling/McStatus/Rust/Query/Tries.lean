import McStatus.Rust.Query.Exchange

/-!
This module contains `query_with_opts` of the `JavaServer`, and shows what its attempts get from a
server on a network that loses datagrams, repeats them and brings them in any order.
-/

namespace McStatus

open Reader

namespace Rust

open Query (Gs4 challengeRequest statRequest)

/-- How the calls of `send` and of `recv_from` end on the socket of an attempt. -/
structure Traffic where
  sendings : List (Option McStatusError)
  receipts : List Receipt
  deriving DecidableEq, Repr

def Traffic.bind (traffic : Traffic) : UdpConnection :=
  .bind traffic.sendings traffic.receipts

/-- What `resolve_ip` and `UdpConnection::bind` come to, in one attempt after the other. -/
abbrev Sockets := List (Except McStatusError Traffic)

def Sockets.connects (sockets : Sockets) : List (Except McStatusError UdpConnection) :=
  sockets.map fun socket => socket.map Traffic.bind

theorem Sockets.getElem?_connects {sockets : Sockets} {k : Nat} {connection : UdpConnection}
    : sockets.connects[k]? = some (.ok connection)
        ↔ ∃ traffic, sockets[k]? = some (.ok traffic) ∧ connection = traffic.bind := by
  rw [Sockets.connects, List.getElem?_map]
  constructor
  . intro h
    rcases Option.map_eq_some_iff.mp h with ⟨socket, hsocket, hmap⟩
    cases socket with
    | error e => cases hmap
    | ok traffic =>
      cases hmap
      exact ⟨traffic, hsocket, rfl⟩
  . rintro ⟨traffic, hsocket, rfl⟩
    rw [hsocket]
    rfl

namespace QueryClient

variable {gs4 : Gs4} {raw raw' : Int32} {connection connection' : UdpConnection} {traffic : Traffic}

/-- Both requests are sent, and the replies of the server to them are what arrives first. -/
def Arrives (gs4 : Gs4) (raw raw' : Int32) (traffic : Traffic) : Prop :=
  ∃ n d d' sendings receipts, traffic.sendings = none :: none :: sendings
    ∧ traffic.receipts = .datagram d :: .datagram d' :: receipts
    ∧ d.data = gs4.challengeReply (sessionBytes raw) n ∧ d'.data = gs4.statReply (sessionBytes raw')

theorem query_of_arrives {out : RawQueryResponse × List (List Char)}
    (hparse : parseStat gs4 = .ok out) (h : Arrives gs4 raw raw' traffic)
    : ∃ connection', query raw raw' traffic.bind
        = .ok (QueryResponse.build out.1 out.2) connection' := by
  rcases h with ⟨n, d, d', sendings, receipts, hsendings, hreceipts, hd, hd'⟩
  have hbind : traffic.bind = .bind (none :: none :: sendings)
      (.datagram d :: .datagram d' :: receipts) := by
    rw [Traffic.bind, hsendings, hreceipts]
  have hn : challenge? (d.data.take 4096) = some (Int32.ofInt (gs4.token n)) := by
    rw [hd, take_challengeReply]
    exact challenge?_challengeReply gs4 (length_sessionBytes raw) n
  have hout : parseResponse (d'.data.take 65536) = .ok out := by
    rw [hd', take_statReply, parseResponse_statReply, hparse]
  rw [hbind]
  exact ⟨_, query_eq_ok_iff.mpr ⟨d, _, d', out, rfl, hn, rfl, hout, rfl, rfl⟩⟩

end QueryClient

/-- `query_with_opts`, where `raw` makes the session ids of each attempt. -/
def JavaServer.queryWithOpts (tries : Nat) (raw : Nat → Int32 × Int32)
    : EStateM Failure (Network UdpConnection) QueryResponse :=
  retry tries fun attempt =>
    Network.onConnection (QueryClient.query (raw attempt).1 (raw attempt).2)

open QueryClient in
theorem JavaServer.queryWithOpts_sockets (tries : Nat) (raw : Nat → Int32 × Int32)
    (sockets : Sockets) (gs4 : Gs4)
    : let arrivesAt := fun k => ∃ traffic, sockets[k]? = some (.ok traffic)
        ∧ Arrives gs4 (raw k).1 (raw k).2 traffic
      match JavaServer.queryWithOpts tries raw (Network.start sockets.connects) with
      | .ok response network' => ∃ k traffic connection', k < tries
          ∧ sockets[k]? = some (.ok traffic) ∧ network'.slept = 50 * k
          ∧ query (raw k).1 (raw k).2 traffic.bind = .ok response connection'
          ∧ (Genuine gs4 connection' → Exchanged gs4 (raw k).1 (raw k).2 connection'
            ∧ ∃ out, parseStat gs4 = .ok out ∧ response = QueryResponse.build out.1 out.2)
          ∧ ∀ out, parseStat gs4 = .ok out → ∀ attempt < k, ¬ arrivesAt attempt
      | .error .panic _ => ∃ k traffic connection', k < tries ∧ sockets[k]? = some (.ok traffic)
          ∧ query (raw k).1 (raw k).2 traffic.bind = .error .panic connection'
          ∧ (Genuine gs4 connection' → parseStat gs4 = .error .panic)
      | .error (.error _) network' => network'.slept = 50 * (tries - 1)
          ∧ ∀ out, parseStat gs4 = .ok out → ∀ attempt < tries, ¬ arrivesAt attempt := by
  intro arrivesAt
  have hsucceeds : ∀ out, parseStat gs4 = .ok out → ∀ k, arrivesAt k →
      Network.Succeeds (fun attempt => query (raw attempt).1 (raw attempt).2)
        sockets.connects k := by
    rintro out hparse k ⟨traffic, hsocket, harrives⟩
    rcases query_of_arrives hparse harrives with ⟨connection', hrun⟩
    exact ⟨_, _, connection', Sockets.getElem?_connects.mpr ⟨traffic, hsocket, rfl⟩, hrun⟩
  have hended := Network.ended_retry tries (fun attempt => query (raw attempt).1 (raw attempt).2)
    sockets.connects
  rw [queryWithOpts]
  revert hended
  generalize retry tries
    (fun attempt => Network.onConnection (query (raw attempt).1 (raw attempt).2))
    (Network.start sockets.connects) = result
  intro hended
  cases hended with
  | @ok k connection connection' response network' hk hfailed hget hrun hslept =>
    rcases Sockets.getElem?_connects.mp hget with ⟨traffic, hsocket, rfl⟩
    refine ⟨k, traffic, connection', hk, hsocket, hslept, hrun,
      conversed_of_genuine rfl rfl hrun, ?_⟩
    exact fun out hparse attempt hlt harrives =>
      hfailed attempt hlt (hsucceeds out hparse attempt harrives)
  | @panic k connection connection' network' hk hfailed hget hrun =>
    rcases Sockets.getElem?_connects.mp hget with ⟨traffic, hsocket, rfl⟩
    exact ⟨k, traffic, connection', hk, hsocket, hrun,
      fun hgenuine => (parseStat_of_panic rfl rfl hrun hgenuine).2⟩
  | failed hfailed hslept =>
    refine ⟨hslept, fun out hparse attempt hlt harrives => ?_⟩
    exact hfailed attempt hlt (hsucceeds out hparse attempt harrives)

end Rust

end McStatus
