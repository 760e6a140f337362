import McStatus.Rust.Java.Ping
import McStatus.Rust.Network
import McStatus.Rust.Server

/-!
This module contains `ping_with_opts` and `status_with_opts` of the `JavaServer`, and shows what
they return where some of their connections are refused, and a server answers on the others.
-/

namespace McStatus

open Reader Fallible Duplex

namespace Rust

namespace JavaClient

variable {from_str : FromStr} {json_str : List Char} {response : JavaStatusResponse}

theorem parseStatus_latency {latency_ms : Float}
    (h : parseStatus from_str json_str latency_ms = .ok response) (latency_ms' : Float)
    : parseStatus from_str json_str latency_ms' = .ok { response with latency := latency_ms' } := by
  rw [parseStatus] at h ⊢
  split at h
  . cases h
  . next raw_json hraw =>
    rcases bind_eq_ok.mp h with ⟨built, hbuild, hreturn⟩
    split at hreturn
    . next response' =>
      cases hreturn
      rcases JavaStatusResponse.build_eq_ok_iff.mp hbuild with ⟨raw, v, motd, hread, hv, hmotd, rfl⟩
      have hbuild' : JavaStatusResponse.build raw_json latency_ms'
          = .ok (.ok (.ofRaw raw_json latency_ms' raw v motd)) :=
        JavaStatusResponse.build_eq_ok_iff.mpr ⟨raw, v, motd, hread, hv, hmotd, rfl⟩
      rw [hbuild']
      rfl
    . cases hreturn

end JavaClient

/-- The connections of a client, where a server with this status answers on those that are made. -/
def javaConnects (status : Java.StatusText) (lines : List (Except McStatusError (List Turn)))
    : List (Except McStatusError (Session (Java.server status))) :=
  lines.map fun line => line.map (Java.connect status)

theorem getElem?_javaConnects {status : Java.StatusText}
    {lines : List (Except McStatusError (List Turn))} {k : Nat}
    {session : Session (Java.server status)}
    : (javaConnects status lines)[k]? = some (.ok session)
        ↔ ∃ schedule, lines[k]? = some (.ok schedule) ∧ session = Java.connect status schedule := by
  rw [javaConnects, List.getElem?_map]
  constructor
  . intro h
    rcases Option.map_eq_some_iff.mp h with ⟨line, hline, hmap⟩
    cases line with
    | error e => cases hmap
    | ok schedule =>
      cases hmap
      exact ⟨schedule, hline, rfl⟩
  . rintro ⟨schedule, hline, rfl⟩
    rw [hline]
    rfl

namespace JavaServer

section Responder

variable {S : Type} {responder : Responder S UInt8}

def pingWithOpts (server : JavaServer) (tries : Nat) (version : Int32) (ping_token : Option Int64)
    (random : Nat → RandomToken) : EStateM Failure (Network (Session responder)) Float :=
  retry tries fun attempt =>
    Network.onConnection
      (JavaClient.new server.address version ping_token (random attempt)).tryPing

def statusWithOpts (server : JavaServer) (tries : Nat) (version : Int32)
    (ping_token : Option Int64) (random : Nat → RandomToken) (from_str : FromStr)
    : EStateM Failure (Network (Session responder)) JavaStatusResponse :=
  retry tries fun attempt =>
    Network.onConnection
      ((JavaClient.new server.address version ping_token (random attempt)).tryStatus from_str)

end Responder

def hello (server : JavaServer) (version : Int32) (hhost : utf8Len server.address.host ≤ 32767)
    : Java.Handshake :=
  JavaClient.hello { address := server.address, version, ping_token := 0 } hhost

def pingAt (server : JavaServer) (version : Int32) (ping_token : Option Int64)
    (random : Nat → RandomToken) (attempt : Nat) : List UInt8 :=
  (JavaClient.new server.address version ping_token (random attempt)).pingPacket

/-- The attempt finds a connection, and the whole reply to its own request arrives through it. -/
def RepliedAt (status : Java.StatusText) (hello : Java.Handshake) (request reply : Nat → List UInt8)
    (lines : List (Except McStatusError (List Turn))) (attempt : Nat) : Prop :=
  ∃ schedule, lines[attempt]? = some (.ok schedule)
    ∧ Java.Replied status hello (request attempt) (reply attempt) schedule

variable {server : JavaServer} {version : Int32} {ping_token : Option Int64}
variable {random : Nat → RandomToken} {status : Java.StatusText} {from_str : FromStr}
variable {lines : List (Except McStatusError (List Turn))} {k : Nat}

theorem tryPing_of_repliedAt {hhost : utf8Len server.address.host ≤ 32767}
    (h : RepliedAt status (server.hello version hhost)
      (server.pingAt version ping_token random) (server.pingAt version ping_token random) lines k)
    : Network.Succeeds
        (fun attempt => (JavaClient.new server.address version ping_token (random attempt)).tryPing)
        (javaConnects status lines) k := by
  rcases h with ⟨schedule, hline, hreplied⟩
  rcases JavaClient.tryPing_of_replied
      (JavaClient.new server.address version ping_token (random k)) hhost hreplied with
    ⟨session', hrun⟩
  exact ⟨_, _, session', getElem?_javaConnects.mpr ⟨schedule, hline, rfl⟩, hrun⟩

theorem tryStatus_of_repliedAt {hhost : utf8Len server.address.host ≤ 32767} {latency_ms : Float}
    {response : JavaStatusResponse}
    (hparse : JavaClient.parseStatus from_str status.chars latency_ms = .ok response)
    (h : RepliedAt status (server.hello version hhost) (fun _ => Java.statusRequest)
      (fun _ => status.packet) lines k)
    : Network.Succeeds
        (fun attempt =>
          (JavaClient.new server.address version ping_token (random attempt)).tryStatus from_str)
        (javaConnects status lines) k := by
  rcases h with ⟨schedule, hline, hreplied⟩
  rcases JavaClient.tryStatus_of_replied
      (JavaClient.new server.address version ping_token (random k)) from_str hhost hreplied with
    ⟨session', hrun⟩
  rw [JavaClient.parseStatus_latency hparse] at hrun
  exact ⟨_, _, session', getElem?_javaConnects.mpr ⟨schedule, hline, rfl⟩, hrun⟩

theorem pingWithOpts_javaConnects (server : JavaServer) (tries : Nat) (version : Int32)
    (ping_token : Option Int64) (random : Nat → RandomToken) (status : Java.StatusText)
    (lines : List (Except McStatusError (List Turn)))
    : let result := server.pingWithOpts tries version ping_token random
        (Network.start (javaConnects status lines))
      let ping := server.pingAt version ping_token random
      (32767 < utf8Len server.address.host → ∃ e network', result = .error (.error e) network'
        ∧ network'.slept = 50 * (tries - 1))
      ∧ ∀ hhost : utf8Len server.address.host ≤ 32767,
        let hello := server.hello version hhost
        (∀ k schedule, lines[k]? = some (.ok schedule) → Prompt schedule 2 10 →
          RepliedAt status hello ping ping lines k)
        ∧ match result with
        | .ok latency network' => ∃ k schedule, k < tries ∧ lines[k]? = some (.ok schedule)
          ∧ Java.Replied status hello (ping k) (ping k) schedule
          ∧ (∀ attempt < k, ¬ RepliedAt status hello ping ping lines attempt)
          ∧ network'.slept = 50 * k
          ∧ latency = millisecondsBetween 0 (Java.replyTime status hello (ping k) schedule)
        | .error .panic _ => False
        | .error (.error _) network' => network'.slept = 50 * (tries - 1)
          ∧ ∀ attempt < tries, ¬ RepliedAt status hello ping ping lines attempt := by
  intro result ping
  have hended := Network.ended_retry tries
    (fun attempt => (JavaClient.new server.address version ping_token (random attempt)).tryPing)
    (javaConnects status lines)
  have hresult : result = retry tries
      (fun attempt => Network.onConnection
        (JavaClient.new server.address version ping_token (random attempt)).tryPing)
      (Network.start (javaConnects status lines)) := rfl
  rw [← hresult] at hended
  clear_value result
  constructor
  . intro hlong
    cases hended with
    | ok _ _ _ hrun => cases hrun.symm.trans (JavaClient.tryPing_of_long _ hlong _)
    | panic _ _ _ hrun => cases hrun.symm.trans (JavaClient.tryPing_of_long _ hlong _)
    | failed _ hslept => exact ⟨_, _, rfl, hslept⟩
  . intro hhost hello
    constructor
    . intro k schedule hline hprompt
      refine ⟨schedule, hline, (Java.arrivals_asked (Java.answers_pingPacket hello _)
        schedule).2 ?_⟩
      exact (JavaClient.length_frame_pingPacket _).symm ▸ hprompt
    cases hended with
    | @ok k session session' a network' hk hfailed hget hrun hslept =>
      rcases getElem?_javaConnects.mp hget with ⟨schedule, hline, rfl⟩
      have hreplied : Java.Replied status hello (ping k) (ping k) schedule := by
        by_contra hnot
        rcases JavaClient.tryPing_of_not_replied (JavaClient.new server.address version
          ping_token (random k)) hhost hnot with ⟨failure, session'', herror, -⟩
        cases hrun.symm.trans herror
      rcases JavaClient.tryPing_of_replied (JavaClient.new server.address version
        ping_token (random k)) hhost hreplied with ⟨session'', hrun'⟩
      cases hrun.symm.trans hrun'
      refine ⟨k, schedule, hk, hline, hreplied, fun attempt hattempt h => ?_, hslept, rfl⟩
      exact hfailed attempt hattempt (tryPing_of_repliedAt h)
    | @panic k session session' network' hk _ hget hrun =>
      rcases getElem?_javaConnects.mp hget with ⟨schedule, hline, rfl⟩
      by_cases hreplied : Java.Replied status hello (ping k) (ping k) schedule
      . rcases JavaClient.tryPing_of_replied (JavaClient.new server.address version
          ping_token (random k)) hhost hreplied with ⟨session'', hok⟩
        cases hrun.symm.trans hok
      . rcases JavaClient.tryPing_of_not_replied (JavaClient.new server.address version
          ping_token (random k)) hhost hreplied with ⟨failure, session'', herror, ending, rfl⟩
        cases hrun.symm.trans herror
    | failed hfailed hslept =>
      exact ⟨hslept, fun attempt hattempt h => hfailed attempt hattempt (tryPing_of_repliedAt h)⟩

theorem statusWithOpts_javaConnects (server : JavaServer) (tries : Nat) (version : Int32)
    (ping_token : Option Int64) (random : Nat → RandomToken) (from_str : FromStr)
    (status : Java.StatusText) (lines : List (Except McStatusError (List Turn)))
    : let result := server.statusWithOpts tries version ping_token random from_str
        (Network.start (javaConnects status lines))
      (32767 < utf8Len server.address.host → ∃ e network', result = .error (.error e) network'
        ∧ network'.slept = 50 * (tries - 1))
      ∧ ∀ hhost : utf8Len server.address.host ≤ 32767,
        let hello := server.hello version hhost
        let repliedAt := RepliedAt status hello (fun _ => Java.statusRequest)
          (fun _ => status.packet) lines
        (∀ k schedule, lines[k]? = some (.ok schedule) →
          Prompt schedule 2 (Java.frame status.packet).length → repliedAt k)
        ∧ match result with
        | .ok response network' => ∃ k schedule, k < tries ∧ lines[k]? = some (.ok schedule)
          ∧ Java.Replied status hello Java.statusRequest status.packet schedule
          ∧ (∀ attempt < k, ¬ repliedAt attempt) ∧ network'.slept = 50 * k
          ∧ JavaClient.parseStatus from_str status.chars (millisecondsBetween 0
            (Java.replyTime status hello Java.statusRequest schedule)) = .ok response
        | .error .panic _ => ∃ latency_ms,
          JavaClient.parseStatus from_str status.chars latency_ms = .error .panic
        | .error (.error _) network' => network'.slept = 50 * (tries - 1)
          ∧ ∀ attempt < tries, repliedAt attempt → ∀ latency_ms response,
            JavaClient.parseStatus from_str status.chars latency_ms ≠ .ok response := by
  intro result
  have hended := Network.ended_retry tries
    (fun attempt =>
      (JavaClient.new server.address version ping_token (random attempt)).tryStatus from_str)
    (javaConnects status lines)
  have hresult : result = retry tries
      (fun attempt => Network.onConnection
        ((JavaClient.new server.address version ping_token (random attempt)).tryStatus from_str))
      (Network.start (javaConnects status lines)) := rfl
  rw [← hresult] at hended
  clear_value result
  constructor
  . intro hlong
    cases hended with
    | ok _ _ _ hrun => cases hrun.symm.trans (JavaClient.tryStatus_of_long _ _ hlong _)
    | panic _ _ _ hrun => cases hrun.symm.trans (JavaClient.tryStatus_of_long _ _ hlong _)
    | failed _ hslept => exact ⟨_, _, rfl, hslept⟩
  . intro hhost hello repliedAt
    constructor
    . intro k schedule hline hprompt
      exact ⟨schedule, hline,
        (Java.arrivals_asked (Java.answers_statusRequest hello) schedule).2 hprompt⟩
    cases hended with
    | @ok k session session' response network' hk hfailed hget hrun hslept =>
      rcases getElem?_javaConnects.mp hget with ⟨schedule, hline, rfl⟩
      have hreplied : Java.Replied status hello Java.statusRequest status.packet schedule := by
        by_contra hnot
        rcases JavaClient.tryStatus_of_not_replied (JavaClient.new server.address version
          ping_token (random k)) from_str hhost hnot with ⟨failure, session'', herror, -⟩
        cases hrun.symm.trans herror
      rcases JavaClient.tryStatus_of_replied (JavaClient.new server.address version
        ping_token (random k)) from_str hhost hreplied with ⟨session'', hrun'⟩
      rcases ofExec_eq_ok (hrun'.symm.trans hrun) with ⟨hparse, -⟩
      refine ⟨k, schedule, hk, hline, hreplied, fun attempt hattempt h => ?_, hslept, hparse⟩
      exact hfailed attempt hattempt (tryStatus_of_repliedAt hparse h)
    | @panic k session session' network' hk _ hget hrun =>
      rcases getElem?_javaConnects.mp hget with ⟨schedule, hline, rfl⟩
      by_cases hreplied : Java.Replied status hello Java.statusRequest status.packet schedule
      . rcases JavaClient.tryStatus_of_replied (JavaClient.new server.address version
          ping_token (random k)) from_str hhost hreplied with ⟨session'', hrun'⟩
        exact ⟨_, ofExec_eq_error (hrun'.symm.trans hrun)⟩
      . rcases JavaClient.tryStatus_of_not_replied (JavaClient.new server.address version
          ping_token (random k)) from_str hhost hreplied with
          ⟨failure, session'', herror, ending, rfl⟩
        cases hrun.symm.trans herror
    | failed hfailed hslept =>
      refine ⟨hslept, fun attempt hattempt h latency_ms response hparse => ?_⟩
      exact hfailed attempt hattempt (tryStatus_of_repliedAt hparse h)

end JavaServer

end Rust

end McStatus
