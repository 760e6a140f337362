import McStatus.Legacy.Wire
import McStatus.Library.Duplex
import McStatus.Python.Legacy.RoundTrip

/-!
This module contains a server from before 1.7: what it tells about itself, what both clients read of
it, and when that is the same.
-/

namespace McStatus

namespace Legacy

open Duplex
open Rust.LegacyClient (AllBmp currentText oldText filter_isBmp_eq_iff)
open Utf16 (isBmp)

/-- The protocol and the name of a version. Servers before 1.4 do not send it. -/
abbrev Version := Option (UInt32 × List Char)

def textOf (version : Version) (motd : List Char) (online max : UInt32) : List Char :=
  match version with
  | some (protocol, name) => currentText protocol name motd online max
  | none => oldText motd online max

structure Info where
  version : Version
  motd : List Char
  online : UInt32
  max : UInt32
  motd_valid : '\x00' ∉ motd
  name_valid : ∀ protocol name, version = some (protocol, name) → '\x00' ∉ name
  old_valid : version = none → '§' ∉ motd
  fits : (Utf16.encode (textOf version motd online max)).length < 2 ^ 17

namespace Info

def text (info : Info) : List Char :=
  textOf info.version info.motd info.online info.max

def reply (info : Info) : List UInt8 :=
  kick (Utf16.encode info.text)

def rustResponse (info : Info) (latency : Float) : Rust.LegacyStatusResponse :=
  match info.version with
  | some (protocol, name) =>
    .build protocol (name.filter isBmp) (info.motd.filter isBmp) info.online info.max latency
  | none => .build 0 "<1.4".toList (info.motd.filter isBmp) info.online info.max latency

def pythonResponse (info : Info) (latency : Rat) : Python.LegacyStatusResponse :=
  match info.version with
  | some (protocol, name) => Python.LegacyClient.responseOf { name, protocol := protocol.toNat }
    info.motd info.online info.max latency
  | none => Python.LegacyClient.responseOf { name := "<1.4".toList, protocol := -1 } info.motd
    info.online info.max latency

theorem parseResponse_rust (info : Info) (latency : Float)
    : Rust.LegacyClient.parseResponse (Utf16.encode info.text) latency
        = .ok (info.rustResponse latency) := by
  rcases info with ⟨version, motd, online, max, hmotd, hname, hold, -⟩
  cases version with
  | none => exact Rust.LegacyClient.parseResponse_oldText online max latency hmotd (hold rfl)
  | some version =>
    exact Rust.LegacyClient.parseResponse_currentText version.1 online max latency
      (hname version.1 version.2 rfl) hmotd

theorem parseResponse_python (info : Info) (latency : Rat)
    : Python.LegacyClient.parseResponse (Utf16.encode info.text) latency
        = .ok (info.pythonResponse latency) := by
  rcases info with ⟨version, motd, online, max, hmotd, hname, hold, -⟩
  cases version with
  | none => exact Python.LegacyClient.parseResponse_oldText online max latency hmotd (hold rfl)
  | some version =>
    exact Python.LegacyClient.parseResponse_currentText version.1 online max latency
      (hname version.1 version.2 rfl) hmotd

theorem even_length (info : Info) : (Utf16.encode info.text).length % 2 = 0 := by
  rw [Utf16.length_encode]
  omega

theorem takeKick_reply (info : Info) : takeKick info.reply = some (Utf16.encode info.text, []) := by
  have htake := takeKick_kick info.even_length info.fits []
  rwa [List.append_nil] at htake

end Info

structure Same (rust : Rust.LegacyStatusResponse) (python : Python.LegacyStatusResponse)
    : Prop where
  name : rust.version.name = python.version.name
  protocol : (rust.version.protocol.toNat : Int) = python.version.protocol
  motd : ∃ motd, rust.motd.raw = .string motd ∧ python.motd.raw = .str motd
  online : (rust.players.online.toNat : Int) = python.players.online
  max : (rust.players.max.toNat : Int) = python.players.max

namespace Info

theorem same_iff (info : Info) (latency_ms : Float) (latency : Rat)
    : Same (info.rustResponse latency_ms) (info.pythonResponse latency)
        ↔ AllBmp info.motd ∧ ∃ protocol name, info.version = some (protocol, name)
          ∧ AllBmp name := by
  rcases info with ⟨version, motd, online, max, hmotd, hname, hold, hfits⟩
  cases version with
  | none =>
    constructor
    . intro h
      have hprotocol := h.protocol
      cases hprotocol
    . rintro ⟨-, protocol, name, hversion, -⟩
      cases hversion
  | some version =>
    rcases version with ⟨protocol, name⟩
    rw [← filter_isBmp_eq_iff]
    constructor
    . intro h
      rcases h.motd with ⟨motd', hrust, hpython⟩
      cases hpython
      exact ⟨Rust.MotdRaw.string.inj hrust, protocol, name, rfl,
        filter_isBmp_eq_iff.mp h.name⟩
    . rintro ⟨hall, protocol', name', hversion, hall'⟩
      cases hversion
      exact {
        name := filter_isBmp_eq_iff.mpr hall'
        protocol := rfl
        motd := ⟨motd, congrArg Rust.MotdRaw.string hall, rfl⟩
        online := rfl
        max := rfl
      }

end Info

def server (info : Info) : Responder Bool UInt8 := fun answered input =>
  if answered = false ∧ request <+: input then
    some { state := true, rest := input.drop request.length, reply := info.reply }
  else
    none

def connect (info : Info) (schedule : List Turn) : Session (server info) :=
  .connect (server info) false schedule

def asked (info : Info) (schedule : List Turn) : Session (server info) :=
  (connect info schedule).send request

theorem answers_request (info : Info)
    : Answers (server info) false request [info.reply] true := by
  have hserver : server info false request
      = some { state := true, rest := [], reply := info.reply } := by
    rw [server, if_pos ⟨rfl, List.prefix_refl _⟩, List.drop_length]
  refine .request hserver (.done ?_)
  rw [server, if_neg (by simp)]

theorem arrivals_asked (info : Info) (schedule : List Turn)
    : (asked info schedule).arrivals <+: info.reply
        ∧ (Prompt schedule 1 info.reply.length → (asked info schedule).arrivals = info.reply) := by
  have hanswers : Answers (server info) (asked info schedule).state
      (asked info schedule).toServer [info.reply] true := answers_request info
  have hflatten : (asked info schedule).toClient ++ [info.reply].flatten = info.reply :=
    List.append_nil _
  constructor
  . have hpre := Wire.coming_isPrefix hanswers schedule
    rwa [hflatten] at hpre
  . intro hprompt
    have hall := Wire.coming_of_prompt schedule hanswers (by rwa [hflatten])
    rwa [hflatten] at hall

end Legacy

end McStatus
