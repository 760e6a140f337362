import McStatus.Rust.Forge.Impl
import McStatus.Rust.Motd.Motd
import McStatus.Rust.Response.Raw

/-!
This module contains the status responses of `src/response/java.rs`.
-/

namespace McStatus

open Fallible

namespace Rust

structure JavaStatusPlayer where
  name : List Char
  id : List Char
  deriving DecidableEq, Repr

structure JavaStatusPlayers where
  online : UInt32
  max : UInt32
  sample : Option (List JavaStatusPlayer)
  deriving DecidableEq, Repr

structure JavaStatusVersion where
  name : List Char
  protocol : UInt32
  deriving DecidableEq, Repr

structure JavaStatusResponse where
  raw : Value
  players : JavaStatusPlayers
  version : JavaStatusVersion
  motd : Motd
  latency : Float
  enforces_secure_chat : Option Bool
  icon : Option (List Char)
  forge_data : Option ForgeData

/-- The messages of `build`. That of the first goes on with what `serde` says. -/
inductive BuildError where
  /-- `Failed to parse Java status JSON: {e}` -/
  | parse
  /-- `Missing 'version' field in status response` -/
  | missingVersion
  deriving DecidableEq, Repr

namespace JavaStatusPlayers

def ofRaw (raw : Option RawJavaPlayers) : JavaStatusPlayers :=
  match raw with
  | none => { online := 0, max := 0, sample := none }
  | some p => {
      online := p.online
      max := p.max
      sample := p.sample.map fun sample => sample.map fun s => { name := s.name, id := s.id }
    }

end JavaStatusPlayers

def RawMotd.toMotd (description : RawMotd) : Exec Motd :=
  match description with
  | .string s => pure (Motd.fromString s false)
  | .object v => Motd.fromJson v false

namespace JavaStatusResponse

/-- The forge data of a response: from `forge_data`, or else from `modinfo`. -/
def forgeData (raw : RawJavaResponse) : Option ForgeData :=
  (raw.forge_data <|> raw.modinfo.map RawForgeData.toValue).bind
    fun fd => (ForgeData.build fd).toOption

def build (raw_json : Value) (latency : Float) : Exec (Except BuildError JavaStatusResponse) :=
  match RawJavaResponse.deserialize raw_json with
  | none => return .error .parse
  | some raw =>
    match raw.version with
    | none => return .error .missingVersion
    | some v => do
      let motd ← raw.description.toMotd
      return .ok {
        raw := raw_json
        players := .ofRaw raw.players
        version := { name := v.name, protocol := v.protocol }
        motd := motd
        latency := latency
        enforces_secure_chat := raw.enforces_secure_chat
        icon := raw.favicon
        forge_data := forgeData raw
      }

def ofRaw (raw_json : Value) (latency : Float) (raw : RawJavaResponse) (v : RawJavaVersion)
    (motd : Motd) : JavaStatusResponse where
  raw := raw_json
  players := .ofRaw raw.players
  version := { name := v.name, protocol := v.protocol }
  motd := motd
  latency := latency
  enforces_secure_chat := raw.enforces_secure_chat
  icon := raw.favicon
  forge_data := forgeData raw

theorem build_eq_ok_iff {raw_json : Value} {latency : Float} {response : JavaStatusResponse}
    : build raw_json latency = .ok (.ok response)
        ↔ ∃ raw v motd, RawJavaResponse.deserialize raw_json = some raw ∧ raw.version = some v
          ∧ raw.description.toMotd = .ok motd ∧ response = ofRaw raw_json latency raw v motd := by
  unfold build
  constructor
  . intro h
    split at h
    . cases h
    . next raw hraw =>
      split at h
      . cases h
      . next v hv =>
        rcases bind_eq_ok.mp h with ⟨motd, hmotd, hreturn⟩
        cases hreturn
        exact ⟨raw, v, motd, hraw, hv, hmotd, rfl⟩
  . rintro ⟨raw, v, motd, hraw, hv, hmotd, rfl⟩
    rw [hraw]
    dsimp only
    rw [hv]
    dsimp only
    rw [hmotd]
    rfl

end JavaStatusResponse

end Rust

end McStatus
