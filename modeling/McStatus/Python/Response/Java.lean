import McStatus.Python.Forge.Impl
import McStatus.Python.Motd.Motd

/-!
This module contains the status responses of `mcstatus/responses/java.py`, built from the typed
dicts of `mcstatus/responses/_raw.py`, whose keys can be missing.
-/

namespace McStatus

namespace Python

structure RawJavaResponsePlayer where
  name : Option (List Char) := none
  id : Option (List Char) := none
  deriving DecidableEq, Repr

structure RawJavaResponsePlayers where
  online : Option Int := none
  max : Option Int := none
  sample : Option (List RawJavaResponsePlayer) := none
  deriving DecidableEq, Repr

structure RawJavaResponseVersion where
  name : Option (List Char) := none
  protocol : Option Int := none
  deriving DecidableEq, Repr

/-- The data of Forge counts as missing where it is `None` or an empty dict. -/
structure RawJavaResponse where
  description : Option Json := none
  players : Option RawJavaResponsePlayers := none
  version : Option RawJavaResponseVersion := none
  favicon : Option (List Char) := none
  forgeData : Option RawForgeData := none
  modinfo : Option RawForgeData := none
  enforcesSecureChat : Option Bool := none

/-- `raw[key]` -/
def item {α : Type} (value : Option α) (key : String) : Except Exception α :=
  match value with
  | some value => .ok value
  | none => .error (.keyError key.toList)

structure JavaStatusPlayer where
  name : List Char
  id : List Char
  deriving DecidableEq, Repr

def JavaStatusPlayer.build (raw : RawJavaResponsePlayer) : Except Exception JavaStatusPlayer := do
  return { name := ← item raw.name "name", id := ← item raw.id "id" }

structure JavaStatusPlayers where
  online : Int
  max : Int
  sample : Option (List JavaStatusPlayer)
  deriving DecidableEq, Repr

namespace JavaStatusPlayers

def buildSample (sample_raw : Option (List RawJavaResponsePlayer))
    : Except Exception (Option (List JavaStatusPlayer)) :=
  match sample_raw with
  | none => .ok none
  | some sample_raw => do
    return some (← sample_raw.mapM JavaStatusPlayer.build)

def build (raw : RawJavaResponsePlayers) : Except Exception JavaStatusPlayers := do
  let sample ← buildSample raw.sample
  return { online := ← item raw.online "online", max := ← item raw.max "max", sample }

end JavaStatusPlayers

structure JavaStatusVersion where
  name : List Char
  protocol : Int
  deriving DecidableEq, Repr

def JavaStatusVersion.build (raw : RawJavaResponseVersion)
    : Except Exception JavaStatusVersion := do
  return { name := ← item raw.name "name", protocol := ← item raw.protocol "protocol" }

structure JavaStatusResponse where
  raw : RawJavaResponse
  players : JavaStatusPlayers
  version : JavaStatusVersion
  motd : Motd
  latency : Rat
  enforces_secure_chat : Option Bool
  icon : Option (List Char)
  forge_data : Option ForgeData

namespace JavaStatusResponse

def buildForgeData (raw : RawJavaResponse) : Except Exception (Option ForgeData) :=
  match raw.forgeData <|> raw.modinfo with
  | none => .ok none
  | some raw_forge => do
    return some (← ForgeData.build raw_forge)

def build (raw : RawJavaResponse) (latency : Rat) : Except Exception JavaStatusResponse := do
  let forge_data ← buildForgeData raw
  return {
    raw
    players := ← JavaStatusPlayers.build (← item raw.players "players")
    version := ← JavaStatusVersion.build (← item raw.version "version")
    motd := ← Motd.parse (raw.description.getD (.str [])) false
    enforces_secure_chat := raw.enforcesSecureChat
    icon := raw.favicon
    latency
    forge_data
  }

end JavaStatusResponse

end Python

end McStatus
