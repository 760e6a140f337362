import McStatus.Library.Loop
import McStatus.Python.Java.Client

/-!
This module contains the `JavaServer` of `mcstatus/server.py`, and its `ping` with the decorator it
is retried by.
-/

namespace McStatus

open Fallible Reader

namespace Python

open BaseSyncReader BaseSyncWriter

/-- The loop of `retry`: without any tries there is no exception to raise again. -/
def retry {σ α : Type} (tries : Int) (func : Nat → Py σ α) : Py σ α :=
  attemptsFrom func 0 tries.toNat .unboundLocalError

structure JavaServer where
  address : Address
  query_port : Int

namespace JavaServer

/-- `port or self.DEFAULT_PORT` -/
def portOrDefault (port : Option Int) : Int :=
  match port with
  | some port => if port = 0 then 25565 else port
  | none => 25565

def new (host : List Char) (port query_port : Option Int) : Except Exception JavaServer := do
  let address ← Address.new host (port.getD 25565)
  let query_port := query_port.getD (portOrDefault port)
  let _ ← Address.new host query_port
  .ok { address, query_port }

/-- `lookup`, from where the address is found. -/
def lookup (addr : Address) : Except Exception JavaServer :=
  new addr.host (some addr.port) none

theorem lookup_eq (addr : Address)
    : lookup addr = .ok { address := addr, query_port := portOrDefault (some addr.port) } := by
  have hvalid : 0 ≤ portOrDefault (some addr.port) ∧ portOrDefault (some addr.port) ≤ 65535 := by
    have := addr.port_valid
    simp only [portOrDefault]
    split <;> omega
  rw [lookup, new, Option.getD_some, Option.getD_none, Address.new_port, ok_bind]
  dsimp only
  rw [Address.new, dif_pos hvalid, ok_bind]

theorem portOrDefault_eq_iff {port : Int} : portOrDefault (some port) = port ↔ port ≠ 0 := by
  simp only [portOrDefault]
  split <;> omega

def localhost : JavaServer where
  address := { host := "localhost".toList, port := 25565, port_valid := by decide }
  query_port := 25565

section Ping

variable {σ : Type} [BaseSyncReader σ] [BaseSyncWriter σ] [Clock σ]

/-- `_retry_ping`, with what `random` gives to its client. -/
def retryPing (server : JavaServer) (version : Int) (ping_token : Option Int) (random : RandomToken)
    : Py σ Rat := do
  let java_client := JavaClient.new server.address version ping_token random
  java_client.handshake
  java_client.testPing

/-- `ping` from the point on where the connection is open. -/
def ping (server : JavaServer) (tries version : Int) (ping_token : Option Int)
    (random : Nat → RandomToken) : Py σ Rat :=
  retry tries fun i => server.retryPing version ping_token (random i)

end Ping

end JavaServer

end Python

end McStatus
