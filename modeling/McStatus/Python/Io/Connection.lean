import McStatus.Library.Attempts
import McStatus.Python.Io.BaseIo

/-!
This module contains the `TCPSocketConnection` of `mcstatus/_protocol/io/connection.py`, over any
socket. A connection holds nothing but its socket, so its methods work on the socket itself.
-/

namespace McStatus

open Reader

namespace Python

/-- The part of `socket.socket` a connection uses. There is an end to the data that can be read. -/
class Socket (σ : Type) where
  recv : Nat → Py σ (List UInt8)
  sendall : List UInt8 → Py σ Unit
  available : σ → Nat
  available_lt {n : Nat} {s s' : σ} {data : List UInt8} :
    recv n s = .ok data s' → data ≠ [] → available s' < available s

namespace TCPSocketConnection

variable {σ : Type} [Socket σ]

/-- The loop of `read`, with the number of bytes that `result` lacks. -/
def readLoop (missing : Nat) : Py σ (List UInt8) :=
  if missing = 0 then
    return []
  else do
    let new ← Socket.recv missing
    if new.length = 0 then
      throw (.osError .noInformation)
    else
      let rest ← readLoop (missing - new.length)
      return new ++ rest
termination_by missing

def read (length : Int) : Py σ (List UInt8) :=
  readLoop length.toNat

def write (data : List UInt8) : Py σ Unit :=
  Socket.sendall data

theorem available_le_of_readLoop {missing : Nat} {s s' : σ} {data : List UInt8}
    (h : readLoop missing s = .ok data s') : Socket.available s' ≤ Socket.available s := by
  induction missing using Nat.strongRecOn generalizing s s' data with
  | ind missing ih =>
    unfold readLoop at h
    split at h
    . cases h
      exact Nat.le_refl _
    . rcases bind_eq_ok.mp h with ⟨new, t, hrecv, h⟩
      split at h
      . cases h
      . next hmissing hnew =>
        rcases bind_eq_ok.mp h with ⟨rest, u, hrest, hpure⟩
        rw [pure_apply, EStateM.Result.ok.injEq] at hpure
        have hlt := Socket.available_lt hrecv (by simpa using hnew)
        have hle := ih _ (by omega) hrest
        rw [← hpure.2]
        omega

theorem available_lt_of_read {s s' : σ} {data : List UInt8} (h : read 1 s = .ok data s')
    : Socket.available s' < Socket.available s := by
  have hone : (1 : Int).toNat ≠ 0 := by decide
  rw [read, readLoop, if_neg hone] at h
  rcases bind_eq_ok.mp h with ⟨new, t, hrecv, h⟩
  split at h
  . cases h
  . next hnew =>
    rcases bind_eq_ok.mp h with ⟨rest, u, hrest, hpure⟩
    rw [pure_apply, EStateM.Result.ok.injEq] at hpure
    have hlt := Socket.available_lt hrecv (by simpa using hnew)
    have hle := available_le_of_readLoop hrest
    rw [← hpure.2]
    omega

theorem keeps_read {I : σ → Prop} (h : ∀ n, Keeps I (Socket.recv n : Py σ (List UInt8)))
    (length : Int) : Keeps I (read length : Py σ (List UInt8)) := by
  rw [read]
  generalize length.toNat = missing
  induction missing using Nat.strongRecOn with
  | ind missing ih =>
    unfold readLoop
    split
    . exact Keeps.pure _
    . next hmissing =>
      refine Keeps.bind (h missing) fun new => ?_
      split
      . exact Keeps.throw _
      . exact Keeps.bind (ih _ (by omega)) fun rest => Keeps.pure _

end TCPSocketConnection

end Python

end McStatus
