import Mathlib.Data.List.Basic

/-!
This module contains a server on a network of datagrams, which can lose them, bring them again, and
bring them in any order.
-/

namespace McStatus

namespace Datagrams

variable {S ι : Type}

/-- A server takes one datagram after the other, and answers each of them with some. -/
abbrev Server (S ι : Type) := S → ι → S × List ι

/--
What a server gets to once these were sent: any of them reach it, in any order, again and again.
-/
inductive Reaches (server : Server S ι) (start : S) (sent : List ι) : S → Prop where
  | start : Reaches server start sent start
  | next {state : S} {datagram : ι} :
      Reaches server start sent state → datagram ∈ sent →
      Reaches server start sent (server state datagram).1

def Brings (server : Server S ι) (start : S) (sent : List ι) (reply : ι) : Prop :=
  ∃ state datagram, Reaches server start sent state ∧ datagram ∈ sent
    ∧ reply ∈ (server state datagram).2

/--
One datagram more was sent before each that was received, and the network has brought them all.
-/
def Carries (server : Server S ι) (start : S) (sent received : List ι) : Prop :=
  ∀ k reply, received[k]? = some reply → Brings server start (sent.take (k + 1)) reply

variable {server : Server S ι} {start : S}

theorem carries_pair {first second : ι} {reply reply' : ι}
    (h : Carries server start [first, second] [reply, reply'])
    : Brings server start [first] reply ∧ Brings server start [first, second] reply' :=
  ⟨h 0 reply rfl, h 1 reply' rfl⟩

end Datagrams

end McStatus
