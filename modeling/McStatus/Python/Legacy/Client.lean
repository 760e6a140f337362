import McStatus.Legacy.Wire
import McStatus.Python.Java.StatusExchange
import McStatus.Python.Legacy.Impl
import McStatus.Python.Network

/-!
This module shows that `read_status` of the `LegacyClient` parses the kick that arrives, however it
does, and contains the attempts of the `LegacyServer`.
-/

namespace McStatus

open Reader Duplex

namespace Python

namespace LegacyClient

open BaseSyncReader BaseSyncWriter

variable {S : Type} {responder : Responder S UInt8} {session : Session responder}
variable {codes rest : List UInt8}

theorem unpack_pair (high low : UInt8)
    : unpack .ushort [high, low] = .ok (BigEndian.decode [high, low] : Int) := by
  rw [unpack, if_neg (fun h => h rfl)]
  rfl

theorem readLength_of_cons {high low : UInt8} {tail : List UInt8}
    (harrivals : session.arrivals = high :: low :: tail)
    : ∃ session', (readValue .ushort : Py (Session responder) Int) session
          = .ok (BigEndian.decode [high, low] : Int) session'
        ∧ session'.arrivals = tail := by
  rcases SessionSocket.consumes_read [high, low] session tail harrivals with
    ⟨session', hread, htail⟩
  refine ⟨session', ?_, htail⟩
  have hread : (read (StructFormat.ushort.calcsize : Nat) : Py (Session responder) (List UInt8))
      session = .ok [high, low] session' := hread
  rw [readValue, bind_of_ok hread, unpack_pair]
  rfl

theorem onward_readKick
    : Session.Onward (readKick : EStateM LegacyError (Session responder) (List UInt8)) := by
  refine ((onward_read 1).adaptExcept _).bind fun id => .ite (.throw _) (.adaptExcept _ ?_)
  exact ((onward_read _).bind fun data => onward_ofExcept _).bind fun length => onward_read _

theorem readKick_of_cons {id : UInt8} (harrivals : session.arrivals = id :: rest)
    : ∃ session', session'.arrivals = rest
        ∧ readKick session
          = (if id ≠ 0xFF then
              throw .invalidPacketId
            else
              EStateM.adaptExcept .raised do
                let length ← readValue .ushort
                read (length * 2)
            : EStateM LegacyError (Session responder) (List UInt8)) session' := by
  rcases SessionSocket.consumes_read [id] session rest harrivals with ⟨session', hread, hrest⟩
  have hread : (read 1 : Py (Session responder) (List UInt8)) session = .ok [id] session' := hread
  refine ⟨session', hrest, ?_⟩
  rw [readKick, bind_of_ok (adaptExcept_of_ok hread)]
  by_cases hid : id = 0xFF
  . rw [if_neg (by simp [hid]), if_neg (by simp [hid])]
  . rw [if_pos (by simp [hid]), if_pos hid]

theorem readKick_of_some (h : Legacy.takeKick session.arrivals = some (codes, rest))
    : ∃ session', readKick session = .ok codes session' ∧ session'.arrivals = rest
        ∧ session'.clock = session.timeAfter (3 + codes.length) := by
  rcases Legacy.takeKick_eq_some_iff.mp h with ⟨high, low, harrivals, hsize⟩
  rcases readKick_of_cons harrivals with ⟨session₁, harrivals₁, hkick⟩
  rcases readLength_of_cons harrivals₁ with ⟨session₂, hlength, harrivals₂⟩
  rcases SessionSocket.consumes_read codes session₂ rest harrivals₂ with ⟨session', hread, hrest⟩
  have hcast : (codes.length : Int) = (BigEndian.decode [high, low] : Int) * 2 := by omega
  rw [hcast] at hread
  have hrun : readKick session = .ok codes session' := by
    rw [hkick, if_neg (by decide)]
    exact adaptExcept_of_ok ((bind_of_ok hlength).trans hread)
  have hsplit : session.arrivals = (0xFF :: high :: low :: codes) ++ session'.arrivals := by
    rw [harrivals, hrest]
    rfl
  have hclock := (onward_readKick _ _ _ hrun).clock_of_arrivals hsplit
  refine ⟨session', hrun, hrest, ?_⟩
  rw [hclock, Nat.add_comm]
  rfl

theorem readKick_of_foreign (h : Legacy.Foreign session.arrivals)
    : ∃ session', readKick session = .error .invalidPacketId session' := by
  rcases h with ⟨id, rest, harrivals, hid⟩
  rcases readKick_of_cons harrivals with ⟨session', -, hkick⟩
  rw [if_pos hid] at hkick
  exact ⟨session', hkick⟩

theorem readKick_of_none (h : Legacy.takeKick session.arrivals = none)
    (hforeign : ¬ Legacy.Foreign session.arrivals)
    : ∃ e session', readKick session = .error (.raised e) session'
        ∧ SessionSocket.IsEnding e := by
  cases harrivals : session.arrivals with
  | nil =>
    rcases @SessionSocket.readLoop_of_lt _ _ 1 session (by simp [harrivals]) with
      ⟨e, session', herror, he⟩
    exact ⟨e, session', bind_of_error (adaptExcept_of_error herror), he⟩
  | cons id rest =>
    rw [harrivals] at h hforeign
    have hid : id = 0xFF := by
      by_contra hne
      exact hforeign ⟨id, rest, rfl, hne⟩
    subst hid
    rcases readKick_of_cons harrivals with ⟨session₁, harrivals₁, hkick⟩
    rw [hkick, if_neg (by decide)]
    rcases Legacy.short_of_takeKick h with hshort | ⟨high, low, tail, rfl, hshort⟩
    . rcases @SessionSocket.readLoop_of_lt _ _ 2 session₁ (by rwa [harrivals₁]) with
        ⟨e, session', herror, he⟩
      have hlength : (readValue .ushort : Py (Session responder) Int) session₁
          = .error e session' := bind_of_error herror
      exact ⟨e, session', adaptExcept_of_error (bind_of_error hlength), he⟩
    . rcases readLength_of_cons harrivals₁ with ⟨session₂, hlength, harrivals₂⟩
      rcases @SessionSocket.readLoop_of_lt _ _
        (BigEndian.decode [high, low] * 2) session₂ (by rwa [harrivals₂]) with ⟨e, t, herror, he⟩
      have hread : (read ((BigEndian.decode [high, low] : Int) * 2)
          : Py (Session responder) (List UInt8)) session₂ = .error e t := herror
      exact ⟨e, t, adaptExcept_of_error ((bind_of_ok hlength).trans hread), he⟩

theorem readStatus_eq (session : Session responder)
    : readStatus session
        =
      (do
        let data ← readKick
        let stop ← EStateM.adaptExcept .raised Clock.perfCounter
        ofResult (parseResponse data
          ((stop - SessionSocket.seconds session.clock) * 1000))
        : EStateM LegacyError (Session responder) LegacyStatusResponse)
        (session.send Legacy.request) :=
  rfl

theorem readStatus_of_some
    (h : Legacy.takeKick (session.send Legacy.request).arrivals = some (codes, rest))
    : ∃ session', session'.arrivals = rest
        ∧ readStatus session
          = (ofResult (parseResponse codes ((SessionSocket.seconds
                ((session.send Legacy.request).timeAfter (3 + codes.length))
              - SessionSocket.seconds session.clock) * 1000))
            : EStateM LegacyError (Session responder) LegacyStatusResponse) session' := by
  rcases readKick_of_some h with ⟨session', hread, hrest, hclock⟩
  refine ⟨session', hrest, ?_⟩
  rw [readStatus_eq, bind_of_ok hread,
    bind_of_ok (adaptExcept_of_ok (SessionSocket.perfCounter_eq session')), hclock]

theorem readStatus_of_foreign (h : Legacy.Foreign (session.send Legacy.request).arrivals)
    : ∃ session', readStatus session = .error .invalidPacketId session' := by
  rcases readKick_of_foreign h with ⟨session', hread⟩
  exact ⟨session', (readStatus_eq session).trans (bind_of_error hread)⟩

theorem readStatus_of_none (h : Legacy.takeKick (session.send Legacy.request).arrivals = none)
    (hforeign : ¬ Legacy.Foreign (session.send Legacy.request).arrivals)
    : ∃ e session', readStatus session = .error (.raised e) session'
        ∧ SessionSocket.IsEnding e := by
  rcases readKick_of_none h hforeign with ⟨e, session', hread, he⟩
  exact ⟨e, session', (readStatus_eq session).trans (bind_of_error hread), he⟩

end LegacyClient

/-- `status` of a `LegacyServer`, whose address is only used to connect. -/
def LegacyServer.status {S : Type} {responder : Responder S UInt8} (tries : Int)
    : EStateM LegacyError (Network (Session responder)) LegacyStatusResponse :=
  Network.retry .raised tries fun _ => LegacyClient.readStatus

end Python

end McStatus
