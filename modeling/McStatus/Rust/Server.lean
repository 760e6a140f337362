import McStatus.Python.Java.Server
import McStatus.Rust.Dns

/-!
This module contains the ways to a `JavaServer` of `src/server.rs`, and what its query port has to
do with its address. The Python counterpart comes from `mcstatus/server.py`.
-/

namespace McStatus

open Reader

namespace Rust

open Address

/-- `JavaServer`, without its timeout. -/
structure JavaServer where
  address : Address
  query_port : UInt16
  deriving DecidableEq, Repr

namespace JavaServer

def new (host : List Char) (port query_port : Option UInt16) : JavaServer :=
  let port := port.getD 25565
  let query_port := query_port.getD port
  { address := { host, port }, query_port }

/-- `From<String> for McStatusError` makes the `Other` of an error. -/
def lookup (address : List Char) (no_srv : Bool) : EStateM McStatusError Resolver JavaServer := do
  let addr ← EStateM.adaptExcept .other (minecraftSrvAddressLookup address 25565 no_srv)
  pure { address := addr, query_port := 25565 }

def OneServerOnePort (address : List Char) (no_srv : Bool) (resolver : Resolver) : Prop :=
  ∀ server resolver', lookup address no_srv resolver = .ok server resolver' →
    server.query_port = server.address.port

/-- The port that `address` is written with, or that is found for it, is the usual one. -/
structure UsualPort (address : List Char) (no_srv : Bool) (resolver : Resolver) : Prop where
  written : ∀ host port, Reads address host (some port) →
    no_srv = true ∨ ¬ UnclosedBracket address → port = 25565
  asked : ∀ host written, Reads address host written → no_srv = false →
    written = none ∨ UnclosedBracket address →
      ((resolver.record? host).map port).getD (written.getD 25565) = 25565

variable {address host : List Char} {no_srv : Bool} {resolver : Resolver}
variable {written : Option UInt16}

theorem lookup_of_ok {resolver' : Resolver} {addr : Address}
    (h : minecraftSrvAddressLookup address 25565 no_srv resolver = .ok addr resolver')
    : lookup address no_srv resolver = .ok { address := addr, query_port := 25565 } resolver' := by
  rw [lookup, bind_of_ok (a := addr) (t := resolver')]
  . rfl
  . rw [EStateM.adaptExcept, h]

theorem lookup_of_error {e : String} {resolver' : Resolver}
    (h : minecraftSrvAddressLookup address 25565 no_srv resolver = .error e resolver')
    : lookup address no_srv resolver = .error (.other e) resolver' := by
  rw [lookup]
  apply bind_of_error
  rw [EStateM.adaptExcept, h]

theorem lookup_of_specific (hreads : Reads address host written)
    (h : no_srv = true ∨ written.isSome ∧ ¬ UnclosedBracket address)
    : lookup address no_srv resolver
      = .ok { address := { host, port := written.getD 25565 }, query_port := 25565 } resolver := by
  apply lookup_of_ok
  apply minecraftSrvAddressLookup_of_specific hreads.parseAddress_eq
  exact h.imp_right (specificPort_iff hreads).mpr

theorem lookup_of_not_specific (hreads : Reads address host written)
    (h : written = none ∨ UnclosedBracket address)
    : lookup address false resolver
      = .ok
        { address := (resolver.record? host).getD { host, port := written.getD 25565 }
          query_port := 25565 }
        (resolver.logged host) := by
  apply lookup_of_ok
  apply minecraftSrvAddressLookup_of_not_specific hreads.parseAddress_eq
  rw [Bool.eq_false_iff, ne_eq, specificPort_iff hreads]
  rintro ⟨hsome, hclosed⟩
  rcases h with rfl | hunclosed
  . cases hsome
  . exact hclosed hunclosed

theorem port_getD (record : Option Address) (addr : Address)
    : (record.getD addr).port = (record.map port).getD addr.port := by
  cases record <;> rfl

theorem oneServerOnePort_iff
    : OneServerOnePort address no_srv resolver ↔ UsualPort address no_srv resolver := by
  constructor
  . intro h
    constructor
    . intro host port hreads hfound
      exact (h _ _ (lookup_of_specific hreads
        (hfound.imp_right fun hclosed => ⟨rfl, hclosed⟩))).symm
    . rintro host written hreads rfl hasked
      rw [← port_getD _ { host, port := written.getD 25565 }]
      exact (h _ _ (lookup_of_not_specific hreads hasked)).symm
  . intro h server resolver' hlookup
    cases hparse : parseAddress address 25565 with
    | error e =>
      rw [lookup_of_error (minecraftSrvAddressLookup_of_error hparse)] at hlookup
      cases hlookup
    | ok addr =>
      rcases reads_of_parseAddress hparse with ⟨written, hreads⟩
      by_cases hfound : no_srv = true ∨ written.isSome ∧ ¬ UnclosedBracket address
      . rw [lookup_of_specific hreads hfound] at hlookup
        cases hlookup
        cases written with
        | none => rfl
        | some port => exact (h.written _ port hreads (hfound.imp_right And.right)).symm
      . rw [not_or, Bool.not_eq_true] at hfound
        rcases hfound with ⟨rfl, hfound⟩
        have hasked : written = none ∨ UnclosedBracket address := by
          rw [not_and, not_not] at hfound
          cases written with
          | none => exact Or.inl rfl
          | some port => exact Or.inr (hfound rfl)
        rw [lookup_of_not_specific hreads hasked] at hlookup
        cases hlookup
        dsimp only
        rw [port_getD]
        exact (h.asked _ written hreads rfl hasked).symm

/--
A port in the address is used, except behind a bracket that never closes. The server's query port is
the usual one and not the port of the server, which `new` takes, and the Python library unless that
is zero.
-/
theorem explicitPort_queryPort (address : List Char) (no_srv : Bool) (resolver : Resolver)
    : (ExplicitPortWins address ↔ ¬ UnclosedBracket address)
      ∧ (OneServerOnePort address no_srv resolver ↔ UsualPort address no_srv resolver)
      ∧ (∀ host port, (new host (some port) none).query_port = port)
      ∧ ∀ addr, ∃ server, Python.JavaServer.lookup addr = .ok server ∧ server.address = addr
        ∧ (server.query_port = addr.port ↔ addr.port ≠ 0) := by
  refine ⟨explicitPortWins_iff, oneServerOnePort_iff, fun _ _ => rfl, ?_⟩
  intro addr
  exact ⟨_, Python.JavaServer.lookup_eq addr, rfl, Python.JavaServer.portOrDefault_eq_iff⟩

/-- A resolver that knows one server, on port `19999`. -/
def oneRecord : Resolver where
  answer _ := .ok (some ("mc.example.com".toList, 19999))
  asked := []

/-- `[foo:25565` is resolved by a record, and `example.com:25566` is queried on port `25565`. -/
theorem not_explicitPort_not_queryPort
    : ¬ ExplicitPortWins "[foo:25565".toList
      ∧ ¬ OneServerOnePort "example.com:25566".toList false oneRecord := by
  constructor
  . intro h
    have hparse : ∀ default_port, parseAddress "[foo:25565".toList default_port
        = .ok { host := "[foo".toList, port := 25565 } := fun _ => rfl
    have hwins := h _ hparse 25565 oneRecord
    have hrecord : minecraftSrvAddressLookup "[foo:25565".toList 25565 false oneRecord
        = .ok { host := "mc.example.com".toList, port := 19999 } (oneRecord.logged "[foo".toList) :=
      rfl
    rw [hrecord, EStateM.Result.ok.injEq] at hwins
    exact absurd hwins.1 (by decide)
  . intro h
    have hlookup : lookup "example.com:25566".toList false oneRecord
        = .ok { address := { host := "example.com".toList, port := 25566 }, query_port := 25565 }
          oneRecord := rfl
    exact absurd (h _ _ hlookup) (by decide)

end JavaServer

end Rust

end McStatus
