import McStatus.Library.Reader
import McStatus.Rust.Address

/-!
This module contains the lookup of a Java server's address of `src/dns.rs`. The name servers are an
arbitrary function, and what they are asked is logged.
-/

namespace McStatus

open Reader

namespace Rust

structure Resolver where
  /-- The target and the port of the first `SRV` record of a name, if there is any. -/
  answer : List Char → Except String (Option (List Char × UInt16))
  asked : List (List Char)

abbrev Dns (α : Type) := EStateM String Resolver α

def asyncResolveSrvRecord (fqdn : List Char) : Dns (Option (List Char × UInt16)) := do
  let resolver ← get
  set { resolver with asked := resolver.asked ++ [fqdn] }
  match resolver.answer fqdn with
  | .ok record => pure record
  | .error e => throw e

def srvHost (host : List Char) : List Char :=
  "_minecraft._tcp.".toList ++ host

def resolveMcSrv (host : List Char) : Dns (Option Address) := do
  match ← asyncResolveSrvRecord (srvHost host) with
  | some (target, port) => pure (some { host := target, port })
  | none => pure none

/-- The tests of `minecraft_srv_address_lookup` for a port in the address. -/
def specificPort (address : List Char) : Bool :=
  address.contains ':' && !(['['].isPrefixOf address)
    || match Address.bracketed address with
      | some (_, rest) => [':'].isPrefixOf rest
      | none => false

def minecraftSrvAddressLookup (address : List Char) (default_port : UInt16) (skip_srv : Bool)
    : Dns Address := do
  match Address.parseAddress address default_port with
  | .error e => throw e
  | .ok addr =>
    if skip_srv then
      pure addr
    else if specificPort address then
      pure addr
    else
      tryCatch
        (do
          match ← resolveMcSrv addr.host with
          | some srv_addr => pure srv_addr
          | none => pure addr)
        fun _ => pure addr

def Resolver.record? (resolver : Resolver) (host : List Char) : Option Address :=
  match resolver.answer (srvHost host) with
  | .ok (some (target, port)) => some { host := target, port }
  | .ok none => none
  | .error _ => none

def Resolver.logged (resolver : Resolver) (host : List Char) : Resolver :=
  { resolver with asked := resolver.asked ++ [srvHost host] }

def UnclosedBracket (address : List Char) : Prop :=
  ∃ host port_str, address = '[' :: host ++ ':' :: port_str ∧ ':' ∉ port_str
    ∧ (parseU16 port_str).isSome ∧ ']' ∉ address

open Address

variable {address host : List Char} {written : Option UInt16} {port default_port : UInt16}
variable {addr : Address} {resolver : Resolver}

theorem Resolver.logged_ne (resolver : Resolver) (host : List Char)
    : resolver.logged host ≠ resolver := by
  intro h
  have hasked := congrArg (fun r => r.asked.length) h
  simp [logged] at hasked

theorem not_unclosedBracket_of_mem (h : ']' ∈ address) : ¬ UnclosedBracket address := by
  rintro ⟨_, _, _, _, _, hnot⟩
  exact hnot h

theorem unclosedBracket_iff {port_str : List Char} (hplain : ¬ Bracketed (host ++ ':' :: port_str))
    (hcolon : ':' ∉ port_str) (hhost : host ≠ []) (hport : parseU16 port_str = some port)
    : UnclosedBracket (host ++ ':' :: port_str)
      ↔ ['['].isPrefixOf (host ++ ':' :: port_str) := by
  cases host with
  | nil => exact absurd rfl hhost
  | cons c host =>
    constructor
    . rintro ⟨_, _, heq, -⟩
      simp [heq]
    . intro hopen
      rw [List.cons_append, List.isPrefixOf, Bool.and_eq_true, beq_iff_eq] at hopen
      rcases hopen with ⟨rfl, -⟩
      refine ⟨host, port_str, rfl, hcolon, by simp [hport], ?_⟩
      intro hmem
      exact hplain ⟨host ++ ':' :: port_str, rfl, by simpa using hmem⟩

theorem specificPort_iff (h : Reads address host written)
    : specificPort address = true ↔ written.isSome ∧ ¬ UnclosedBracket address := by
  rw [specificPort]
  cases h with
  | bracket hclosed =>
    rw [bracketed_eq_some_iff.mpr ⟨rfl, hclosed⟩]
    simp
  | bracketPort hclosed hport =>
    rw [bracketed_eq_some_iff.mpr ⟨rfl, hclosed⟩]
    simp [not_unclosedBracket_of_mem]
  | plain hplain hcolon hhost =>
    rw [bracketed_eq_none_iff.mpr hplain]
    simp [hcolon]
  | plainPort hplain hcolon hhost hport =>
    rw [bracketed_eq_none_iff.mpr hplain, unclosedBracket_iff hplain hcolon hhost hport]
    simp [-List.isPrefixOf_iff_prefix]

theorem asyncResolveSrvRecord_of_ok {record : Option (List Char × UInt16)}
    (h : resolver.answer (srvHost host) = .ok record)
    : asyncResolveSrvRecord (srvHost host) resolver = .ok record (resolver.logged host) := by
  rw [asyncResolveSrvRecord, bind_of_ok (get_apply resolver), bind_of_ok (set_apply resolver _), h]
  rfl

theorem asyncResolveSrvRecord_of_error {e : String}
    (h : resolver.answer (srvHost host) = .error e)
    : asyncResolveSrvRecord (srvHost host) resolver = .error e (resolver.logged host) := by
  rw [asyncResolveSrvRecord, bind_of_ok (get_apply resolver), bind_of_ok (set_apply resolver _), h]
  rfl

theorem resolveMcSrv_cases (resolver : Resolver) (host : List Char)
    : (∃ e, resolver.record? host = none
        ∧ resolveMcSrv host resolver = .error e (resolver.logged host))
      ∨ resolveMcSrv host resolver = .ok (resolver.record? host) (resolver.logged host) := by
  rw [Resolver.record?]
  cases hanswer : resolver.answer (srvHost host) with
  | error e => exact Or.inl ⟨e, rfl, bind_of_error (asyncResolveSrvRecord_of_error hanswer)⟩
  | ok record =>
    right
    rw [resolveMcSrv, bind_of_ok (asyncResolveSrvRecord_of_ok hanswer)]
    cases record <;> rfl

variable {skip_srv : Bool}

theorem minecraftSrvAddressLookup_of_specific
    (hparse : parseAddress address default_port = .ok addr)
    (h : skip_srv = true ∨ specificPort address = true)
    : minecraftSrvAddressLookup address default_port skip_srv resolver = .ok addr resolver := by
  rw [minecraftSrvAddressLookup, hparse]
  dsimp only
  cases h with
  | inl hskip => rw [if_pos hskip, pure_apply]
  | inr hspecific => rw [if_pos hspecific, ite_self, pure_apply]

theorem minecraftSrvAddressLookup_of_not_specific
    (hparse : parseAddress address default_port = .ok addr) (h : specificPort address = false)
    : minecraftSrvAddressLookup address default_port false resolver
      = .ok ((resolver.record? addr.host).getD addr) (resolver.logged addr.host) := by
  rw [minecraftSrvAddressLookup, hparse]
  dsimp only
  rw [if_neg Bool.false_ne_true, h, if_neg Bool.false_ne_true]
  rcases resolveMcSrv_cases resolver addr.host with ⟨e, hnone, herror⟩ | hok
  . rw [tryCatch_of_error (bind_of_error herror), hnone]
    rfl
  . cases hrecord : resolver.record? addr.host with
    | none =>
      rw [hrecord] at hok
      exact tryCatch_of_ok (bind_of_ok hok)
    | some srv_addr =>
      rw [hrecord] at hok
      exact tryCatch_of_ok (bind_of_ok hok)

theorem minecraftSrvAddressLookup_of_error {e : String}
    (hparse : parseAddress address default_port = .error e)
    : minecraftSrvAddressLookup address default_port skip_srv resolver = .error e resolver := by
  rw [minecraftSrvAddressLookup, hparse]
  rfl

theorem UnclosedBracket.exists_reads (h : UnclosedBracket address)
    : ∃ host port, Reads address host (some port) := by
  rcases h with ⟨host, port_str, rfl, hcolon, hport, hopen⟩
  rcases Option.isSome_iff_exists.mp hport with ⟨port, hport⟩
  refine ⟨'[' :: host, port, .plainPort ?_ hcolon (by simp) hport⟩
  rintro ⟨s, heq, hmem⟩
  rw [heq] at hopen
  exact hopen (List.mem_cons_of_mem '[' hmem)

/-- A port that the parser takes from `address` is used, whatever the name servers answer. -/
def ExplicitPortWins (address : List Char) : Prop :=
  ∀ addr, (∀ default_port, parseAddress address default_port = .ok addr) →
    ∀ default_port resolver,
      minecraftSrvAddressLookup address default_port false resolver = .ok addr resolver

theorem explicitPortWins_iff : ExplicitPortWins address ↔ ¬ UnclosedBracket address := by
  constructor
  . intro h hunclosed
    rcases hunclosed.exists_reads with ⟨host, port, hreads⟩
    have hspecific : specificPort address = false := by
      rw [Bool.eq_false_iff, ne_eq, specificPort_iff hreads]
      exact fun hclosed => hclosed.2 hunclosed
    have hparse := (@parseAddress_independent_iff address { host, port }).mpr hreads
    let silent : Resolver := { answer := fun _ => .ok none, asked := [] }
    have hwins := h _ hparse 0 silent
    rw [minecraftSrvAddressLookup_of_not_specific (hparse 0) hspecific,
      EStateM.Result.ok.injEq] at hwins
    exact silent.logged_ne host hwins.2
  . intro hclosed addr hparse default_port resolver
    have hreads := parseAddress_independent_iff.mp hparse
    apply minecraftSrvAddressLookup_of_specific (hparse default_port)
    exact Or.inr ((specificPort_iff hreads).mpr ⟨rfl, hclosed⟩)

end Rust

end McStatus
