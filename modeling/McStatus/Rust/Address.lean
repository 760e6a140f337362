import McStatus.Library.Split
import McStatus.Rust.Basic

/-!
This module contains `Address::parse_address` of `src/address.rs` and the grammar of the addresses
it accepts.
-/

namespace McStatus

open Fallible

namespace Rust

/-- `Address`, without the IP it is resolved to. -/
structure Address where
  host : List Char
  port : UInt16
  deriving DecidableEq, Repr

namespace Address

/-- The host in a bracket at the start of `address`, and what follows the bracket. -/
def bracketed (address : List Char) : Option (List Char × List Char) :=
  match address with
  | '[' :: s => splitOnce ']' s
  | _ => none

def parsePort (port_str : List Char) : Except String UInt16 :=
  match parseU16 port_str with
  | some port => .ok port
  | none => .error ("Invalid port: '" ++ String.ofList port_str ++ "'")

def parseAddress (address : List Char) (default_port : UInt16) : Except String Address :=
  match bracketed address with
  | some (host, rest) =>
    match rest with
    | [] => .ok { host, port := default_port }
    | ':' :: port_str => do
      let port ← parsePort port_str
      .ok { host, port }
    | _ => .error ("Invalid address format: '" ++ String.ofList address ++ "'")
  | none =>
    match rsplitOnce ':' address with
    | none =>
      if address.isEmpty then
        .error "Address cannot be empty"
      else
        .ok { host := address, port := default_port }
    | some (host, port_str) => do
      let port ← parsePort port_str
      if host.isEmpty then
        .error "Host cannot be empty"
      else
        .ok { host, port }

example : parseAddress "[::1]:19132".toList 25565
    = .ok { host := "::1".toList, port := 19132 } := by
  decide

example : parseAddress ":25565".toList 25565 = .error "Host cannot be empty" := by decide

def Bracketed (address : List Char) : Prop :=
  ∃ s, address = '[' :: s ∧ ']' ∈ s

/-- `address` is written for this host, with this port if with any. -/
inductive Reads : List Char → List Char → Option UInt16 → Prop where
  | bracket {host : List Char} (hclosed : ']' ∉ host) : Reads ('[' :: host ++ [']']) host none
  | bracketPort {host port_str : List Char} {port : UInt16} (hclosed : ']' ∉ host)
      (hport : parseU16 port_str = some port)
      : Reads ('[' :: host ++ ']' :: ':' :: port_str) host (some port)
  | plain {host : List Char} (hplain : ¬ Bracketed host) (hcolon : ':' ∉ host) (hhost : host ≠ [])
      : Reads host host none
  | plainPort {host port_str : List Char} {port : UInt16}
      (hplain : ¬ Bracketed (host ++ ':' :: port_str)) (hcolon : ':' ∉ port_str)
      (hhost : host ≠ []) (hport : parseU16 port_str = some port)
      : Reads (host ++ ':' :: port_str) host (some port)

variable {address host rest port_str : List Char} {port default_port : UInt16} {addr : Address}

theorem bracketed_eq_some_iff
    : bracketed address = some (host, rest)
      ↔ address = '[' :: host ++ ']' :: rest ∧ ']' ∉ host := by
  rw [bracketed.eq_def]
  cases address with
  | nil => simp
  | cons c s =>
    by_cases hc : c = '['
    . subst hc
      simp [splitOnce_eq_some_iff]
    . simp [hc]

theorem bracketed_eq_none_iff : bracketed address = none ↔ ¬ Bracketed address := by
  rw [bracketed.eq_def, Bracketed]
  cases address with
  | nil => simp
  | cons c s =>
    by_cases hc : c = '['
    . subst hc
      simp [splitOnce_eq_none_iff]
    . simp [hc]

theorem parsePort_eq_ok_iff : parsePort port_str = .ok port ↔ parseU16 port_str = some port := by
  rw [parsePort]
  cases parseU16 port_str <;> simp

theorem Reads.parseAddress_eq {port : Option UInt16} (h : Reads address host port)
    : parseAddress address default_port = .ok { host, port := port.getD default_port } := by
  cases h with
  | bracket hclosed =>
    rw [parseAddress, bracketed_eq_some_iff.mpr ⟨rfl, hclosed⟩]
    rfl
  | bracketPort hclosed hport =>
    rw [parseAddress, bracketed_eq_some_iff.mpr ⟨rfl, hclosed⟩]
    simp [parsePort_eq_ok_iff.mpr hport]
  | plain hplain hcolon hhost =>
    rw [parseAddress, bracketed_eq_none_iff.mpr hplain]
    dsimp only
    rw [rsplitOnce_eq_none_iff.mpr hcolon]
    dsimp only
    rw [if_neg (by simpa using hhost)]
    rfl
  | plainPort hplain hcolon hhost hport =>
    rw [parseAddress, bracketed_eq_none_iff.mpr hplain]
    dsimp only
    rw [rsplitOnce_eq_some_iff.mpr ⟨rfl, hcolon⟩]
    dsimp only
    rw [parsePort_eq_ok_iff.mpr hport, ok_bind, if_neg (by simpa using hhost)]
    rfl

theorem reads_of_bracketed (hbracket : bracketed address = some (host, rest))
    (h : parseAddress address default_port = .ok addr) : ∃ port, Reads address addr.host port := by
  rw [parseAddress, hbracket] at h
  dsimp only at h
  rcases bracketed_eq_some_iff.mp hbracket with ⟨rfl, hclosed⟩
  match rest with
  | [] =>
    cases h
    exact ⟨none, .bracket hclosed⟩
  | c :: port_str =>
    by_cases hc : c = ':'
    . subst hc
      rcases bind_eq_ok.mp h with ⟨port, hport, haddr⟩
      cases haddr
      exact ⟨some port, .bracketPort hclosed (parsePort_eq_ok_iff.mp hport)⟩
    . simp [hc] at h

theorem reads_of_plain (hbracket : bracketed address = none)
    (h : parseAddress address default_port = .ok addr) : ∃ port, Reads address addr.host port := by
  rw [parseAddress, hbracket] at h
  dsimp only at h
  have hplain := bracketed_eq_none_iff.mp hbracket
  cases hsplit : rsplitOnce ':' address with
  | none =>
    rw [hsplit] at h
    dsimp only at h
    by_cases hempty : address.isEmpty
    . rw [if_pos hempty] at h
      cases h
    . rw [if_neg hempty] at h
      cases h
      exact ⟨none, .plain hplain (rsplitOnce_eq_none_iff.mp hsplit) (by simpa using hempty)⟩
  | some parts =>
    rcases parts with ⟨host, port_str⟩
    rw [hsplit] at h
    dsimp only at h
    rcases rsplitOnce_eq_some_iff.mp hsplit with ⟨rfl, hcolon⟩
    rcases bind_eq_ok.mp h with ⟨port, hport, haddr⟩
    by_cases hempty : host.isEmpty
    . rw [if_pos hempty] at haddr
      cases haddr
    . rw [if_neg hempty] at haddr
      cases haddr
      refine ⟨some port, .plainPort hplain hcolon (by simpa using hempty) ?_⟩
      exact parsePort_eq_ok_iff.mp hport

theorem reads_of_parseAddress (h : parseAddress address default_port = .ok addr)
    : ∃ port, Reads address addr.host port := by
  cases hbracket : bracketed address with
  | some parts => exact reads_of_bracketed hbracket h
  | none => exact reads_of_plain hbracket h

theorem parseAddress_eq_ok_iff
    : parseAddress address default_port = .ok addr
      ↔ ∃ port, Reads address addr.host port ∧ addr.port = port.getD default_port := by
  constructor
  . intro h
    rcases reads_of_parseAddress h with ⟨port, hreads⟩
    rw [hreads.parseAddress_eq, Except.ok.injEq] at h
    exact ⟨port, hreads, by rw [← h]⟩
  . rintro ⟨port, hreads, hport⟩
    rw [hreads.parseAddress_eq, ← hport]

theorem parseAddress_independent_iff
    : (∀ default_port, parseAddress address default_port = .ok addr)
      ↔ Reads address addr.host (some addr.port) := by
  constructor
  . intro h
    rcases reads_of_parseAddress (h 0) with ⟨port, hreads⟩
    have hport : ∀ default_port, addr.port = port.getD default_port := by
      intro default_port
      have heq := h default_port
      rw [hreads.parseAddress_eq, Except.ok.injEq] at heq
      rw [← heq]
    cases port with
    | none => exact absurd ((hport 0).symm.trans (hport 1)) (by decide)
    | some port =>
      rw [hport 0]
      exact hreads
  . intro hreads default_port
    rw [hreads.parseAddress_eq]
    rfl

end Address

end Rust

end McStatus
