import Mathlib.Data.List.TakeWhile
import McStatus.Rust.Address
import McStatus.Rust.Decimal

/-!
This module contains `Display` for `Address` of `src/address.rs`, and shows for which strings the
address that is parsed is read back as it is printed.
-/

namespace McStatus

open Fallible

namespace Rust

namespace Address

/-- `fmt` of `impl std::fmt::Display for Address` -/
def fmt (addr : Address) : List Char :=
  let port := Nat.toDigits 10 addr.port.toNat
  if ':' ∈ addr.host then
    '[' :: addr.host ++ ']' :: ':' :: port
  else
    addr.host ++ ':' :: port

structure ReadBack (address : List Char) (addr : Address) : Prop where
  host_ne_nil : addr.host ≠ []
  parse_fmt : ∀ default_port, parseAddress addr.fmt default_port = .ok addr
  plain : address.head? ≠ some '[' →
    address.count ':' ≤ 1 ∧ addr.host = address.takeWhile (· ≠ ':')

def HasEmptyHost (address : List Char) : Prop :=
  address = ['[', ']']
    ∨ ∃ port_str, address = '[' :: ']' :: ':' :: port_str ∧ (parseU16 port_str).isSome

def HasSurplusColon (address : List Char) : Prop :=
  address.head? ≠ some '['
    ∧ ∃ host port_str, address = host ++ ':' :: port_str ∧ ':' ∈ host ∧ ':' ∉ port_str
      ∧ (parseU16 port_str).isSome

theorem Bracketed.append {host : List Char} (h : Bracketed host) (rest : List Char)
    : Bracketed (host ++ rest) := by
  rcases h with ⟨s, rfl, hmem⟩
  exact ⟨s ++ rest, rfl, List.mem_append_left rest hmem⟩

theorem bracketed_of_append {host rest : List Char} (hhost : host ≠ []) (hrest : ']' ∉ rest)
    (h : Bracketed (host ++ rest)) : Bracketed host := by
  rcases h with ⟨s, heq, hmem⟩
  cases host with
  | nil => exact absurd rfl hhost
  | cons c host =>
    rw [List.cons_append, List.cons.injEq] at heq
    rcases heq with ⟨rfl, rfl⟩
    exact ⟨host, rfl, (List.mem_append.mp hmem).resolve_right hrest⟩

theorem parse_fmt {addr : Address} (hhost : addr.host ≠ [])
    (hclosed : ':' ∈ addr.host → ']' ∉ addr.host) (hplain : ¬ Bracketed addr.host)
    (default_port : UInt16) : parseAddress addr.fmt default_port = .ok addr := by
  rw [parseAddress_eq_ok_iff]
  refine ⟨some addr.port, ?_, rfl⟩
  have hport := parseU16_toDigits addr.port
  unfold fmt
  dsimp only
  split
  . next hcolon => exact .bracketPort (hclosed hcolon) hport
  . next hcolon =>
    apply Reads.plainPort _ (Numeral.not_mem_toDigits rfl _) hhost hport
    have hrest : ']' ∉ ':' :: Nat.toDigits 10 addr.port.toNat := by
      simp [Numeral.not_mem_toDigits]
    exact fun hbracket => hplain (bracketed_of_append hhost hrest hbracket)

variable {address host port_str : List Char} {port : Option UInt16} {addr : Address}

theorem Reads.host_ne_nil (h : Reads address host port) (hempty : ¬ HasEmptyHost address)
    : host ≠ [] := by
  cases h with
  | bracket hclosed =>
    rintro rfl
    exact hempty (Or.inl rfl)
  | bracketPort hclosed hport =>
    rintro rfl
    exact hempty (Or.inr ⟨_, rfl, by rw [hport]; rfl⟩)
  | plain _ _ hhost => exact hhost
  | plainPort _ _ hhost _ => exact hhost

theorem not_bracketed_of_closed (hclosed : ']' ∉ host) : ¬ Bracketed host := by
  rintro ⟨s, rfl, hmem⟩
  exact hclosed (List.mem_cons_of_mem '[' hmem)

theorem Reads.not_bracketed (h : Reads address host port) : ¬ Bracketed host := by
  cases h with
  | bracket hclosed => exact not_bracketed_of_closed hclosed
  | bracketPort hclosed _ => exact not_bracketed_of_closed hclosed
  | plain hplain _ _ => exact hplain
  | plainPort hplain _ _ _ => exact fun hbracket => hplain (hbracket.append _)

theorem Reads.closed (h : Reads address host port) (hsurplus : ¬ HasSurplusColon address)
    (hmem : ':' ∈ host) : ']' ∉ host := by
  have hbracket := h.not_bracketed
  cases h with
  | bracket hclosed => exact hclosed
  | bracketPort hclosed _ => exact hclosed
  | plain _ hcolon _ => exact absurd hmem hcolon
  | plainPort _ hcolon hhost hport =>
    by_cases hhead : host.head? = some '['
    . rcases List.head?_eq_some_iff.mp hhead with ⟨s, rfl⟩
      intro hclose
      rcases List.mem_cons.mp hclose with heq | hclose
      . exact absurd heq (by decide)
      . exact hbracket ⟨s, rfl, hclose⟩
    . refine absurd ⟨?_, _, _, rfl, hmem, hcolon, by rw [hport]; rfl⟩ hsurplus
      rwa [List.head?_append_of_ne_nil _ hhost]

theorem Reads.plain_host (h : Reads address host port) (hsurplus : ¬ HasSurplusColon address)
    (hhead : address.head? ≠ some '[')
    : address.count ':' ≤ 1 ∧ host = address.takeWhile (· ≠ ':') := by
  have htake {host : List Char} (hcolon : ':' ∉ host) (rest : List Char)
      : (host ++ rest).takeWhile (· ≠ ':') = host ++ rest.takeWhile (· ≠ ':') := by
    apply List.takeWhile_append_of_pos
    intro c hc
    simpa using ne_of_mem_of_not_mem hc hcolon
  cases h with
  | bracket _ => exact absurd rfl hhead
  | bracketPort _ _ => exact absurd rfl hhead
  | plain _ hcolon _ =>
    have hnil := htake hcolon []
    rw [List.append_nil, List.takeWhile_nil, List.append_nil] at hnil
    exact ⟨by rw [List.count_eq_zero.mpr hcolon]; decide, hnil.symm⟩
  | plainPort _ hcolon _ hport =>
    have hhost : ':' ∉ host :=
      fun hmem => hsurplus ⟨hhead, _, _, rfl, hmem, hcolon, by rw [hport]; rfl⟩
    constructor
    . rw [List.count_append, List.count_cons_self, List.count_eq_zero.mpr hhost,
        List.count_eq_zero.mpr hcolon]
    . rw [htake hhost]
      simp

theorem reads_of_hasEmptyHost (h : HasEmptyHost address) : ∃ port, Reads address [] port := by
  rcases h with rfl | ⟨port_str, rfl, hport⟩
  . exact ⟨none, .bracket List.not_mem_nil⟩
  . rcases Option.isSome_iff_exists.mp hport with ⟨port, hport⟩
    exact ⟨some port, .bracketPort List.not_mem_nil hport⟩

theorem reads_of_hasSurplusColon (h : HasSurplusColon address)
    : ∃ host port, Reads address host port ∧ 1 < address.count ':' := by
  rcases h with ⟨hhead, host, port_str, rfl, hmem, hcolon, hport⟩
  rcases Option.isSome_iff_exists.mp hport with ⟨port, hport⟩
  refine ⟨host, some port, .plainPort ?_ hcolon (List.ne_nil_of_mem hmem) hport, ?_⟩
  . rintro ⟨s, heq, _⟩
    rw [heq] at hhead
    exact hhead rfl
  . have hpos := List.count_pos_iff.mpr hmem
    rw [List.count_append, List.count_cons_self]
    omega

/-- Two kinds of strings are accepted that should not be, and everything else is read back. -/
theorem readBack_iff (address : List Char)
    : (∀ default_port addr, parseAddress address default_port = .ok addr → ReadBack address addr)
        ↔ ¬ HasEmptyHost address ∧ ¬ HasSurplusColon address := by
  constructor
  . intro h
    constructor
    . intro hempty
      rcases reads_of_hasEmptyHost hempty with ⟨port, hreads⟩
      exact (h 0 _ hreads.parseAddress_eq).host_ne_nil rfl
    . intro hsurplus
      rcases reads_of_hasSurplusColon hsurplus with ⟨host, port, hreads, hcount⟩
      have hplain := (h 0 _ hreads.parseAddress_eq).plain hsurplus.1
      exact absurd hplain.1 (Nat.not_le_of_lt hcount)
  . rintro ⟨hempty, hsurplus⟩ default_port addr hparse
    rcases reads_of_parseAddress hparse with ⟨port, hreads⟩
    have hhost := hreads.host_ne_nil hempty
    constructor
    . exact hhost
    . exact parse_fmt hhost (hreads.closed hsurplus) hreads.not_bracketed
    . exact hreads.plain_host hsurplus

/-- The first two of three parts are taken for the host, and nothing in a bracket for a host. -/
theorem not_readBack_threeParts
    : parseAddress "example.org:12345:25565".toList 25565
          = .ok { host := "example.org:12345".toList, port := 25565 }
        ∧ parseAddress "[]".toList 25565 = .ok { host := [], port := 25565 }
        ∧ ¬ ∀ address default_port addr, parseAddress address default_port = .ok addr →
          ReadBack address addr := by
  have hparse : parseAddress "example.org:12345:25565".toList 25565
      = .ok { host := "example.org:12345".toList, port := 25565 } := by
    decide
  refine ⟨hparse, by decide, fun h => ?_⟩
  have hplain := (h _ _ _ hparse).plain (by decide)
  exact absurd hplain.1 (by decide)

end Address

end Rust

end McStatus
