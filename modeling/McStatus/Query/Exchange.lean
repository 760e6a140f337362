import McStatus.Python.Query.Told
import McStatus.Rust.Query.Told
import McStatus.Rust.Query.Tries

/-!
This module compares the two query clients: what they ask a server for, which of its tokens they can
read, and what they make of what it tells about itself.
-/

namespace McStatus

open Reader Fallible

namespace Query

section Tokens

open Python Python.QueryClient

theorem parseI32_eq_some {s : List Char} {n : Int32} (h : Rust.parseI32 s = some n)
    : ∃ k, Numeral.nat? 10 (Rust.splitSign s).2 = some k
        ∧ n.toInt = if (Rust.splitSign s).1 then -(k : Int) else k := by
  rw [Rust.parseI32] at h
  dsimp only at h
  split at h
  . cases h
  . next hne =>
    rcases Option.bind_eq_some_iff.mp h with ⟨k, hk, hrange⟩
    rw [Rust.decimal?_eq_readFrom] at hk
    refine ⟨k, Numeral.nat?_eq_some_iff.mpr ⟨by simpa using hne, hk⟩, ?_⟩
    generalize (if (Rust.splitSign s).1 = true then -(k : Int) else k) = value at hrange ⊢
    by_cases hvalid : -2 ^ 31 ≤ value ∧ value < 2 ^ 31
    . rw [if_pos hvalid, Option.some.injEq] at hrange
      rw [← hrange, Int32.toInt_ofInt_of_le hvalid.1 hvalid.2]
    . rw [if_neg hvalid] at hrange
      cases hrange

theorem intBase10_of_parseI32 {s : List Char} {n : Int32} (h : Rust.parseI32 s = some n)
    (hfew : s.length ≤ maxStrDigits) : intBase10 s = .ok n.toInt := by
  rcases parseI32_eq_some h with ⟨k, hread, hvalue⟩
  rw [hvalue]
  clear hvalue h
  unfold Rust.splitSign at hread ⊢
  split at hread
  . exact intBase10_sign (Or.inl rfl) hread (Nat.le_of_succ_le hfew)
  . exact intBase10_sign (Or.inr rfl) hread (Nat.le_of_succ_le hfew)
  . exact (intBase10_of_nat? hread).trans (if_neg (Nat.not_lt.mpr hfew))

theorem readAscii_of_nulFree {b : Buffer} (h : 0 ∉ b.unreadView)
    : ∃ e b', BaseSyncReader.readAscii b = .error e b' := by
  have hconsumes := BaseSyncReader.consumes_readAscii (σ := Buffer) h
  have hruns := BaseSyncReader.delimited_readAscii.runsOut hconsumes
    (Buffer.unreadView_ofBytes (b.unreadView ++ [0]))
  have hpart : b.unreadView <+: b.unreadView ++ [0] := List.prefix_append _ _
  have hne : b.unreadView ≠ b.unreadView ++ [0] := by simp
  rcases hruns b hpart hne with ⟨e, b', hread, -⟩
  exact ⟨e, b', hread⟩

theorem zero_not_mem_nulText (s : List UInt8) : 0 ∉ nulText s := by
  intro hmem
  have hne := List.mem_takeWhile_imp hmem
  cases hne

theorem parseChallenge_of_challenge? {data : List UInt8} {n : Int32}
    (h : Rust.QueryClient.challenge? data = some n) (hfew : data.length ≤ maxStrDigits)
    : if 0 ∈ data.drop 5 then parseChallenge data = .ok n.toInt
      else ∃ e, parseChallenge data = .error e := by
  have hlong : 5 ≤ data.length := by
    by_contra hshort
    rw [Rust.QueryClient.challenge?, List.drop_of_length_le (by omega)] at h
    cases h
  rcases @packetOf_append (data.take 5) (by rw [List.length_take]; omega) (data.drop 5) with
    ⟨packet, hpacket, hview⟩
  rw [List.take_append_drop] at hpacket
  rw [parseChallenge, hpacket, ok_bind, onPacket]
  rw [Rust.QueryClient.challenge?] at h
  split
  . next hnul =>
    rcases nulText_cases (data.drop 5) with hall | ⟨rest, hrest⟩
    . rw [hall] at hnul
      exact absurd hnul (zero_not_mem_nulText _)
    . have hsplit : packet.unreadView = (nulText (data.drop 5) ++ [0]) ++ rest := by
        rw [hview, List.append_assoc]
        exact hrest
      rcases BaseSyncReader.consumes_readAscii (σ := Buffer) (zero_not_mem_nulText (data.drop 5))
        packet rest hsplit with ⟨b', hread, -⟩
      rw [hread]
      refine intBase10_of_parseI32 h ?_
      have hlength := congrArg List.length hrest
      rw [List.length_append, List.length_drop] at hlength
      rw [Latin1.length_decode]
      omega
  . next hnul =>
    rcases readAscii_of_nulFree (hview.symm ▸ hnul) with ⟨e, b', hread⟩
    rw [hread]
    exact ⟨e, rfl⟩

end Tokens

theorem sessionBytes_agree (raw : Int32)
    : Python.QueryClient.sessionBytes raw.toUInt32.toNat = Rust.QueryClient.sessionBytes raw := by
  rw [Rust.QueryClient.sessionBytes, Rust.toBeBytes_eq, Rust.toNat_toUInt32,
    Rust.QueryClient.generateSessionId, Int32.toUInt32_and, UInt32.toNat_and]
  rfl

open Python.QueryClient in
/-- A number out of range stops Rust at once, and Python when it is to be sent back. -/
theorem requests_agree
    : (∀ raw : Int32, Python.packetOf (createHandshakePacket raw.toUInt32.toNat)
        = .ok (Rust.QueryClient.challengePacket (Rust.QueryClient.generateSessionId raw)))
      ∧ (∀ raw challenge : Int32,
        Python.packetOf (createPacket raw.toUInt32.toNat challenge.toInt)
          = .ok (Rust.QueryClient.queryPacket (Rust.QueryClient.generateSessionId raw) challenge))
      ∧ (∀ data : List UInt8, data.length ≤ 4096 → ∀ n,
        Rust.QueryClient.challenge? data = some n →
          if 0 ∈ data.drop 5 then parseChallenge data = .ok n.toInt
          else ∃ e, parseChallenge data = .error e)
      ∧ ∀ (header : List UInt8) (n : Int), header.length = 5 →
        (Numeral.decimal n).length ≤ 4090 →
        let data := header ++ (Latin1.encode (Numeral.decimal n) ++ [0])
        parseChallenge data = .ok n
          ∧ Rust.QueryClient.challenge? data
            = (if TwosComplement.InRange 32 n then some (Int32.ofInt n) else none)
          ∧ (¬ TwosComplement.InRange 32 n →
            ∀ raw, Python.packetOf (createPacket raw n) = .error .structError) := by
  refine ⟨fun raw => ?_, fun raw challenge => ?_, fun data hlength n hn => ?_, ?_⟩
  . rw [packetOf_createHandshakePacket, sessionBytes_agree, Rust.QueryClient.challengePacket_eq]
  . have hvalid : TwosComplement.InRange 32 challenge.toInt :=
      ⟨challenge.le_toInt, challenge.toInt_lt⟩
    rw [packetOf_createPacket _ hvalid, sessionBytes_agree, Rust.QueryClient.queryPacket_eq,
      Rust.toBeBytes_eq]
  . refine parseChallenge_of_challenge? hn (Nat.le_trans hlength ?_)
    rw [Python.maxStrDigits]
    omega
  . intro header n hheader hlength data
    have hfew : (Nat.toDigits 10 n.natAbs).length ≤ Python.maxStrDigits := by
      rw [Numeral.decimal] at hlength
      rw [Python.maxStrDigits]
      split at hlength
      . rw [List.length_cons] at hlength
        omega
      . omega
    refine ⟨parseChallenge_decimal hheader hfew, ?_,
      fun hrange raw => packetOf_createPacket_of_not_inRange raw hrange⟩
    rw [Rust.QueryClient.challenge?_decimal hheader]
    split
    . next hrange => exact Rust.parseI32_decimal hrange
    . next hrange => exact Rust.parseI32_of_not_inRange hrange

end Query

end McStatus
