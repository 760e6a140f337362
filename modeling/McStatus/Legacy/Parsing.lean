import McStatus.Python.Bedrock.Reply
import McStatus.Python.Legacy.Impl
import McStatus.Rust.Legacy.RoundTrip

/-!
This module compares what both clients make of the bytes of a kick: where Python returns a response,
so does Rust.
-/

namespace McStatus

open Fallible
open Utf16 (isBmp)

namespace Legacy

open Rust.LegacyClient (AllBmp filter_isBmp_eq_iff)

def NumberKept (rust : UInt32) (python : Int) : Prop :=
  (rust.toNat : Int) = python ∨ rust = 0

structure Kept (text : List Char) (rust : Rust.LegacyStatusResponse)
    (python : Python.LegacyStatusResponse) : Prop where
  name : rust.version.name = python.version.name.filter isBmp
  motd : ∃ motd, python.motd.raw = .str motd ∧ rust.motd.raw = .string (motd.filter isBmp)
  protocol : AllBmp text → NumberKept rust.version.protocol python.version.protocol
  online : AllBmp text → NumberKept rust.players.online python.players.online
  max : AllBmp text → NumberKept rust.players.max python.players.max

theorem nat?_of_parseU32 {s : List Char} {n : UInt32} (h : Rust.parseU32 s = some n)
    : Numeral.nat? 10 s = some n.toNat
        ∨ ∃ digits, s = '+' :: digits ∧ Numeral.nat? 10 digits = some n.toNat := by
  have hread : ∀ digits : List Char,
      (if digits.isEmpty = true then
        none
      else
        (Rust.decimal? digits).filter (· < UInt32.size)).map UInt32.ofNat = some n →
      Numeral.nat? 10 digits = some n.toNat := by
    intro digits h
    split at h
    . cases h
    . next hne =>
      rcases Option.map_eq_some_iff.mp h with ⟨m, hfilter, rfl⟩
      rcases Option.filter_eq_some_iff.mp hfilter with ⟨hdecimal, hlt⟩
      rw [Rust.decimal?_eq_readFrom] at hdecimal
      rw [UInt32.toNat_ofNat_of_lt' (of_decide_eq_true hlt)]
      exact Numeral.nat?_eq_some_iff.mpr ⟨by simpa using hne, hdecimal⟩
  unfold Rust.parseU32 Rust.parseUnsigned at h
  split at h
  . next digits => exact Or.inr ⟨digits, rfl, hread digits h⟩
  . exact Or.inl (hread s h)

theorem intBase10_plus {digits : List Char} {n : Nat} (h : Numeral.nat? 10 digits = some n)
    : Python.intBase10 ('+' :: digits) = if Python.maxStrDigits < digits.length then
        .error (.valueError (.intDigits digits.length))
      else
        .ok n := by
  rcases Numeral.nat?_eq_some_iff.mp h with ⟨hne, hread⟩
  have hdigit := Numeral.isDigit_of_readFrom hread
  have hstrip : strip Python.isIntSpace ('+' :: digits) = '+' :: digits := by
    apply strip_eq_self
    . intro c hc
      rw [List.head?_cons, Option.some.injEq] at hc
      subst hc
      decide
    . intro c hc
      rw [List.getLast?_cons_of_ne_nil hne] at hc
      exact Python.isIntSpace_of_isDigit (hdigit c (List.mem_of_mem_getLast? hc))
  have hgroups : digits.splitOn '_' = [digits] := by
    apply List.splitOn_eq_singleton
    exact fun hmem => absurd (hdigit _ hmem) (by decide)
  rcases Python.mapM_decimalDigit? hread with ⟨values, hmap, hlength, hfold⟩
  rw [Python.intBase10, hstrip]
  simp [hgroups, hmap, hlength, hfold, hne]

theorem numberKept {s : List Char} {value : Int} (h : Python.intBase10 s = .ok value)
    : NumberKept (Rust.LegacyClient.parseOrZero s) value := by
  rw [Rust.LegacyClient.parseOrZero]
  cases hparse : Rust.parseU32 s with
  | none => exact Or.inr rfl
  | some n =>
    rcases nat?_of_parseU32 hparse with hnat | ⟨digits, rfl, hnat⟩
    . rw [Python.intBase10_of_nat? hnat] at h
      split at h
      . cases h
      . cases h
        exact Or.inl rfl
    . rw [intBase10_plus hnat] at h
      split at h
      . cases h
      . cases h
        exact Or.inl rfl

structure FieldsOf (fields : List (List Char)) (response : Python.LegacyStatusResponse) where
  protocol : List Char
  motd : List Char
  online : List Char
  max : List Char
  more : List (List Char)
  fields_eq : fields = protocol :: response.version.name :: motd :: online :: max :: more
  protocol_eq : Python.intBase10 protocol = .ok response.version.protocol
  motd_eq : response.motd.raw = .str motd
  online_eq : Python.intBase10 online = .ok response.players.online
  max_eq : Python.intBase10 max = .ok response.players.max

theorem fieldsOf_build {fields : List (List Char)} {latency : Rat}
    {response : Python.LegacyStatusResponse}
    (h : Python.LegacyStatusResponse.build fields latency = .ok response)
    : Nonempty (FieldsOf fields response) := by
  rcases bind_eq_ok.mp h with ⟨field3, hfield3, h⟩
  rcases bind_eq_ok.mp h with ⟨online, honline, h⟩
  rcases bind_eq_ok.mp h with ⟨field4, hfield4, h⟩
  rcases bind_eq_ok.mp h with ⟨max, hmax, h⟩
  rcases bind_eq_ok.mp h with ⟨name, hname, h⟩
  rcases bind_eq_ok.mp h with ⟨field0, hfield0, h⟩
  rcases bind_eq_ok.mp h with ⟨protocol, hprotocol, h⟩
  rcases bind_eq_ok.mp h with ⟨field2, hfield2, h⟩
  rcases bind_eq_ok.mp h with ⟨motd, hmotd, h⟩
  cases hmotd
  cases h
  match fields with
  | protocol :: name' :: motd :: online :: max :: more =>
    cases hfield0
    cases hname
    cases hfield2
    cases hfield3
    cases hfield4
    exact ⟨⟨_, _, _, _, more, rfl, hprotocol, rfl, honline, hmax⟩⟩
  | [] | [_] | [_, _] | [_, _, _] | [_, _, _, _] => cases hfield4

theorem allBmp_of_mem_splitOn {s part : List Char} {sep : Char} (h : AllBmp s)
    (hpart : part ∈ s.splitOn sep) : AllBmp part :=
  fun c hc => h c (mem_of_mem_splitOn hpart hc)

theorem numberKept_filter {s field : List Char} {value : Int}
    (hfield : AllBmp s → AllBmp field) (h : Python.intBase10 field = .ok value) (hs : AllBmp s)
    : NumberKept (Rust.LegacyClient.parseOrZero (field.filter isBmp)) value := by
  rw [filter_isBmp_eq_iff.mpr (hfield hs)]
  exact numberKept h

section Parse

variable {s : List Char} {response : Python.LegacyStatusResponse} {fields : List (List Char)}
variable {latency : Rat}

theorem exists_kept_of_current (hsplit : s.splitOn '\x00' = "§1".toList :: fields)
    (h : FieldsOf fields response) (latency_ms : Float)
    : ∃ rust, Rust.LegacyClient.parseResponse (Utf16.encode s) latency_ms = .ok rust
        ∧ rust.latency = latency_ms ∧ Kept s rust response := by
  rcases h with ⟨protocol, motd, online, max, more, rfl, hprotocol, hmotd, honline, hmax⟩
  have hmark : "§1".toList.filter isBmp = "§1".toList := by decide
  have hparts := @splitOn_filter _ _ '\x00' isBmp (by decide) s
  rw [hsplit] at hparts
  simp only [List.map_cons, hmark] at hparts
  have hbmp : ∀ part ∈ s.splitOn '\x00', AllBmp s → AllBmp part :=
    fun part hpart hs => allBmp_of_mem_splitOn hs hpart
  rw [hsplit] at hbmp
  simp only [List.forall_mem_cons] at hbmp
  rcases hbmp with ⟨-, hprotocol', -, -, honline', hmax', -⟩
  rw [Rust.LegacyClient.parseResponse, Rust.LegacyClient.decodeUtf16be_encode]
  dsimp only
  rw [hparts]
  simp only [List.length_cons, Rust.index, List.getElem?_cons_zero, List.getElem?_cons_succ]
  exact ⟨_, rfl, rfl, rfl, ⟨motd, hmotd, rfl⟩, numberKept_filter hprotocol' hprotocol,
    numberKept_filter honline' honline, numberKept_filter hmax' hmax⟩

theorem exists_kept_of_old {first motd online max : List Char} {more : List (List Char)}
    (hsplit : s.splitOn '\x00' = first :: more) (hfirst : first.splitOn '§' = [motd, online, max])
    (h : FieldsOf ["-1".toList, "<1.4".toList, motd, online, max] response) (latency_ms : Float)
    : ∃ rust, Rust.LegacyClient.parseResponse (Utf16.encode s) latency_ms = .ok rust
        ∧ rust.latency = latency_ms ∧ Kept s rust response := by
  rcases h with ⟨protocol, motd', online', max', more', hfields, hprotocol, hmotd, honline, hmax⟩
  simp only [List.cons.injEq] at hfields
  rcases hfields with ⟨rfl, hname, rfl, rfl, rfl, rfl⟩
  have hparts := @splitOn_filter _ _ '\x00' isBmp (by decide) s
  rw [hsplit, List.map_cons] at hparts
  have hparts' := @splitOn_filter _ _ '§' isBmp (by decide) first
  rw [hfirst] at hparts'
  simp only [List.map_cons, List.map_nil] at hparts'
  have hbmp : AllBmp s → AllBmp first := by
    intro hs
    refine @allBmp_of_mem_splitOn _ _ '\x00' hs ?_
    rw [hsplit]
    exact List.mem_cons_self
  have hbmp' : ∀ part ∈ first.splitOn '§', AllBmp s → AllBmp part :=
    fun part hpart hs => allBmp_of_mem_splitOn (hbmp hs) hpart
  rw [hfirst] at hbmp'
  simp only [List.forall_mem_cons] at hbmp'
  rcases hbmp' with ⟨-, honline', hmax', -⟩
  -- there is one more `§` in it than in the mark of the other format
  have hmark : first.filter isBmp ≠ "§1".toList := by
    intro heq
    rw [heq] at hparts'
    have hlength : ("§1".toList.splitOn '§').length = 2 := by decide
    rw [hparts'] at hlength
    cases hlength
  have hname' : "<1.4".toList = response.version.name.filter isBmp := by
    rw [← hname]
    decide
  rw [Rust.LegacyClient.parseResponse, Rust.LegacyClient.decodeUtf16be_encode]
  dsimp only
  rw [hparts]
  simp only [List.length_cons, Rust.index, List.getElem?_cons_zero, pure_bind, hmark, if_false]
  rw [hparts']
  exact ⟨_, rfl, rfl, hname', ⟨motd, hmotd, rfl⟩, fun _ => Or.inr rfl,
    numberKept_filter honline' honline, numberKept_filter hmax' hmax⟩

theorem exists_kept {data : List UInt8}
    (h : Python.LegacyClient.parseResponse data latency = .ok response) (latency_ms : Float)
    : ∃ s rust, data = Utf16.encode s
        ∧ Rust.LegacyClient.parseResponse data latency_ms = .ok rust
        ∧ rust.latency = latency_ms ∧ Kept s rust response := by
  rcases bind_eq_ok.mp h with ⟨s, hdecode, hrest⟩
  rcases bind_eq_ok.mp hrest with ⟨fields, hfields, hbuild⟩
  rcases bind_eq_ok.mp hfields with ⟨first, hfirst, hfields⟩
  have hdecode := mapError_eq_ok.mp hdecode
  have hdata : data = Utf16.encode s := by
    rw [Python.decodeUtf16be] at hdecode
    split at hdecode
    . next hsome =>
      cases hdecode
      exact (Utf16.encode_of_decode? hsome).symm
    . cases hdecode
  subst hdata
  rcases fieldsOf_build (mapError_eq_ok.mp hbuild) with ⟨hbuilt⟩
  rcases List.exists_cons_of_ne_nil (List.splitOn_ne_nil '\x00' s) with ⟨head, more, hsplit⟩
  rw [hsplit] at hfirst hfields
  cases hfirst
  split at hfields
  . dsimp only at hfields
    split at hfields
    . cases hfields
    . next hlength =>
      cases hfields
      have hthree : (first.splitOn '§').length = 3 := by
        simp only [List.length_cons, ne_eq, not_not] at hlength
        omega
      rcases List.length_eq_three.mp hthree with ⟨motd, online, max, hparts⟩
      rw [hparts] at hbuilt
      rcases exists_kept_of_old hsplit hparts hbuilt latency_ms with ⟨rust, hkept⟩
      exact ⟨s, rust, rfl, hkept⟩
  . next hmark =>
    cases hfields
    rw [not_not.mp hmark] at hsplit
    rcases exists_kept_of_current hsplit hbuilt latency_ms with ⟨rust, hkept⟩
    exact ⟨s, rust, rfl, hkept⟩

end Parse

end Legacy

end McStatus
