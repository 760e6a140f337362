import McStatus.Library.Text

/-!
This module contains decoding of UTF-8 that puts U+FFFD in the place of what is invalid.
-/

namespace McStatus

namespace Utf8

def isContinuation (b : UInt8) : Bool :=
  0x80 ≤ b && b ≤ 0xBF

def isSecond (first second : UInt8) : Bool :=
  if first = 0xE0 then 0xA0 ≤ second && second ≤ 0xBF
  else if first = 0xED then 0x80 ≤ second && second ≤ 0x9F
  else if first = 0xF0 then 0x90 ≤ second && second ≤ 0xBF
  else if first = 0xF4 then 0x80 ≤ second && second ≤ 0x8F
  else isContinuation second

/-- How many bytes of an invalid front are replaced at once: as far as a character could go on. -/
def invalidLength (bs : List UInt8) : Nat :=
  match bs with
  | first :: second :: third :: _ =>
    if 0xE0 ≤ first ∧ first ≤ 0xEF ∧ isSecond first second then
      2
    else if 0xF0 ≤ first ∧ first ≤ 0xF4 ∧ isSecond first second then
      if isContinuation third then 3 else 2
    else
      1
  | [first, second] => if 0xE0 ≤ first ∧ first ≤ 0xF4 ∧ isSecond first second then 2 else 1
  | _ => 1

def firstChar? (bs : List UInt8) : Option (Char × Nat) :=
  [1, 2, 3, 4].findSome? fun n =>
    match decode? (bs.take n) with
    | some [c] => some (c, n)
    | _ => none

/-- What stands at the front of the bytes, and how many of them it takes. -/
def firstLossy (bs : List UInt8) : Char × Nat :=
  (firstChar? bs).getD (Char.ofNat 0xFFFD, invalidLength bs)

def lossy.go (skip : Nat) (bs : List UInt8) : List Char :=
  match bs with
  | [] => []
  | b :: bs =>
    match skip with
    | 0 => (firstLossy (b :: bs)).1 :: go ((firstLossy (b :: bs)).2 - 1) bs
    | skip + 1 => go skip bs

def lossy (bs : List UInt8) : List Char :=
  lossy.go 0 bs

theorem decode?_singleton {b : UInt8} (h : b < 0x80) : decode? [b] = some [Latin1.char b] := by
  have hdecode := @Latin1.utf8_encode_decode [b] (by simpa using h)
  rw [← hdecode, decode?_encode]
  rfl

theorem firstLossy_ascii {b : UInt8} (h : b < 0x80) (bs : List UInt8)
    : firstLossy (b :: bs) = (Latin1.char b, 1) := by
  have htake : (b :: bs).take 1 = [b] := rfl
  rw [firstLossy, firstChar?, List.findSome?_cons, htake, decode?_singleton h]
  rfl

theorem firstLossy_of_ge {b : UInt8} (h : 0x80 ≤ b) (bs : List UInt8)
    : 0x80 ≤ (firstLossy (b :: bs)).1.toNat := by
  unfold firstLossy
  cases hfirst : firstChar? (b :: bs) with
  | none =>
    have hreplacement : 0x80 ≤ (Char.ofNat 0xFFFD).toNat := by decide
    exact hreplacement
  | some first =>
    rw [Option.getD_some]
    rcases List.exists_of_findSome?_eq_some hfirst with ⟨n, hn, hchar⟩
    split at hchar
    . next c hdecode =>
      cases hchar
      have hencode := encode_of_decode? hdecode
      by_contra hascii
      have hlt : c.toNat < 0x80 := Nat.lt_of_not_le hascii
      -- the character would be encoded as a byte of ASCII, which is not `b`
      have hc : UInt8.ofNat c.toNat < 0x80 := by
        rw [UInt8.lt_iff_toNat_lt, UInt8.toNat_ofNat', Nat.mod_eq_of_lt (by omega)]
        exact hlt
      have hchar : Latin1.char (UInt8.ofNat c.toNat) = c := by
        rw [Latin1.char, UInt8.toNat_ofNat', Nat.mod_eq_of_lt (by omega), Char.ofNat_toNat]
      have hone : encode [c] = [UInt8.ofNat c.toNat] := by
        have hdecode := @Latin1.utf8_encode_decode [UInt8.ofNat c.toNat] (by simpa using hc)
        rwa [Latin1.decode, List.map_singleton, hchar] at hdecode
      cases n with
      | zero => simp at hn
      | succ n =>
        rw [hone, List.take_succ_cons, List.cons.injEq] at hencode
        rw [← hencode.1] at h
        exact absurd hc (UInt8.not_lt.mpr h)
    . cases hchar

theorem lossy_ascii_cons {b : UInt8} (h : b < 0x80) (bs : List UInt8)
    : lossy (b :: bs) = Latin1.char b :: lossy bs := by
  rw [lossy, lossy.go, firstLossy_ascii h]
  rfl

theorem lossy_ascii {bs : List UInt8} (h : ∀ b ∈ bs, b < 0x80) : lossy bs = Latin1.decode bs := by
  induction bs with
  | nil => rfl
  | cons b bs ih =>
    rw [lossy_ascii_cons (h b List.mem_cons_self), ih fun c hc => h c (List.mem_cons_of_mem b hc)]
    rfl

theorem exists_mem_lossy_ge {bs : List UInt8} (h : ∃ b ∈ bs, 0x80 ≤ b)
    : ∃ c ∈ lossy bs, 0x80 ≤ c.toNat := by
  induction bs with
  | nil => simp at h
  | cons b bs ih =>
    by_cases hb : b < 0x80
    . rw [lossy_ascii_cons hb]
      have hrest : ∃ b ∈ bs, 0x80 ≤ b := by
        rcases h with ⟨d, hd, hge⟩
        rcases List.mem_cons.mp hd with rfl | hd
        . exact absurd hb (UInt8.not_lt.mpr hge)
        . exact ⟨d, hd, hge⟩
      rcases ih hrest with ⟨c, hc, hge⟩
      exact ⟨c, List.mem_cons_of_mem _ hc, hge⟩
    . refine ⟨_, ?_, firstLossy_of_ge (UInt8.not_lt.mp hb) bs⟩
      rw [lossy, lossy.go]
      exact List.mem_cons_self

theorem encode_cons (c : Char) (s : List Char)
    : encode (c :: s) = String.utf8EncodeChar c ++ encode s :=
  List.flatMap_cons

theorem encode_singleton (c : Char) : encode [c] = String.utf8EncodeChar c := by
  rw [encode_cons, encode, List.flatMap_nil, List.append_nil]

theorem eq_of_utf8EncodeChar_append {c d : Char} {bs cs : List UInt8}
    (h : String.utf8EncodeChar c ++ bs = String.utf8EncodeChar d ++ cs) : c = d := by
  have hc := @ByteArray.utf8DecodeChar?_utf8EncodeChar_append bs.toByteArray c
  have hd := @ByteArray.utf8DecodeChar?_utf8EncodeChar_append cs.toByteArray d
  rw [← List.toByteArray_append] at hc hd
  rw [h, hd] at hc
  exact (Option.some.inj hc).symm

theorem take_encode_cons (c : Char) (s : List Char)
    : (encode (c :: s)).take c.utf8Size = encode [c] := by
  rw [encode_cons, encode_singleton, List.take_left' (String.length_utf8EncodeChar c)]

theorem decode?_take_encode_cons {c d : Char} {s : List Char} {n : Nat} (h : n < c.utf8Size)
    : decode? ((encode (c :: s)).take n) ≠ some [d] := by
  intro hdecode
  have hfront := encode_of_decode? hdecode
  have hlength := congrArg List.length hfront
  rw [length_encode, List.length_take_of_le] at hlength
  . have hsplit : encode (c :: s) = encode [d] ++ (encode (c :: s)).drop n := by
      rw [hfront, List.take_append_drop]
    rw [encode_cons, encode_singleton] at hsplit
    rw [utf8Len_cons, utf8Len_nil, ← eq_of_utf8EncodeChar_append hsplit] at hlength
    omega
  . rw [length_encode, utf8Len_cons]
    omega

theorem firstChar?_encode_cons (c : Char) (s : List Char)
    : firstChar? (encode (c :: s)) = some (c, c.utf8Size) := by
  have hsplit : ∃ front behind, [1, 2, 3, 4] = front ++ c.utf8Size :: behind
      ∧ ∀ n ∈ front, n < c.utf8Size := by
    have hpos := c.utf8Size_pos
    have hle := c.utf8Size_le_four
    have hsize : c.utf8Size = 1 ∨ c.utf8Size = 2 ∨ c.utf8Size = 3 ∨ c.utf8Size = 4 := by omega
    rcases hsize with hsize | hsize | hsize | hsize
    all_goals rw [hsize]
    . exact ⟨[], _, rfl, by simp⟩
    . exact ⟨[1], _, rfl, by simp⟩
    . exact ⟨[1, 2], _, rfl, by simp⟩
    . exact ⟨[1, 2, 3], _, rfl, by simp⟩
  rcases hsplit with ⟨front, behind, heq, hfront⟩
  rw [firstChar?, List.findSome?_eq_some_iff]
  refine ⟨front, _, behind, heq, ?_, fun n hn => ?_⟩
  . rw [take_encode_cons, decode?_encode]
  . split
    . next d hdecode => exact absurd hdecode (decode?_take_encode_cons (hfront n hn))
    . rfl

theorem lossy.go_append (skipped bs : List UInt8)
    : go skipped.length (skipped ++ bs) = go 0 bs := by
  induction skipped with
  | nil => rfl
  | cons b skipped ih =>
    rw [List.length_cons, List.cons_append, go]
    exact ih

theorem lossy_encode (s : List Char) : lossy (encode s) = s := by
  induction s with
  | nil => rfl
  | cons c s ih =>
    have hfirst : firstLossy (encode (c :: s)) = (c, c.utf8Size) := by
      rw [firstLossy, firstChar?_encode_cons, Option.getD_some]
    have hlength := String.length_utf8EncodeChar c
    rw [encode_cons] at hfirst ⊢
    cases hbytes : String.utf8EncodeChar c with
    | nil => exact absurd hbytes (by simp)
    | cons b rest =>
      rw [hbytes, List.cons_append] at hfirst
      rw [hbytes, List.length_cons] at hlength
      rw [List.cons_append, lossy, lossy.go, hfirst]
      dsimp only
      rw [← hlength, Nat.add_sub_cancel, lossy.go_append]
      exact congrArg (c :: ·) ih

end Utf8

end McStatus
