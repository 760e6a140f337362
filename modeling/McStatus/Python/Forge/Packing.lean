import McStatus.Python.Forge.Impl

/-!
This module contains the string that carries binary data fifteen bits to a character, and shows
that the repacking loop of `read_optimized_buffer` gets the data back.
-/

namespace McStatus

open Reader

namespace Python

open BaseSyncReader

def littleEndian (bytes : List UInt8) : Nat :=
  bytes.foldr (fun b n => b.toNat + 256 * n) 0

def fifteenBits (n j : Nat) : Char :=
  Char.ofNat ((n >>> (15 * j)) % 2 ^ 15)

/-- Two characters for the length, and then as many as the bits of the data need. -/
def packChars (bytes : List UInt8) : List Char :=
  (List.range 2).map (fifteenBits bytes.length)
    ++ (List.range ((8 * bytes.length + 14) / 15)).map (fifteenBits (littleEndian bytes))

theorem toNat_fifteenBits (n j : Nat) : (fifteenBits n j).toNat = n / 2 ^ (15 * j) % 2 ^ 15 := by
  have hlt : n / 2 ^ (15 * j) % 2 ^ 15 < 2 ^ 15 := Nat.mod_lt _ (by decide)
  have hvalid : (n / 2 ^ (15 * j) % 2 ^ 15).isValidChar := Or.inl (by omega)
  rw [fifteenBits, Nat.shiftRight_eq_div_pow, Char.ofNat, dif_pos hvalid]
  rfl

theorem toNat_fifteenBits_lt (n j : Nat) : (fifteenBits n j).toNat < 2 ^ 15 := by
  rw [toNat_fifteenBits]
  exact Nat.mod_lt _ (by decide)

theorem littleEndian_div_mod {bytes : List UInt8} {i : Nat} (h : i < bytes.length)
    : littleEndian bytes / 2 ^ (8 * i) % 256 = bytes[i].toNat := by
  induction bytes generalizing i with
  | nil => simp at h
  | cons b bytes ih =>
    have hb := b.toNat_lt
    have hcons : littleEndian (b :: bytes) = b.toNat + 256 * littleEndian bytes := rfl
    rw [hcons]
    cases i with
    | zero =>
      simp only [Nat.mul_zero, Nat.pow_zero, Nat.div_one, List.getElem_cons_zero]
      omega
    | succ i =>
      have hpow : 2 ^ (8 * (i + 1)) = 256 * 2 ^ (8 * i) := by
        rw [Nat.mul_succ, Nat.pow_add, Nat.mul_comm]
      have hdiv : (b.toNat + 256 * littleEndian bytes) / 256 = littleEndian bytes := by omega
      rw [hpow, ← Nat.div_div_eq_div_mul, hdiv, List.getElem_cons_succ]
      exact ih (by simpa using h)

theorem length_packChars (bytes : List UInt8)
    : (packChars bytes).length = 2 + (8 * bytes.length + 14) / 15 := by
  simp [packChars]

theorem getElem?_packChars {bytes : List UInt8} {j : Nat} (h : j < (8 * bytes.length + 14) / 15)
    : (packChars bytes)[2 + j]? = some (fifteenBits (littleEndian bytes) j) := by
  have hlen : ((List.range 2).map (fifteenBits bytes.length)).length = 2 := rfl
  rw [packChars, List.getElem?_append_right (by omega), hlen, Nat.add_sub_cancel_left,
    List.getElem?_map, List.getElem?_range h, Option.map_some]

theorem unpack_short {n : Nat} (h : n < 2 ^ 15)
    : unpack .short (BigEndian.encode 2 n) = .ok (n : Int) := by
  have hbytes : BigEndian.encode 2 n = [UInt8.ofNat (n / 256 % 256), UInt8.ofNat (n % 256)] := rfl
  have hvalue : BigEndian.decode (BigEndian.encode 2 n) = n := by
    simp only [hbytes, BigEndian.decode, List.foldl_cons, List.foldl_nil, UInt8.toNat_ofNat']
    omega
  have hsigned : unpackSigned (BigEndian.encode 2 n) = n := by
    simp only [unpackSigned, hvalue, BigEndian.length_encode]
    rw [if_pos (by omega)]
  have hsize : ¬ ((BigEndian.encode 2 n).length ≠ StructFormat.short.standardSize) := by
    rw [BigEndian.length_encode]
    decide
  rw [unpack, if_neg hsize, hsigned]

theorem readValue_short {sb : StringBuffer} {c : Char} (hreceived : sb.received = [])
    (hc : sb.text[sb.tell]? = some c) (hlt : c.toNat < 2 ^ 15)
    : readValue .short sb = .ok (c.toNat : Int) { sb with tell := sb.tell + 1 } := by
  have htake : StringBuffer.takeReceived 2 sb = .ok [] sb := by
    rcases sb with ⟨text, tell, received⟩
    dsimp only at hreceived
    subst hreceived
    rfl
  have hbytes : Utf16.encodeChar c = BigEndian.encode 2 c.toNat := by
    rw [Utf16.encodeChar, Utf16.units, if_pos (by omega), List.flatMap_singleton]
  have hlen := BigEndian.length_encode 2 c.toNat
  have hfill := @StringBuffer.fill_of_char 2 sb c hc (by decide) (by decide)
  have hput : StringBuffer.putBack 2 (Utf16.encodeChar c) { sb with tell := sb.tell + 1 }
      = .ok (Utf16.encodeChar c) { sb with tell := sb.tell + 1 } := by
    have hdrop : (BigEndian.encode 2 c.toNat).drop 2 = [] := List.drop_of_length_le (by omega)
    have htake : (BigEndian.encode 2 c.toNat).take 2 = BigEndian.encode 2 c.toNat :=
      List.take_of_length_le (by omega)
    rw [hbytes, StringBuffer.putBack_of_nonneg (by decide)]
    simp only [Int.reduceToNat, hdrop, htake, List.reverse_nil, List.append_nil]
  have hread : StringBuffer.read 2 sb
      = .ok (Utf16.encodeChar c) { sb with tell := sb.tell + 1 } := by
    rw [StringBuffer.read, bind_of_ok htake, bind_of_ok hfill, hput]
  have hread : BaseSyncReader.read ((StructFormat.short.calcsize : Nat) : Int) sb
      = .ok (Utf16.encodeChar c) { sb with tell := sb.tell + 1 } := hread
  rw [readValue, bind_of_ok hread, hbytes, unpack_short hlt]
  rfl

/--
After `i` bytes are written and `j` groups are read, `value` has the bits of these groups that are
not written yet, and `bits` says how many they are.
-/
structure Carrying (bytes : List UInt8) (i j : Nat) (carry : StringBuffer.Carry)
    (sb : StringBuffer) : Prop where
  text : sb.text = packChars bytes
  tell : sb.tell = 2 + j
  received : sb.received = []
  buffer : carry.buffer = Buffer.ofBytes (bytes.take i)
  value : carry.value = littleEndian bytes % 2 ^ (15 * j) / 2 ^ (8 * i)
  bits : carry.bits = (15 * j : Nat) - (8 * i : Nat)
  enough : 8 * i ≤ 15 * j
  inside : j ≤ (8 * bytes.length + 14) / 15

theorem refill_value {n i j : Nat} (h : 8 * i ≤ 15 * j)
    : (n % 2 ^ (15 * j) / 2 ^ (8 * i)) ||| ((n / 2 ^ (15 * j) % 2 ^ 15) <<< (15 * j - 8 * i))
        =
      n % 2 ^ (15 * (j + 1)) / 2 ^ (8 * i) := by
  have hsplit : 2 ^ (15 * j) = 2 ^ (8 * i) * 2 ^ (15 * j - 8 * i) := by
    rw [← Nat.pow_add]
    congr 1
    omega
  have hlow : n % 2 ^ (15 * j) / 2 ^ (8 * i) < 2 ^ (15 * j - 8 * i) := by
    apply Nat.div_lt_of_lt_mul
    rw [← hsplit]
    exact Nat.mod_lt _ (Nat.two_pow_pos _)
  have hhigh : 2 ^ (15 * (j + 1)) = 2 ^ (15 * j) * 2 ^ 15 := by
    rw [Nat.mul_succ, Nat.pow_add]
  rw [Nat.or_comm, Nat.shiftLeft_eq, Nat.mul_comm, ← Nat.two_pow_add_eq_or_of_lt hlow, hhigh,
    Nat.mod_mul]
  conv => rhs; rw [hsplit, Nat.mul_assoc, Nat.add_mul_div_left _ _ (Nat.two_pow_pos _), ← hsplit]
  exact Nat.add_comm _ _

theorem Carrying.refill {bytes : List UInt8} {i j : Nat} {carry : StringBuffer.Carry}
    {sb : StringBuffer} (h : Carrying bytes i j carry sb) (hi : i < bytes.length)
    : ∃ j' carry' sb', StringBuffer.refill carry sb = .ok carry' sb'
        ∧ Carrying bytes i j' carry' sb' ∧ 8 * (i + 1) ≤ 15 * j' := by
  have hget : (get : Py StringBuffer StringBuffer) sb = .ok sb sb := rfl
  have hremaining : sb.remaining = (8 * bytes.length + 14) / 15 - j := by
    rw [StringBuffer.remaining, h.text, h.tell, h.received, length_packChars, List.length_nil]
    omega
  have hbits := h.bits
  have henough := h.enough
  have hinside := h.inside
  rw [StringBuffer.refill]
  -- a character is read unless the bits suffice or all characters were read
  by_cases hless : carry.bits < 8 ∧ sb.remaining ≠ 0
  . have hj : j < (8 * bytes.length + 14) / 15 := by omega
    have hc : sb.text[sb.tell]? = some (fifteenBits (littleEndian bytes) j) := by
      rw [h.text, h.tell]
      exact getElem?_packChars hj
    have hread := readValue_short h.received hc (toNat_fifteenBits_lt _ _)
    have hpos : ¬ (carry.bits < 0) := by omega
    have hmask : (Int.land ((fifteenBits (littleEndian bytes) j).toNat : Int) 0x7FFF).toNat
        = (fifteenBits (littleEndian bytes) j).toNat := by
      have hland : Int.land ((fifteenBits (littleEndian bytes) j).toNat : Int) 0x7FFF
          = (((fifteenBits (littleEndian bytes) j).toNat &&& 0x7FFF : Nat) : Int) := rfl
      rw [hland, Int.toNat_natCast]
      exact (Nat.and_two_pow_sub_one_eq_mod _ 15).trans
        (Nat.mod_eq_of_lt (toNat_fifteenBits_lt _ _))
    have hshift : carry.bits.toNat = 15 * j - 8 * i := by omega
    let short : Int := (fifteenBits (littleEndian bytes) j).toNat
    refine ⟨j + 1, { carry with
        value := carry.value ||| ((Int.land short 0x7FFF).toNat <<< carry.bits.toNat)
        bits := carry.bits + 15 }, { sb with tell := sb.tell + 1 }, ?_, ?_, by omega⟩
    . rw [bind_of_ok hget, if_pos hless, bind_of_ok hread, if_neg hpos, pure_apply]
    . refine { h with tell := ?_, value := ?_, bits := ?_, enough := by omega, inside := hj }
      . dsimp only
        rw [h.tell]
        rfl
      . dsimp only
        rw [hmask, hshift, h.value, toNat_fifteenBits]
        exact refill_value h.enough
      . dsimp only
        omega
  . refine ⟨j, carry, sb, ?_, h, by omega⟩
    rw [bind_of_ok hget, if_neg hless, pure_apply]

theorem Carrying.writeByte {bytes : List UInt8} {i j : Nat} {carry : StringBuffer.Carry}
    {sb : StringBuffer} (h : Carrying bytes i j carry sb) (hi : i < bytes.length)
    (hfit : 8 * (i + 1) ≤ 15 * j)
    : Carrying bytes (i + 1) j (StringBuffer.writeByte carry) sb := by
  have hbits := h.bits
  refine { h with buffer := ?_, value := ?_, bits := ?_, enough := hfit }
  . have hbyte : carry.value &&& 0xFF = bytes[i].toNat := by
      have hmask : carry.value &&& 0xFF = carry.value % 2 ^ 8 :=
        Nat.and_two_pow_sub_one_eq_mod _ 8
      have hsplit : 2 ^ (15 * j) = 2 ^ (8 * i) * 2 ^ (15 * j - 8 * i) := by
        rw [← Nat.pow_add]
        congr 1
        omega
      rw [hmask, h.value, ← littleEndian_div_mod hi, hsplit, Nat.mod_mul_right_div_self,
        Nat.mod_mod_of_dvd _ (Nat.pow_dvd_pow 2 (by omega))]
    simp only [StringBuffer.writeByte, hbyte, UInt8.ofNat_toNat, h.buffer]
    rw [List.take_add_one, List.getElem?_eq_getElem hi, Option.toList_some]
    rfl
  . have hnext : 8 * (i + 1) = 8 * i + 8 := by omega
    simp only [StringBuffer.writeByte]
    rw [Nat.shiftRight_eq_div_pow, h.value, Nat.div_div_eq_div_mul, ← Nat.pow_add, hnext]
  . simp only [StringBuffer.writeByte]
    omega

theorem readOptimizedBuffer_go {bytes : List UInt8} {left i j : Nat} {carry : StringBuffer.Carry}
    {sb : StringBuffer} (h : Carrying bytes i j carry sb) (hleft : i + left = bytes.length)
    : ∃ sb', StringBuffer.readOptimizedBuffer.go left carry sb
        = .ok (Buffer.ofBytes bytes) sb' := by
  induction left generalizing i j carry sb with
  | zero =>
    have hall : bytes.take i = bytes := List.take_of_length_le (by omega)
    have hbuffer := h.buffer
    rw [hall] at hbuffer
    exact ⟨sb, by rw [StringBuffer.readOptimizedBuffer.go, pure_apply, hbuffer]⟩
  | succ left ih =>
    rcases h.refill (by omega) with ⟨j', carry', sb', hrefill, hcarry, hfit⟩
    rcases ih (hcarry.writeByte (by omega) hfit) (by omega) with ⟨sb'', hrun⟩
    refine ⟨sb'', ?_⟩
    rw [StringBuffer.readOptimizedBuffer.go, bind_of_ok hrefill]
    exact hrun

theorem decodeOptimized_packChars {bytes : List UInt8} (h : bytes.length < 2 ^ 30)
    : ForgeData.decodeOptimized (packChars bytes) = .ok (Buffer.ofBytes bytes) := by
  have hlow : readValue .short (StringBuffer.ofString (packChars bytes))
      = .ok ((fifteenBits bytes.length 0).toNat : Int)
        { StringBuffer.ofString (packChars bytes) with tell := 1 } :=
    readValue_short rfl rfl (toNat_fifteenBits_lt _ _)
  have hhigh : readValue .short { StringBuffer.ofString (packChars bytes) with tell := 1 }
      = .ok ((fifteenBits bytes.length 1).toNat : Int)
        { StringBuffer.ofString (packChars bytes) with tell := 2 } :=
    readValue_short rfl rfl (toNat_fifteenBits_lt _ _)
  have hsize : Int.lor ((fifteenBits bytes.length 0).toNat : Int)
      (((fifteenBits bytes.length 1).toNat : Int) * 2 ^ 15) = (bytes.length : Int) := by
    have hor : Int.lor ((fifteenBits bytes.length 0).toNat : Int)
        (((fifteenBits bytes.length 1).toNat : Int) * 2 ^ 15)
        = (((fifteenBits bytes.length 0).toNat
          ||| ((fifteenBits bytes.length 1).toNat * 2 ^ 15) : Nat) : Int) := rfl
    rw [hor, Nat.or_comm, Nat.mul_comm,
      ← Nat.two_pow_add_eq_or_of_lt (toNat_fifteenBits_lt _ _), toNat_fifteenBits,
      toNat_fifteenBits]
    omega
  have hstart : Carrying bytes 0 0 { buffer := Buffer.ofBytes [], value := 0, bits := 0 }
      { StringBuffer.ofString (packChars bytes) with tell := 2 } :=
    { text := rfl, tell := rfl, received := rfl, buffer := rfl, value := by simp [Nat.mod_one],
      bits := rfl, enough := Nat.le_refl _, inside := Nat.zero_le _ }
  have hread : StringBuffer.readOptimizedSize (StringBuffer.ofString (packChars bytes))
      = .ok (bytes.length : Int) { StringBuffer.ofString (packChars bytes) with tell := 2 } := by
    rw [StringBuffer.readOptimizedSize, bind_of_ok hlow, bind_of_ok hhigh, pure_apply, hsize]
  rcases readOptimizedBuffer_go hstart (Nat.zero_add bytes.length) with ⟨sb', hrun⟩
  rw [ForgeData.decodeOptimized, StringBuffer.readOptimizedBuffer, bind_of_ok hread,
    Int.toNat_natCast, hrun]

end Python

end McStatus
