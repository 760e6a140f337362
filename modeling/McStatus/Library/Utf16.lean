import McStatus.Library.BigEndian

/-!
This module contains the encoding of text in UTF-16, the high byte of every unit first.
-/

namespace McStatus

namespace Utf16

/-- The character takes one unit. The others take two, which are surrogates. -/
def isBmp (c : Char) : Bool :=
  c.toNat < 0x10000

def units (c : Char) : List Nat :=
  if c.toNat < 0x10000 then
    [c.toNat]
  else
    let n := c.toNat - 0x10000
    [0xD800 + n / 0x400, 0xDC00 + n % 0x400]

def encodeChar (c : Char) : List UInt8 :=
  (units c).flatMap (BigEndian.encode 2)

def encode (s : List Char) : List UInt8 :=
  s.flatMap encodeChar

@[simp]
theorem encode_nil : encode [] = [] := rfl

theorem encode_cons (c : Char) (s : List Char) : encode (c :: s) = encodeChar c ++ encode s :=
  List.flatMap_cons

theorem encode_append (s t : List Char) : encode (s ++ t) = encode s ++ encode t :=
  List.flatMap_append

theorem encode_singleton (c : Char) : encode [c] = encodeChar c :=
  List.flatMap_singleton encodeChar c

theorem toNat_lt (c : Char) : c.toNat < 0x110000 := by
  have := c.valid
  rw [Char.toNat]
  rcases this with h | h
  . exact Nat.lt_trans h (by decide)
  . exact h.2

theorem units_cases (c : Char)
    : (isBmp c = true ∧ units c = [c.toNat])
        ∨ (isBmp c = false ∧ ∃ high low, units c = [high, low]
          ∧ (0xD800 ≤ high ∧ high < 0xDC00) ∧ 0xDC00 ≤ low ∧ low < 0xE000) := by
  have hlt := toNat_lt c
  unfold units isBmp
  split
  . next hc => exact Or.inl ⟨decide_eq_true hc, rfl⟩
  . next hc =>
    refine Or.inr ⟨decide_eq_false hc, _, _, rfl, ?_⟩
    omega

theorem length_encodeChar (c : Char)
    : (encodeChar c).length = if isBmp c = true then 2 else 4 := by
  rcases units_cases c with ⟨hc, heq⟩ | ⟨hc, high, low, heq, _⟩
  . simp [encodeChar, heq, hc]
  . simp [encodeChar, heq, hc]

theorem length_encodeChar_bounds (c : Char)
    : 2 ≤ (encodeChar c).length ∧ (encodeChar c).length ≤ 4 := by
  rw [length_encodeChar]
  split <;> decide

def unitsOf? (bytes : List UInt8) : Option (List Nat) :=
  match bytes with
  | [] => some []
  | [_] => none
  | high :: low :: rest => (unitsOf? rest).map (BigEndian.decode [high, low] :: ·)

/-- The text of these units, where every surrogate is part of a pair. -/
def ofUnits? (codes : List Nat) : Option (List Char) :=
  match codes with
  | [] => some []
  | code :: rest =>
    if 0xD800 ≤ code ∧ code < 0xDC00 then
      match rest with
      | [] => none
      | low :: rest =>
        if 0xDC00 ≤ low ∧ low < 0xE000 then
          (ofUnits? rest).map
            (Char.ofNat (0x10000 + ((code - 0xD800) * 0x400 + (low - 0xDC00))) :: ·)
        else
          none
    else if 0xDC00 ≤ code ∧ code < 0xE000 then
      none
    else
      (ofUnits? rest).map (Char.ofNat code :: ·)

def decode? (bytes : List UInt8) : Option (List Char) :=
  (unitsOf? bytes).bind ofUnits?

theorem encode_eq (s : List Char) : encode s = (s.flatMap units).flatMap (BigEndian.encode 2) :=
  List.flatMap_assoc.symm

theorem toNat_ofNat {n : Nat} (h : n.isValidChar) : (Char.ofNat n).toNat = n := by
  rw [Char.ofNat, dif_pos h]
  rfl

theorem lt_of_mem_units {c : Char} {n : Nat} (h : n ∈ units c) : n < 0x10000 := by
  rcases units_cases c with ⟨hc, heq⟩ | ⟨-, high, low, heq, hhigh, hlow⟩
  . rw [heq, List.mem_singleton] at h
    rw [h]
    exact of_decide_eq_true hc
  . rw [heq] at h
    simp only [List.mem_cons, List.not_mem_nil, or_false] at h
    omega

theorem unitsOf?_flatMap {codes : List Nat} (h : ∀ n ∈ codes, n < 0x10000)
    : unitsOf? (codes.flatMap (BigEndian.encode 2)) = some codes := by
  induction codes with
  | nil => rfl
  | cons n codes ih =>
    rcases List.forall_mem_cons.mp h with ⟨hn, hcodes⟩
    have hdecode : BigEndian.decode (BigEndian.encode 2 n) = n := BigEndian.decode_encode_of_lt hn
    have hbytes : ∃ high low, BigEndian.encode 2 n = [high, low] := ⟨_, _, rfl⟩
    rcases hbytes with ⟨high, low, heq⟩
    rw [heq] at hdecode
    rw [List.flatMap_cons, heq, List.cons_append, List.cons_append, List.nil_append, unitsOf?,
      ih hcodes, hdecode]
    rfl

theorem eq_flatMap_of_unitsOf? {bytes : List UInt8} {codes : List Nat}
    (h : unitsOf? bytes = some codes)
    : bytes = codes.flatMap (BigEndian.encode 2) ∧ ∀ n ∈ codes, n < 0x10000 := by
  fun_induction unitsOf? bytes generalizing codes with
  | case1 =>
    cases h
    exact ⟨rfl, fun n hn => absurd hn List.not_mem_nil⟩
  | case2 byte => cases h
  | case3 high low rest ih =>
    rcases Option.map_eq_some_iff.mp h with ⟨codes', hrest, rfl⟩
    rcases ih hrest with ⟨hbytes, hlt⟩
    have hencode : BigEndian.encode 2 (BigEndian.decode [high, low]) = [high, low] :=
      BigEndian.encode_decode [high, low]
    have hcode : BigEndian.decode [high, low] < 0x10000 :=
      Nat.lt_of_lt_of_eq (BigEndian.decode_lt [high, low]) (by decide : 256 ^ 2 = 0x10000)
    refine ⟨?_, List.forall_mem_cons.mpr ⟨hcode, hlt⟩⟩
    rw [List.flatMap_cons, hencode, ← hbytes]
    rfl

theorem ofUnits?_units (c : Char) (codes : List Nat)
    : ofUnits? (units c ++ codes) = (ofUnits? codes).map (c :: ·) := by
  have hlt := toNat_lt c
  have hvalid := c.valid
  unfold units
  split
  . next hc =>
    have hscalar : c.toNat < 0xD800 ∨ 0xDFFF < c.toNat := by
      rcases hvalid with hlow | hhigh
      . exact Or.inl hlow
      . exact Or.inr hhigh.1
    rw [List.singleton_append, ofUnits?.eq_def]
    dsimp only
    rw [if_neg (by omega), if_neg (by omega), Char.ofNat_toNat]
  . next hc =>
    have hback : 0x10000 + ((0xD800 + (c.toNat - 0x10000) / 0x400 - 0xD800) * 0x400
        + (0xDC00 + (c.toNat - 0x10000) % 0x400 - 0xDC00)) = c.toNat := by omega
    rw [List.cons_append, List.singleton_append, ofUnits?.eq_def]
    dsimp only
    rw [if_pos (by omega), if_pos (by omega), hback, Char.ofNat_toNat]

theorem units_ofNat_pair {high low : Nat} (hhigh : 0xD800 ≤ high ∧ high < 0xDC00)
    (hlow : 0xDC00 ≤ low ∧ low < 0xE000)
    : units (Char.ofNat (0x10000 + ((high - 0xD800) * 0x400 + (low - 0xDC00)))) = [high, low] := by
  generalize hn : 0x10000 + ((high - 0xD800) * 0x400 + (low - 0xDC00)) = n
  have hvalid : n.isValidChar := Or.inr ⟨by omega, by omega⟩
  have htoNat : (Char.ofNat n).toNat = n := toNat_ofNat hvalid
  rw [units, htoNat, if_neg (by omega)]
  dsimp only
  have hdiv : 0xD800 + (n - 0x10000) / 0x400 = high := by omega
  have hmod : 0xDC00 + (n - 0x10000) % 0x400 = low := by omega
  rw [hdiv, hmod]

theorem units_ofNat {n : Nat} (hlt : n < 0x10000) (hscalar : n < 0xD800 ∨ 0xDFFF < n)
    : units (Char.ofNat n) = [n] := by
  have hvalid : n.isValidChar := by
    rcases hscalar with hlow | hhigh
    . exact Or.inl hlow
    . exact Or.inr ⟨hhigh, by omega⟩
  have htoNat : (Char.ofNat n).toNat = n := toNat_ofNat hvalid
  rw [units, htoNat, if_pos hlt]

theorem eq_flatMap_of_ofUnits? {codes : List Nat} {s : List Char} (h : ofUnits? codes = some s)
    (hlt : ∀ n ∈ codes, n < 0x10000) : codes = s.flatMap units := by
  fun_induction ofUnits? codes generalizing s with
  | case1 =>
    cases h
    rfl
  | case2 code hhigh => cases h
  | case3 code hhigh low rest hlow ih =>
    rcases Option.map_eq_some_iff.mp h with ⟨s', hrest, rfl⟩
    rcases List.forall_mem_cons.mp (List.forall_mem_cons.mp hlt).2 with ⟨-, hlt'⟩
    rw [List.flatMap_cons, units_ofNat_pair hhigh hlow, ← ih hrest hlt']
    rfl
  | case4 code hhigh low rest hlow => cases h
  | case5 code rest hhigh hlow => cases h
  | case6 code rest hhigh hlow ih =>
    rcases Option.map_eq_some_iff.mp h with ⟨s', hrest, rfl⟩
    rcases List.forall_mem_cons.mp hlt with ⟨hcode, hlt'⟩
    rw [List.flatMap_cons, units_ofNat hcode (by omega), ← ih hrest hlt']
    rfl

theorem decode?_encode (s : List Char) : decode? (encode s) = some s := by
  have hlt : ∀ n ∈ s.flatMap units, n < 0x10000 := by
    intro n hn
    rcases List.mem_flatMap.mp hn with ⟨c, -, hc⟩
    exact lt_of_mem_units hc
  rw [decode?, encode_eq, unitsOf?_flatMap hlt, Option.bind_some]
  clear hlt
  induction s with
  | nil => rfl
  | cons c s ih =>
    rw [List.flatMap_cons, ofUnits?_units, ih]
    rfl

theorem encode_of_decode? {bytes : List UInt8} {s : List Char} (h : decode? bytes = some s)
    : encode s = bytes := by
  rcases Option.bind_eq_some_iff.mp h with ⟨codes, hcodes, hs⟩
  rcases eq_flatMap_of_unitsOf? hcodes with ⟨rfl, hlt⟩
  rw [encode_eq, ← eq_flatMap_of_ofUnits? hs hlt]

theorem length_encode (s : List Char) : (encode s).length = 2 * (s.flatMap units).length := by
  rw [encode_eq]
  induction s.flatMap units with
  | nil => rfl
  | cons n codes ih =>
    rw [List.flatMap_cons, List.length_append, ih, BigEndian.length_encode, List.length_cons]
    omega

end Utf16

end McStatus
