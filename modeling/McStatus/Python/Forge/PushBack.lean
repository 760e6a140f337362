import McStatus.Python.Forge.Stream

/-!
This module shows when runs of `_StringBuffer.read` return the bytes of the text in order: what a
read has taken too much is kept backwards.
-/

namespace McStatus

open Blocks Machine Reader
open Utf16 (encode encodeChar)

namespace Python

namespace StringBuffer

def total (lengths : List Int) : Nat :=
  (lengths.map Int.toNat).sum

/--
The call with this length ends inside of a character that starts where it starts to read or later,
and a call behind it gets more bytes: then what is left of the character is the same backwards.
-/
def MirrorsCut (string : List Char) (p : Nat) (length : Int) (behind : List Int) : Prop :=
  ∀ next rest, behind.find? (0 < ·) = some next
    → p + length.toNat + next.toNat ≤ (encode string).length
    → Cuts encodeChar string p (p + length.toNat) rest → rest.reverse = rest

/-- So it is for every one of the calls, the first of which reads from `p` on. -/
def MirrorsCuts (string : List Char) (p : Nat) (lengths : List Int) : Prop :=
  ∀ front length behind, lengths = front ++ length :: behind
    → MirrorsCut string (p + total front) length behind

/-- The buffer has read `p` bytes. What it holds is the end of a character they end in. -/
structure At (string : List Char) (p : Nat) (sb : StringBuffer) : Prop where
  exists_done : ∃ done, string = done ++ sb.unreadChars
    ∧ (encode done).length = p + sb.received.length
    ∧ (sb.received ≠ [] → ∃ init c, done = init ++ [c] ∧ (encode init).length < p)

theorem at_ofString (string : List Char) : At string 0 (ofString string) where
  exists_done := ⟨[], rfl, rfl, fun h => absurd rfl h⟩

section Run

variable {string : List Char} {p : Nat} {sb : StringBuffer} {length : Int} {lengths : List Int}

theorem mirrorsCuts_nil : MirrorsCuts string p [] := by
  intro front length behind h
  simp at h

theorem mirrorsCuts_cons
    : MirrorsCuts string p (length :: lengths)
        ↔ MirrorsCut string p length lengths ∧ MirrorsCuts string (p + length.toNat) lengths := by
  constructor
  . intro h
    refine ⟨h [] length lengths rfl, fun front next behind heq => ?_⟩
    have hcons := h (length :: front) next behind (by rw [heq, List.cons_append])
    rwa [total, List.map_cons, List.sum_cons, ← Nat.add_assoc] at hcons
  . rintro ⟨hfirst, hrest⟩ front next behind heq
    cases front with
    | nil =>
      rw [List.nil_append, List.cons.injEq] at heq
      rw [← heq.1, ← heq.2]
      exact hfirst
    | cons length' front =>
      rw [List.cons_append, List.cons.injEq] at heq
      rw [total, List.map_cons, List.sum_cons, ← Nat.add_assoc, ← heq.1]
      exact hrest front next behind heq.2

theorem mirrorsCuts_of_lt (h : (encode string).length < p) : MirrorsCuts string p lengths := by
  intro front length behind _ next rest _ hle
  omega

theorem At.add_left (h : At string p sb) : p + sb.left = (encode string).length := by
  rcases h.exists_done with ⟨done, hstring, hlength, -⟩
  rw [hstring, Utf16.encode_append, List.length_append, hlength, left, contents, List.length_append]
  omega

theorem At.not_cuts (h : At string p sb) {q : Nat} (hq : q ≤ p + sb.received.length)
    {rest : List UInt8} : ¬ Cuts encodeChar string p q rest := by
  rintro ⟨before, c, after, k, hstring, hp, hq', hpos, -, -⟩
  rcases h.exists_done with ⟨done, hdone, hlength, hinit⟩
  have hreceived : sb.received ≠ [] := by
    intro hnil
    rw [hnil, List.length_nil] at hq
    omega
  rcases hinit hreceived with ⟨init, d, rfl, hlt⟩
  have hsplit : init ++ d :: sb.unreadChars = before ++ c :: after := by
    rw [← hstring, hdone, List.append_assoc, List.singleton_append]
  rw [← encode] at hp hq'
  rcases prefix_or_le encodeChar hsplit with ⟨between, rfl⟩ | hle
  . rw [Utf16.encode_append, List.length_append] at hlt
    omega
  . rw [Utf16.encode_append, Utf16.encode_singleton, List.length_append] at hlength
    rw [← encode, ← encode] at hle
    omega

theorem At.held (h : At string p sb) (hle : length ≤ sb.received.length)
    : At string (p + length.toNat)
        { sb with received := sb.received.drop length.toNat } := by
  rcases h.exists_done with ⟨done, hstring, hlength, hinit⟩
  refine ⟨done, hstring, ?_, fun hreceived => ?_⟩
  . rw [hlength, List.length_drop]
    omega
  . have hne : sb.received ≠ [] := by
      intro hnil
      rw [hnil, List.drop_nil] at hreceived
      exact hreceived rfl
    rcases hinit hne with ⟨init, c, heq, hlt⟩
    exact ⟨init, c, heq, by omega⟩

theorem At.fresh (h : At string p sb) {taken after : List Char} {c : Char} {k : Nat}
    {sb' : StringBuffer} (hunread : sb.unreadChars = taken ++ c :: after) (hpos : 0 < k)
    (hle : k ≤ (encodeChar c).length)
    (hlength : length = (sb.received.length + (encode taken).length + k : Nat))
    (hunread' : sb'.unreadChars = after)
    (hreceived' : sb'.received = ((encodeChar c).drop k).reverse)
    : At string (p + length.toNat) sb'
        ∧ Cuts encodeChar string p (p + length.toNat) ((encodeChar c).drop k) := by
  rcases h.exists_done with ⟨done, hstring, hdone, -⟩
  have hfront : (encode (done ++ taken)).length + k = p + length.toNat := by
    rw [Utf16.encode_append, List.length_append, hdone]
    omega
  constructor
  . refine ⟨done ++ taken ++ [c], ?_, ?_, fun _ => ⟨done ++ taken, c, rfl, by omega⟩⟩
    . rw [hstring, hunread, hunread']
      simp
    . rw [hreceived', List.length_reverse, List.length_drop, Utf16.encode_append,
        Utf16.encode_singleton, List.length_append]
      omega
  . refine ⟨done ++ taken, c, after, k, ?_, ?_, hfront.symm, hpos, hle, rfl⟩
    . rw [hstring, hunread, List.append_assoc]
    . rw [← encode, Utf16.encode_append, List.length_append, hdone]
      omega

end Run

theorem reverse_eq_of_head? {α : Type} {s : List α} (behind : List α) (hlength : s.length ≤ 3)
    (h : (s ++ behind).head? = (s.reverse ++ behind).head?) : s.reverse = s := by
  match s with
  | [] => rfl
  | [a] => rfl
  | [a, b] =>
    have hab : a = b := by simpa using h
    rw [hab]
    rfl
  | [a, b, c] =>
    have hac : a = c := by simpa using h
    rw [hac]
    rfl

theorem returned_prefix_append_iff {string : List Char} {lengths : List Int} {p : Nat}
    {sb : StringBuffer} {length : Int} {surplus : List UInt8}
    (h : At string (p + length.toNat) sb) (hreceived : sb.received = surplus.reverse)
    (hcut : Cuts encodeChar string p (p + length.toNat) surplus) (hlength : surplus.length ≤ 3)
    : returned lengths sb <+: surplus ++ encode sb.unreadChars
        ↔ MirrorsCut string p length lengths ∧ returned lengths sb <+: sb.contents := by
  have hleft := h.add_left
  have hcontents : sb.contents = surplus.reverse ++ encode sb.unreadChars := by
    rw [contents, hreceived]
  by_cases hnil : returned lengths sb = []
  . rw [hnil]
    refine iff_of_true List.nil_prefix ⟨?_, List.nil_prefix⟩
    intro next rest hfind hle _
    have hnext := pos_of_find? hfind
    exact absurd hnil (returned_ne_nil_iff.mpr ⟨next, hfind, by omega⟩)
  . have hmirrors : MirrorsCut string p length lengths ↔ surplus.reverse = surplus := by
      constructor
      . intro hmirrors
        rcases returned_ne_nil_iff.mp hnil with ⟨next, hfind, hle⟩
        have hnext := pos_of_find? hfind
        exact hmirrors next surplus hfind (by omega) hcut
      . intro hreverse next rest _ _ hcut'
        rw [← hcut.unique hcut', hreverse]
    rw [hmirrors, hcontents]
    constructor
    . intro hprefix
      have hreverse : surplus.reverse = surplus := by
        apply reverse_eq_of_head? (encode sb.unreadChars) hlength
        rw [← hcontents, ← head?_returned hnil]
        rcases hprefix with ⟨behind, heq⟩
        rw [← heq, List.head?_append_of_ne_nil _ hnil]
      exact ⟨hreverse, by rwa [hreverse]⟩
    . rintro ⟨hreverse, hprefix⟩
      rwa [hreverse] at hprefix

theorem returned_prefix_iff {string : List Char} {lengths : List Int} {p : Nat} {sb : StringBuffer}
    (h : At string p sb) : returned lengths sb <+: sb.contents ↔ MirrorsCuts string p lengths := by
  induction lengths generalizing p sb with
  | nil => exact iff_of_true List.nil_prefix mirrorsCuts_nil
  | cons length lengths ih =>
    rw [returned_cons, mirrorsCuts_cons]
    have hstep := perform_step length sb
    generalize perform length sb = result at *
    cases hstep with
    | negative hneg =>
      have hzero : length.toNat = 0 := by omega
      have hfirst : MirrorsCut string p length lengths :=
        fun _ _ _ _ hcut => absurd hcut (h.not_cuts (by omega))
      rw [and_iff_right hfirst, hzero, Nat.add_zero, ← ih h]
      rfl
    | held hnonneg hle =>
      have hfirst : MirrorsCut string p length lengths :=
        fun _ _ _ _ hcut => absurd hcut (h.not_cuts (by omega))
      have hcontents : sb.contents = sb.received.take length.toNat
          ++ contents { sb with received := sb.received.drop length.toNat } := by
        rw [contents, contents, ← List.append_assoc, List.take_append_drop]
        rfl
      rw [and_iff_right hfirst, ← ih (h.held hle), hcontents]
      exact List.prefix_append_right_inj _
    | @fresh taken after c k sb' hunread hpos hle hlength hunread' hreceived' =>
      rcases h.fresh hunread hpos hle hlength hunread' hreceived' with ⟨h', hcut⟩
      have hsize : ((encodeChar c).drop k).length ≤ 3 := by
        have := Utf16.length_encodeChar c
        rw [List.length_drop]
        split at this <;> omega
      rw [← ih h', ← returned_prefix_append_iff h' hreceived' hcut hsize, hunread',
        contents_of_unread hunread k]
      exact List.prefix_append_right_inj _
    | @short os sb' hlt hempty =>
      have hend := h.add_left
      have hfirst : MirrorsCut string p length lengths := fun _ _ _ hle _ => by omega
      rw [returned_of_contents_nil hempty]
      exact iff_of_true List.nil_prefix ⟨hfirst, mirrorsCuts_of_lt (by omega)⟩

/-- The calls return the bytes in order, as many as they are asked for, unless too few are left. -/
structure Faithful (string : List Char) (lengths : List Int) : Prop where
  isPrefix : returned lengths (ofString string) <+: encode string
  length_eq : ∀ front length behind data, lengths = front ++ length :: behind
    → (perform length (run perform front (ofString string)).2).1 = .ok data
    → (data.length : Int) = length
  osError : ∀ front length behind os, lengths = front ++ length :: behind
    → (perform length (run perform front (ofString string)).2).1 = .error (.osError os)
    → (run perform front (ofString string)).2.left < length

theorem faithful_of_prefix {string : List Char} {lengths : List Int}
    (h : returned lengths (ofString string) <+: encode string) : Faithful string lengths where
  isPrefix := h
  length_eq := fun _ _ _ _ _ hok => length_of_perform hok
  osError := fun _ _ _ _ _ herror => left_lt_of_perform herror

theorem faithful_iff (string : List Char) (lengths : List Int)
    : Faithful string lengths ↔ MirrorsCuts string 0 lengths := by
  have hiff : returned lengths (ofString string) <+: encode string
      ↔ MirrorsCuts string 0 lengths := returned_prefix_iff (at_ofString string)
  constructor
  . intro h
    exact hiff.mp h.isPrefix
  . intro h
    exact faithful_of_prefix (hiff.mpr h)

theorem faithful_of_isBmp {string : List Char} (h : ∀ c ∈ string, Utf16.isBmp c = true)
    (lengths : List Int) : Faithful string lengths := by
  apply faithful_of_prefix
  refine (returned_prefix_iff (at_ofString string)).mpr ?_
  rintro front length behind - next rest - - ⟨before, c, after, k, hstring, -, -, hpos, hle, rfl⟩
  have hlength := Utf16.length_encodeChar c
  rw [if_pos (h c (by simp [hstring]))] at hlength
  have hrest : ((encodeChar c).drop k).length ≤ 1 := by
    rw [List.length_drop]
    omega
  match (encodeChar c).drop k, hrest with
  | [], _ => rfl
  | [b], _ => rfl

theorem not_faithful_emoji
    : returned [2, 2] (ofString "😀".toList) = [0xD8, 0x3D, 0x00, 0xDE]
        ∧ encode "😀".toList = [0xD8, 0x3D, 0xDE, 0x00]
        ∧ ¬ ∀ string lengths, Faithful string lengths := by
  have hfirst : perform 2 (ofString "😀".toList) = (.ok [0xD8, 0x3D],
      { text := "😀".toList, tell := 1, received := [0x00, 0xDE] }) := by
    have hchar : encodeChar '😀' = [0xD8, 0x3D, 0xDE, 0x00] := by decide
    have hfill := @fill_of_char 2 (ofString "😀".toList) '😀' rfl (by decide) (by decide)
    rw [hchar] at hfill
    have htaken : takeReceived 2 (ofString "😀".toList) = .ok [] (ofString "😀".toList) := rfl
    rw [perform, read, bind_of_ok htaken, bind_of_ok hfill, putBack_of_nonneg (by decide)]
    rfl
  have hsecond : perform 2 { text := "😀".toList, tell := 1, received := [0x00, 0xDE] }
      = (.ok [0x00, 0xDE], { text := "😀".toList, tell := 1, received := [] }) := by
    rw [perform, read, bind_of_ok (takeReceived_apply 2 _), bind_of_ok (fill_of_le (by decide) _),
      putBack_of_nonneg (by decide)]
    rfl
  have hreturned : returned [2, 2] (ofString "😀".toList) = [0xD8, 0x3D, 0x00, 0xDE] := by
    rw [returned_cons, hfirst, returned_cons, hsecond]
    rfl
  have hencode : encode "😀".toList = [0xD8, 0x3D, 0xDE, 0x00] := by decide
  refine ⟨hreturned, hencode, fun h => ?_⟩
  have hprefix := (h "😀".toList [2, 2]).isPrefix
  rw [hreturned, hencode] at hprefix
  exact absurd hprefix (by decide)

end StringBuffer

end Python

end McStatus
