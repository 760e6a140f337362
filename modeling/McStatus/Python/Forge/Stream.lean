import McStatus.Library.Blocks
import McStatus.Library.Machine
import McStatus.Library.Utf16
import McStatus.Python.Forge.StringBuffer

/-!
This module contains `_StringBuffer.read` as a step of the buffer, and runs of such steps.
-/

namespace McStatus

open Reader
open Utf16 (encode encodeChar)

namespace Python

namespace StringBuffer

def unreadChars (sb : StringBuffer) : List Char :=
  sb.text.drop sb.tell

def contents (sb : StringBuffer) : List UInt8 :=
  sb.received ++ encode sb.unreadChars

def left (sb : StringBuffer) : Nat :=
  sb.contents.length

theorem getElem?_tell (sb : StringBuffer) : sb.text[sb.tell]? = sb.unreadChars.head? := by
  rw [unreadChars, List.head?_drop]

theorem unread_succ {sb : StringBuffer} {c : Char} {chars : List Char}
    (h : sb.unreadChars = c :: chars) : { sb with tell := sb.tell + 1 }.unreadChars = chars := by
  have htail := congrArg List.tail h
  rwa [unreadChars, List.tail_drop] at htail

theorem fill_cases (length : Int) (data : List UInt8) (sb : StringBuffer)
    (hlt : data.length < length)
    : (∃ taken c after, sb.unreadChars = taken ++ c :: after
          ∧ data.length + (encode taken).length < length
          ∧ length ≤ data.length + (encode taken).length + (encodeChar c).length
          ∧ ∃ sb', fill length data sb = .ok (data ++ encode taken ++ encodeChar c) sb'
            ∧ sb'.unreadChars = after ∧ sb'.received = sb.received)
        ∨ (data.length + (encode sb.unreadChars).length < length
          ∧ ∃ os sb', fill length data sb = .error (.osError os) sb' ∧ sb'.unreadChars = []
            ∧ sb'.received = sb.received) := by
  generalize hunread : sb.unreadChars = chars
  induction chars generalizing data sb with
  | nil =>
    have hnone : sb.text[sb.tell]? = none := by rw [getElem?_tell, hunread, List.head?_nil]
    exact Or.inr ⟨by simpa using hlt, _, sb, fill_of_none hnone hlt, hunread, rfl⟩
  | cons c chars ih =>
    have hsome : sb.text[sb.tell]? = some c := by rw [getElem?_tell, hunread, List.head?_cons]
    have hnext := unread_succ hunread
    rw [fill_more hsome hlt]
    by_cases henough : length ≤ (data ++ encodeChar c).length
    . refine Or.inl ⟨[], c, chars, rfl, by simpa using hlt, ?_, _, ?_, hnext, rfl⟩
      . rw [List.length_append] at henough
        simpa using henough
      . rw [fill_of_le henough, Utf16.encode_nil, List.append_nil]
    . rcases ih (data ++ encodeChar c) _ (by omega) hnext with
        ⟨taken, d, after, hsplit, hfew, hmany, sb', hfill, hunread', hreceived⟩
          | ⟨hshort, os, sb', hfill, hunread', hreceived⟩
      . rw [List.length_append] at hfew hmany
        refine Or.inl ⟨c :: taken, d, after, by rw [hsplit, List.cons_append], ?_, ?_, sb', ?_,
          hunread', hreceived⟩
        . rw [Utf16.encode_cons, List.length_append]
          omega
        . rw [Utf16.encode_cons, List.length_append]
          omega
        . rw [hfill, Utf16.encode_cons, List.append_assoc data]
      . refine Or.inr ⟨?_, os, sb', hfill, hunread', hreceived⟩
        rw [List.length_append] at hshort
        rw [Utf16.encode_cons, List.length_append]
        omega

/-- A call of `read` as a step: what it returns or raises, and the buffer it leaves behind. -/
def perform (length : Int) (sb : StringBuffer) : Except Exception (List UInt8) × StringBuffer :=
  match read length sb with
  | .ok data sb' => (.ok data, sb')
  | .error e sb' => (.error e, sb')

inductive ReadStep (length : Int) (sb : StringBuffer)
    : Except Exception (List UInt8) × StringBuffer → Prop where
  | negative (hneg : length < 0) : ReadStep length sb (.error .indexError, sb)
  | held (hnonneg : 0 ≤ length) (hle : length ≤ sb.received.length)
      : ReadStep length sb (.ok (sb.received.take length.toNat),
          { sb with received := sb.received.drop length.toNat })
  | fresh {taken after : List Char} {c : Char} {k : Nat} {sb' : StringBuffer}
      (hunread : sb.unreadChars = taken ++ c :: after) (hpos : 0 < k)
      (hle : k ≤ (encodeChar c).length)
      (hlength : length = (sb.received.length + (encode taken).length + k : Nat))
      (hunread' : sb'.unreadChars = after)
      (hreceived' : sb'.received = ((encodeChar c).drop k).reverse)
      : ReadStep length sb (.ok (sb.received ++ encode taken ++ (encodeChar c).take k), sb')
  | short {os : OSError} {sb' : StringBuffer} (hlt : sb.left < length) (hempty : sb'.contents = [])
      : ReadStep length sb (.error (.osError os), sb')

theorem takeReceived_apply (length : Int) (sb : StringBuffer)
    : takeReceived length sb = .ok (sb.received.take length.toNat)
        { sb with received := sb.received.drop length.toNat } :=
  rfl

theorem perform_step (length : Int) (sb : StringBuffer)
    : ReadStep length sb (perform length sb) := by
  rw [perform, read, bind_of_ok (takeReceived_apply length sb)]
  by_cases hneg : length < 0
  . have hzero : length.toNat = 0 := by omega
    rw [hzero, List.take_zero, List.drop_zero, bind_of_ok (fill_of_le (by simp; omega) _), putBack,
      bind_of_ok (modify_apply _ _), if_pos hneg]
    have hsame : { sb with received := sb.received ++ ([].drop 0).reverse } = sb := by
      simp
    rw [hzero, hsame]
    exact .negative hneg
  by_cases hle : length ≤ sb.received.length
  . have hlength : (sb.received.take length.toNat).length = length.toNat :=
      List.length_take_of_le (by omega)
    rw [bind_of_ok (fill_of_le (by omega) _), putBack_of_nonneg (by omega),
      List.take_of_length_le (Nat.le_of_eq hlength), List.drop_of_length_le (Nat.le_of_eq hlength),
      List.reverse_nil, List.append_nil]
    exact .held (by omega) hle
  -- nothing is held any more, and characters are taken
  rw [List.take_of_length_le (by omega), List.drop_of_length_le (by omega)]
  rcases fill_cases length sb.received { sb with received := [] } (by omega) with
    ⟨taken, c, after, hunread, hfew, hmany, sb', hfill, hunread', hreceived'⟩
      | ⟨hshort, os, sb', hfill, hunread', hreceived'⟩
  . have hk : ∃ k : Nat, length = (sb.received.length + (encode taken).length + k : Nat) :=
      ⟨length.toNat - (sb.received.length + (encode taken).length), by omega⟩
    rcases hk with ⟨k, rfl⟩
    rw [bind_of_ok hfill, putBack_of_nonneg (by omega), Int.toNat_natCast, ← List.length_append,
      List.take_length_add_append, List.drop_length_add_append]
    refine .fresh hunread (by omega) (by omega) (by rw [List.length_append]) hunread' ?_
    rw [hreceived', List.nil_append]
  . rw [bind_of_error hfill]
    have hleft : sb.left < length := by
      rw [left, contents, List.length_append, Int.natCast_add]
      exact hshort
    exact .short hleft (by rw [contents, hunread', hreceived']; rfl)

def bytes (answer : Except Exception (List UInt8)) : List UInt8 :=
  match answer with
  | .ok data => data
  | .error _ => []

def returned (lengths : List Int) (sb : StringBuffer) : List UInt8 :=
  (Machine.run perform lengths sb).1.flatMap bytes

theorem returned_cons (length : Int) (lengths : List Int) (sb : StringBuffer)
    : returned (length :: lengths) sb
        = bytes (perform length sb).1 ++ returned lengths (perform length sb).2 := by
  rw [returned, Machine.run_cons, List.flatMap_cons]
  rfl

theorem contents_of_unread {sb : StringBuffer} {taken after : List Char} {c : Char}
    (h : sb.unreadChars = taken ++ c :: after) (k : Nat)
    : sb.contents = (sb.received ++ encode taken ++ (encodeChar c).take k)
        ++ ((encodeChar c).drop k ++ encode after) := by
  have hencode : encode sb.unreadChars = encode taken ++ (encodeChar c ++ encode after) := by
    rw [h, Utf16.encode_append, Utf16.encode_cons]
  rw [contents, hencode, List.append_assoc _ ((encodeChar c).take k),
    ← List.append_assoc ((encodeChar c).take k), List.take_append_drop, List.append_assoc]

theorem bytes_prefix (length : Int) (sb : StringBuffer)
    : bytes (perform length sb).1 <+: sb.contents := by
  have hstep := perform_step length sb
  generalize perform length sb = result at *
  cases hstep with
  | negative hneg => exact List.nil_prefix
  | held hnonneg hle => exact (List.take_prefix _ _).trans (List.prefix_append _ _)
  | @fresh taken after c k sb' hunread hpos hle hlength hunread' hreceived' =>
    rw [contents_of_unread hunread k]
    exact List.prefix_append _ _
  | short hlt hempty => exact List.nil_prefix

theorem length_of_perform {length : Int} {sb : StringBuffer} {data : List UInt8}
    (h : (perform length sb).1 = .ok data) : (data.length : Int) = length := by
  have hstep := perform_step length sb
  generalize perform length sb = result at *
  cases hstep with
  | negative hneg => cases h
  | held hnonneg hle =>
    cases h
    rw [List.length_take_of_le (by omega)]
    omega
  | @fresh taken after c k sb' hunread hpos hle hlength hunread' hreceived' =>
    cases h
    rw [List.length_append, List.length_append, List.length_take_of_le hle, hlength]
  | short hlt hempty => cases h

theorem left_lt_of_perform {length : Int} {sb : StringBuffer} {os : OSError}
    (h : (perform length sb).1 = .error (.osError os)) : sb.left < length := by
  have hstep := perform_step length sb
  generalize perform length sb = result at *
  cases hstep with
  | negative hneg => cases h
  | held hnonneg hle => cases h
  | fresh hunread hpos hle hlength hunread' hreceived' => cases h
  | short hlt hempty => exact hlt

theorem perform_of_nonpos {length : Int} (h : length ≤ 0) (sb : StringBuffer)
    : bytes (perform length sb).1 = [] ∧ (perform length sb).2 = sb := by
  have hstep := perform_step length sb
  generalize perform length sb = result at *
  cases hstep with
  | negative hneg => exact ⟨rfl, rfl⟩
  | held hnonneg hle =>
    have hzero : length.toNat = 0 := by omega
    rw [hzero]
    exact ⟨rfl, rfl⟩
  | fresh hunread hpos hle hlength hunread' hreceived' => omega
  | short hlt hempty => omega

theorem perform_of_left_lt {length : Int} {sb : StringBuffer} (h : sb.left < length)
    : bytes (perform length sb).1 = [] ∧ (perform length sb).2.contents = [] := by
  have hstep := perform_step length sb
  generalize perform length sb = result at *
  cases hstep with
  | negative hneg => omega
  | held hnonneg hle =>
    rw [left, contents, List.length_append] at h
    omega
  | @fresh taken after c k sb' hunread hpos hle hlength hunread' hreceived' =>
    rw [left, contents_of_unread hunread k, List.length_append, List.length_append,
      List.length_append, List.length_take_of_le hle] at h
    omega
  | short hlt hempty => exact ⟨rfl, hempty⟩

theorem bytes_ne_nil {length : Int} {sb : StringBuffer} (hpos : 0 < length)
    (hle : length ≤ sb.left) : bytes (perform length sb).1 ≠ [] := by
  intro hnil
  cases hanswer : (perform length sb).1 with
  | ok data =>
    have hlength := length_of_perform hanswer
    rw [hanswer] at hnil
    have hdata : data = [] := hnil
    rw [hdata, List.length_nil] at hlength
    omega
  | error e =>
    have hstep := perform_step length sb
    generalize perform length sb = result at *
    cases hstep with
    | negative hneg => omega
    | held hnonneg hle => cases hanswer
    | fresh hunread hpos hle hlength hunread' hreceived' => cases hanswer
    | short hlt hempty => omega

theorem left_eq_zero {sb : StringBuffer} (h : sb.contents = []) : sb.left = 0 := by
  rw [left, h, List.length_nil]

theorem pos_of_find? {lengths : List Int} {next : Int} (h : lengths.find? (0 < ·) = some next)
    : 0 < next := by
  simpa using List.find?_some h

theorem returned_ne_nil_iff {lengths : List Int} {sb : StringBuffer}
    : returned lengths sb ≠ []
        ↔ ∃ next, lengths.find? (0 < ·) = some next ∧ next ≤ sb.left := by
  induction lengths generalizing sb with
  | nil => simp [returned, Machine.run]
  | cons length lengths ih =>
    rw [returned_cons]
    by_cases hpos : 0 < length
    . rw [List.find?_cons_of_pos (by simpa using hpos)]
      by_cases hle : length ≤ sb.left
      . refine iff_of_true ?_ ⟨length, rfl, hle⟩
        exact fun h => bytes_ne_nil hpos hle (List.append_eq_nil_iff.mp h).1
      . rcases perform_of_left_lt (Int.not_le.mp hle) with ⟨hbytes, hempty⟩
        rw [hbytes, List.nil_append, ih, left_eq_zero hempty]
        refine iff_of_false ?_ ?_
        . rintro ⟨next, hfind, hnext⟩
          have := pos_of_find? hfind
          omega
        . rintro ⟨next, heq, hnext⟩
          cases heq
          exact hle hnext
    . rcases perform_of_nonpos (Int.not_lt.mp hpos) sb with ⟨hbytes, hsame⟩
      rw [hbytes, hsame, List.nil_append, ih, List.find?_cons_of_neg (by simpa using hpos)]

theorem returned_of_contents_nil {lengths : List Int} {sb : StringBuffer} (h : sb.contents = [])
    : returned lengths sb = [] := by
  by_contra hne
  rcases returned_ne_nil_iff.mp hne with ⟨next, hfind, hnext⟩
  have := pos_of_find? hfind
  rw [left_eq_zero h] at hnext
  omega

theorem head?_returned {lengths : List Int} {sb : StringBuffer} (h : returned lengths sb ≠ [])
    : (returned lengths sb).head? = sb.contents.head? := by
  induction lengths generalizing sb with
  | nil => exact absurd rfl h
  | cons length lengths ih =>
    rw [returned_cons] at h ⊢
    by_cases hnil : bytes (perform length sb).1 = []
    . rw [hnil, List.nil_append] at h ⊢
      by_cases hpos : 0 < length
      . -- nothing is left after such a read, so nothing would be returned
        have hlt : sb.left < length := by
          by_contra hle
          exact bytes_ne_nil hpos (by omega) hnil
        exact absurd (returned_of_contents_nil (perform_of_left_lt hlt).2) h
      . have hsame := (perform_of_nonpos (Int.not_lt.mp hpos) sb).2
        rw [hsame] at h ⊢
        exact ih h
    . rcases bytes_prefix length sb with ⟨behind, hcontents⟩
      rw [← hcontents, List.head?_append_of_ne_nil _ hnil, List.head?_append_of_ne_nil _ hnil]

theorem length_returned_add_left {lengths : List Int} {sb : StringBuffer}
    (h : ∀ os, .error (.osError os) ∉ (Machine.run perform lengths sb).1)
    : (returned lengths sb).length + (Machine.run perform lengths sb).2.left = sb.left := by
  induction lengths generalizing sb with
  | nil => exact Nat.zero_add _
  | cons length lengths ih =>
    rw [Machine.run_cons] at h ⊢
    have hrest := ih fun os hmem => h os (List.mem_cons_of_mem _ hmem)
    have hnot : ∀ os, (perform length sb).1 ≠ .error (.osError os) :=
      fun os heq => h os (heq ▸ List.mem_cons_self)
    rw [returned_cons, List.length_append, Nat.add_assoc, hrest]
    have hstep := perform_step length sb
    generalize perform length sb = result at *
    cases hstep with
    | negative hneg => exact Nat.zero_add _
    | held hnonneg hle =>
      simp only [bytes, left, contents, List.length_append, List.length_take, List.length_drop]
      have hunread : unreadChars { sb with received := sb.received.drop length.toNat }
          = sb.unreadChars := rfl
      rw [hunread]
      omega
    | @fresh taken after c k sb' hunread hpos hle hlength hunread' hreceived' =>
      rw [left, left, contents_of_unread hunread k, contents, hunread', hreceived', bytes]
      simp only [List.length_append, List.length_reverse]
    | short hlt hempty => exact absurd rfl (hnot _)

end StringBuffer

end Python

end McStatus
