import Mathlib.Data.Int.Bitwise
import McStatus.Library.Utf16
import McStatus.Python.Io.Buffer

/-!
This module contains the `_StringBuffer` of `mcstatus/responses/forge.py`, which reads the binary
data out of a string of UTF-16 code units.
-/

namespace McStatus

open Reader

namespace Python

/-- `_StringBuffer`: the text of the `StringIO`, its position, and bytes read too early. -/
structure StringBuffer where
  text : List Char
  tell : Nat
  received : List UInt8
  deriving DecidableEq, Repr

namespace StringBuffer

def ofString (string : List Char) : StringBuffer where
  text := string
  tell := 0
  received := []

/-- `while self.received and len(data) < length: data.append(self.received.pop(0))` -/
def takeReceived (length : Int) : Py StringBuffer (List UInt8) := do
  let sb ← get
  set { sb with received := sb.received.drop length.toNat }
  return sb.received.take length.toNat

def fillStep (length : Int) (data : List UInt8) : Py StringBuffer (List UInt8 ⊕ List UInt8) := do
  if data.length < length then
    let sb ← get
    match sb.text[sb.tell]? with
    | none => throw (.osError (.notEnough data.length length))
    | some result =>
      set { sb with tell := sb.tell + 1 }
      return .inl (data ++ Utf16.encodeChar result)
  else
    return .inr data

theorem fillStep_lt {length : Int} {data data' : List UInt8} {sb sb' : StringBuffer}
    (h : fillStep length data sb = .ok (.inl data') sb')
    : sb'.text.length - sb'.tell < sb.text.length - sb.tell := by
  unfold fillStep at h
  split at h
  . rcases bind_eq_ok.mp h with ⟨sb, t, hget, h⟩
    rw [get_apply, EStateM.Result.ok.injEq] at hget
    rcases hget with ⟨rfl, rfl⟩
    cases hc : sb.text[sb.tell]? with
    | none => simp [hc] at h
    | some c =>
      have hlt := (List.getElem?_eq_some_iff.mp hc).1
      simp only [hc] at h
      rcases bind_eq_ok.mp h with ⟨_, t, hset, h⟩
      rw [set_apply, EStateM.Result.ok.injEq] at hset
      rw [pure_apply, EStateM.Result.ok.injEq] at h
      rw [← h.2, ← hset.2]
      dsimp only
      omega
  . simp at h

def fill (length : Int) (data : List UInt8) : Py StringBuffer (List UInt8) :=
  loop (fun sb => sb.text.length - sb.tell) (fillStep length) (fun _ _ _ _ h => fillStep_lt h) data

/-- `while len(data) > length: self.received.append(data.pop())` -/
def putBack (length : Int) (data : List UInt8) : Py StringBuffer (List UInt8) := do
  modify fun sb => { sb with received := sb.received ++ (data.drop length.toNat).reverse }
  if length < 0 then
    throw .indexError
  else
    return data.take length.toNat

def read (length : Int) : Py StringBuffer (List UInt8) := do
  let data ← takeReceived length
  let data ← fill length data
  putBack length data

def remaining (sb : StringBuffer) : Nat :=
  sb.text.length - sb.tell + sb.received.length

theorem fill_of_le {length : Int} {data : List UInt8} (h : length ≤ data.length)
    (sb : StringBuffer) : fill length data sb = .ok data sb := by
  apply loop_break
  have hnot : ¬ ((data.length : Int) < length) := by omega
  rw [fillStep, if_neg hnot, pure_apply]

theorem fill_more {length : Int} {data : List UInt8} {sb : StringBuffer} {c : Char}
    (hc : sb.text[sb.tell]? = some c) (hlt : data.length < length)
    : fill length data sb
        = fill length (data ++ Utf16.encodeChar c) { sb with tell := sb.tell + 1 } := by
  have hstep : fillStep length data sb
      = .ok (.inl (data ++ Utf16.encodeChar c)) { sb with tell := sb.tell + 1 } := by
    have hget : (get : Py StringBuffer StringBuffer) sb = .ok sb sb := rfl
    rw [fillStep, if_pos hlt, bind_of_ok hget]
    simp only [hc]
    rfl
  rw [fill, loop_continue hstep]
  rfl

theorem fill_of_char {length : Int} {sb : StringBuffer} {c : Char}
    (hc : sb.text[sb.tell]? = some c) (hpos : 0 < length) (hle : length ≤ 2)
    : fill length [] sb = .ok (Utf16.encodeChar c) { sb with tell := sb.tell + 1 } := by
  have hlen := Utf16.length_encodeChar_bounds c
  rw [fill_more hc hpos, List.nil_append]
  exact fill_of_le (by omega) _

theorem fill_of_none {length : Int} {data : List UInt8} {sb : StringBuffer}
    (hc : sb.text[sb.tell]? = none) (hlt : data.length < length)
    : fill length data sb = .error (.osError (.notEnough data.length length)) sb := by
  apply loop_throw
  have hget : (get : Py StringBuffer StringBuffer) sb = .ok sb sb := rfl
  rw [fillStep, if_pos hlt, bind_of_ok hget]
  simp [hc]

theorem putBack_of_nonneg {length : Int} (h : 0 ≤ length) (data : List UInt8) (sb : StringBuffer)
    : putBack length data sb
        = .ok (data.take length.toNat)
          { sb with received := sb.received ++ (data.drop length.toNat).reverse } := by
  have hnot : ¬ (length < 0) := by omega
  rw [putBack, bind_of_ok (modify_apply _ _), if_neg hnot, pure_apply]

def available (sb : StringBuffer) : Nat :=
  sb.received.length + 4 * (sb.text.length - sb.tell)

theorem available_lt {sb sb' : StringBuffer} {data : List UInt8} (h : read 1 sb = .ok data sb')
    : sb'.available < sb.available := by
  rcases sb with ⟨text, tell, received⟩
  cases received with
  | cons b received =>
    have htake : takeReceived 1 { text := text, tell := tell, received := b :: received }
        = .ok [b] { text := text, tell := tell, received := received } := rfl
    have hfill := @fill_of_le 1 [b] (by simp) { text := text, tell := tell, received := received }
    rw [read, bind_of_ok htake, bind_of_ok hfill, putBack_of_nonneg (by decide),
      EStateM.Result.ok.injEq] at h
    rw [← h.2]
    simp [available]
  | nil =>
    have htake : takeReceived 1 { text := text, tell := tell, received := [] }
        = .ok [] { text := text, tell := tell, received := [] } := rfl
    rw [read, bind_of_ok htake] at h
    cases hc : text[tell]? with
    | none =>
      have hfill := @fill_of_none 1 [] { text := text, tell := tell, received := [] } hc (by decide)
      rw [bind_of_error hfill] at h
      simp at h
    | some c =>
      have hfill := @fill_of_char 1 { text := text, tell := tell, received := [] } c hc
        (by decide) (by decide)
      have hlt := (List.getElem?_eq_some_iff.mp hc).1
      have hlen := Utf16.length_encodeChar_bounds c
      rw [bind_of_ok hfill, putBack_of_nonneg (by decide), EStateM.Result.ok.injEq] at h
      rw [← h.2]
      simp only [available, List.nil_append, List.length_reverse, List.length_drop,
        List.length_nil]
      omega

end StringBuffer

instance : BaseSyncReader StringBuffer where
  read := StringBuffer.read
  available := StringBuffer.available
  available_lt := StringBuffer.available_lt

end Python

end McStatus
