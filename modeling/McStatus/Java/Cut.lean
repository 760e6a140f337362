import McStatus.Java.Wire

/-!
This module shows that a client which starts to read in the middle of a status never takes what is
left of it for a status.
-/

namespace McStatus

namespace Java

open Varint

/-- What a client reads as a status: a frame around an id and a text, which are numbered. -/
def ReadsAsStatus (bytes text : List UInt8) : Prop :=
  ∃ length id size extra, bytes = length ++ (id ++ (size ++ (text ++ extra)))
    ∧ Framed length ∧ value length = (id ++ (size ++ (text ++ extra))).length
    ∧ Framed id ∧ value id = 0
    ∧ Framed size ∧ value size = text.length

variable {status : StatusText} {past bytes rest text : List UInt8}

theorem zero_not_mem_text {s : List Char} (hne : s ≠ []) (hnul : '\x00' ∉ s)
    : 0 ∉ Java.text s := by
  have hpos : 0 < (Utf8.encode s).length := by
    rw [Utf8.length_encode, Nat.pos_iff_ne_zero, ne_eq, utf8Len_eq_zero_iff]
    exact hne
  rw [Java.text, List.mem_append, not_or]
  exact ⟨zero_not_mem_encode hpos, Utf8.zero_not_mem_encode hnul⟩

theorem eq_frame_of_readsAsStatus (hne : status.chars ≠ []) (hnul : '\x00' ∉ status.chars)
    (hsplit : past ++ (bytes ++ rest) = frame status.packet) (h : ReadsAsStatus bytes text)
    : past = [] ∧ bytes = frame status.packet ∧ text = Utf8.encode status.chars := by
  rcases h with ⟨length, id, size, extra, rfl, hlength, hvalue, hid, hzero, hsize, htext⟩
  rcases hid.of_value_eq_zero hzero with ⟨init, rfl⟩
  have hpos : 0 < status.packet.length := Nat.succ_pos _
  have hwhole : (past ++ length ++ init) ++ 0 :: (size ++ (text ++ extra) ++ rest)
      = encode status.packet.length ++ 0 :: Java.text status.chars := by
    rw [← StatusText.packet, ← frame, ← hsplit]
    simp only [List.append_assoc, List.cons_append, List.nil_append]
  have hleft : 0 ∉ encode status.packet.length := zero_not_mem_encode hpos
  have hright : 0 ∉ Java.text status.chars := zero_not_mem_text hne hnul
  rcases (List.append_cons_inj_of_notMem hleft hright).mp hwhole.symm with ⟨hhead, -, htail⟩
  have hframed := framed_encode status.packet.length
  rw [hhead] at hframed
  have hinit := hlength.eq_nil_of_append hframed
  subst hinit
  rw [Java.text, List.append_assoc] at htail
  rcases (framed_encode _).unique hsize htail with ⟨hsize_eq, htext_eq⟩
  have hlen : text.length = (Utf8.encode status.chars).length := by
    rw [← htext, ← hsize_eq, value_encode]
  rw [List.append_assoc] at htext_eq
  rcases List.append_inj (htext_eq.symm.trans (List.append_nil _).symm) hlen with ⟨htext', hextra⟩
  rcases List.append_eq_nil_iff.mp hextra with ⟨rfl, rfl⟩
  have hvalue_eq : value length = status.packet.length := by
    rw [hvalue, ← hsize_eq, htext', StatusText.packet, Java.text]
    simp
  have hpast : past = [] := by
    by_contra hpast
    have hgrow : value (past ++ length) = status.packet.length := by
      rw [List.append_nil] at hhead
      rw [← hhead, value_encode]
    have hpow : 128 ^ 1 ≤ 128 ^ past.length :=
      Nat.pow_le_pow_right (by decide) (List.length_pos_iff.mpr hpast)
    have hmul := Nat.mul_le_mul_right status.packet.length hpow
    rw [value_append, hvalue_eq] at hgrow
    omega
  subst hpast
  refine ⟨rfl, ?_, htext'⟩
  rw [List.append_nil] at hsplit
  exact hsplit

end Java

end McStatus
