import McStatus.Python.Java.Link

/-!
This module contains the replies to the attempts of a ping one after the other, and when the one to
an attempt cannot be mistaken, wherever in this stream the attempt starts to read.
-/

namespace McStatus

namespace Python

namespace JavaServer

def tokenOf (ping_token : Option Int) (random : Nat → RandomToken) (i : Nat) : Int :=
  ping_token.getD (random i).value

def repliesBefore (token : Nat → Int) (k : Nat) : List ReplyByte :=
  (List.range k).flatMap fun i => Link.reply i (pingPacket (token i))

/--
Before the attempt with number `k`, the replies to earlier attempts have all been received, or what
is left of them cannot be taken for the reply to this one.
-/
def ToldApart (token : Nat → Int) (k : Nat) (link : Link) : Prop :=
  link.received = repliesBefore token k
    ∨ ¬ ∃ bytes, ReadsAsReply (token k) bytes
          ∧ bytes <+: ((repliesBefore token (k + 1)).drop link.received.length).map ReplyByte.byte

theorem repliesBefore_succ (token : Nat → Int) (k : Nat)
    : repliesBefore token (k + 1)
        = repliesBefore token k ++ Link.reply k (pingPacket (token k)) := by
  rw [repliesBefore, List.range_succ, List.flatMap_append, List.flatMap_singleton]
  rfl

theorem frame_pingPacket (token : Int)
    : Java.frame (pingPacket token) = [9] ++ pingPacket token := by
  have hnine : Varint.encode 9 = [9] := by
    rw [Varint.encode, if_pos (by decide)]
    rfl
  rw [Java.frame, length_pingPacket, hnine]

theorem value_nine : Varint.value [9] = 9 := by
  rw [Varint.value_cons, Varint.value_nil]
  rfl

theorem eq_frame_of_readsAsReply {token : Int} {bytes : List UInt8} (h : ReadsAsReply token bytes)
    (hstart : bytes <+: Java.frame (pingPacket token)) : bytes = Java.frame (pingPacket token) := by
  rcases h with ⟨length, id, extra, rfl, hrange, hlen, -, -⟩
  rcases hstart with ⟨rest, hrest⟩
  rw [frame_pingPacket, List.append_assoc] at hrest
  rcases hrange.framed.unique (Varint.framed_singleton.mpr (by decide)) hrest with ⟨rfl, hpayload⟩
  have hempty : rest = [] := by
    have := congrArg List.length hpayload
    rw [List.length_append, ← hlen, value_nine, length_pingPacket] at this
    exact List.length_eq_zero_iff.mp (by omega)
  rw [hempty, List.append_nil] at hpayload
  rw [frame_pingPacket, hpayload]

/-- Up to the reply to the attempt `k`, the bytes of its token stand in one place only. -/
def OccursOnce (token : Nat → Int) (k : Nat) : Prop :=
  ∀ i < 10 * (k + 1),
    tokenBytes (token k) <+: ((repliesBefore token (k + 1)).map ReplyByte.byte).drop i →
      i = 10 * k + 2

theorem reply_eq_cons (k : Nat) (token : Int)
    : Link.reply k (pingPacket token)
        = ReplyByte.mk k 9 :: (pingPacket token).map (ReplyByte.mk k) := by
  rw [Link.reply, frame_pingPacket]
  rfl

theorem bytes_reply (k : Nat) (token : Int)
    : (Link.reply k (pingPacket token)).map ReplyByte.byte = [9, 1] ++ tokenBytes token := by
  rw [Link.reply, List.map_map, Function.comp_def, List.map_id', frame_pingPacket]
  rfl

theorem answers_lt_of_mem {token : Nat → Int} {k : Nat} {sent : ReplyByte}
    (h : sent ∈ repliesBefore token k) : sent.answers < k := by
  rcases List.mem_flatMap.mp h with ⟨i, hi, hsent⟩
  rcases List.mem_map.mp hsent with ⟨b, -, rfl⟩
  exact List.mem_range.mp hi

theorem length_repliesBefore (token : Nat → Int) (k : Nat)
    : (repliesBefore token k).length = 10 * k := by
  induction k with
  | zero => rfl
  | succ k ih =>
    have hreply := congrArg List.length (bytes_reply k (token k))
    rw [List.length_map, List.length_append, tokenBytes, BigEndian.length_encode] at hreply
    rw [repliesBefore_succ, List.length_append, ih, hreply]
    rfl

theorem framed_append_nine {init : List UInt8} (h : Varint.value (init ++ [9]) = 9)
    : init = [] := by
  cases init with
  | nil => rfl
  | cons b init =>
    have hpow : 1 ≤ 128 ^ init.length := Nat.pow_pos (by decide)
    rw [Varint.value_append, value_nine, List.length_cons, Nat.pow_succ] at h
    omega

theorem framed_concat_eq {front bytes back : List UInt8} {b : UInt8} (h : Varint.Framed bytes)
    (heq : front ++ bytes = back ++ [b])
    : ∃ init, bytes = init ++ [b] ∧ front ++ init = back ∧ ∀ c ∈ init, 128 ≤ c.toNat := by
  rcases h with ⟨init, last, rfl, hinit, -⟩
  rw [← List.append_assoc] at heq
  rcases List.append_inj' heq rfl with ⟨hback, hlast⟩
  cases hlast
  exact ⟨init, rfl, hback, hinit⟩

theorem framed_concat_concat_eq {front bytes back : List UInt8} {a b : UInt8}
    (h : Varint.Framed bytes) (ha : a.toNat < 128) (heq : front ++ bytes = back ++ [a] ++ [b])
    : bytes = [b] ∧ front = back ++ [a] := by
  rcases framed_concat_eq h heq with ⟨init, rfl, hfront, hinit⟩
  cases init using List.reverseRecOn with
  | nil =>
    rw [List.append_nil] at hfront
    exact ⟨rfl, hfront⟩
  | append_singleton init c =>
    rw [← List.append_assoc] at hfront
    rcases List.append_inj' hfront rfl with ⟨-, hc⟩
    cases hc
    have := hinit a (by simp)
    omega

theorem start_of_readsAsReply {token : Nat → Int} {k start : Nat}
    {stream length id extra rest : List UInt8}
    (hstream : stream
        = (repliesBefore token k).map ReplyByte.byte ++ [9] ++ [1] ++ tokenBytes (token k))
    (hplace : start + length.length + id.length = 10 * k + 2)
    (hread : stream.drop start = length ++ (id ++ (tokenBytes (token k) ++ extra)) ++ rest)
    (hlength : Varint.Framed length)
    (hvalue : Varint.value length = (id ++ (tokenBytes (token k) ++ extra)).length)
    (hid : Varint.Framed id) : start = 10 * k := by
  have htoken : (tokenBytes (token k)).length = 8 := BigEndian.length_encode 8 _
  have hbefore : ((repliesBefore token k).map ReplyByte.byte).length = 10 * k := by
    rw [List.length_map, length_repliesBefore]
  have hsplit : (stream.take start ++ length ++ id) ++ (tokenBytes (token k) ++ (extra ++ rest))
      = ((repliesBefore token k).map ReplyByte.byte ++ [9] ++ [1]) ++ tokenBytes (token k) := by
    rw [← hstream]
    calc
      stream.take start ++ length ++ id ++ (tokenBytes (token k) ++ (extra ++ rest))
      _ = stream.take start ++ (length ++ (id ++ (tokenBytes (token k) ++ extra)) ++ rest) := by
        simp only [List.append_assoc]
      _ = stream := by rw [← hread, List.take_append_drop]
  have hstart : (stream.take start).length = start := by
    rw [List.length_take, hstream]
    simp only [List.length_append, hbefore, List.length_singleton]
    omega
  have hfront : (stream.take start ++ length ++ id).length
      = ((repliesBefore token k).map ReplyByte.byte ++ [9] ++ [1]).length := by
    simp only [List.length_append, hbefore, hstart, List.length_singleton]
    omega
  rcases List.append_inj hsplit hfront with ⟨hfront, hback⟩
  have hextra : extra = [] := by
    have := congrArg List.length hback
    simp only [List.length_append] at this
    exact List.length_eq_zero_iff.mp (by omega)
  rcases framed_concat_concat_eq hid (by decide) hfront with ⟨rfl, hnine⟩
  rcases framed_concat_eq hlength hnine with ⟨init, rfl, hreplies, -⟩
  have hinit : init = [] := by
    apply framed_append_nine
    rw [hvalue, hextra]
    simp [htoken]
  rw [hinit, List.append_nil] at hreplies
  rw [← hstart, hreplies, hbefore]

theorem toldApart_of_occursOnce {token : Nat → Int} {k : Nat} {link : Link}
    (h : OccursOnce token k) (hbefore : link.received <+: repliesBefore token k)
    : ToldApart token k link := by
  by_contra hapart
  rw [ToldApart, not_or, not_not] at hapart
  rcases hapart with ⟨hsome, bytes, ⟨length, id, extra, rfl, hlength, hvalue, hid, -⟩, rest, hrest⟩
  have hstream : (repliesBefore token (k + 1)).map ReplyByte.byte
      = (repliesBefore token k).map ReplyByte.byte ++ [9] ++ [1] ++ tokenBytes (token k) := by
    rw [repliesBefore_succ, List.map_append, bytes_reply]
    simp
  have htoken : (tokenBytes (token k)).length = 8 := BigEndian.length_encode 8 _
  have hlen : ((repliesBefore token (k + 1)).map ReplyByte.byte).length = 10 * (k + 1) := by
    rw [List.length_map, length_repliesBefore]
  rw [List.map_drop] at hrest
  have hplace : link.received.length + length.length + id.length = 10 * k + 2 := by
    apply h
    . have := congrArg List.length hrest
      simp only [List.length_append, List.length_drop, hlen, htoken] at this
      omega
    . rw [Nat.add_assoc, ← List.drop_drop, ← hrest, ← List.drop_drop]
      simp only [List.append_assoc, List.drop_left]
      exact List.prefix_append _ _
  have hstart := start_of_readsAsReply hstream hplace hrest.symm hlength.framed hvalue hid.framed
  apply hsome
  apply hbefore.eq_of_length
  rw [hstart, length_repliesBefore]

theorem received_of_readsAsReply {token : Nat → Int} {k : Nat} {link : Link}
    {chunk : List ReplyByte}
    (hafter : link.received ++ chunk <+: repliesBefore token (k + 1))
    (hreads : ReadsAsReply (token k) (chunk.map ReplyByte.byte)) (hapart : ToldApart token k link)
    : chunk = Link.reply k (pingPacket (token k)) := by
  rcases hapart with hall | hnone
  . rw [hall, repliesBefore_succ, List.prefix_append_right_inj] at hafter
    have hbytes : chunk.map ReplyByte.byte <+: Java.frame (pingPacket (token k)) := by
      have := hafter.map ReplyByte.byte
      rwa [Link.reply, List.map_map, Function.comp_def, List.map_id'] at this
    have hlen := congrArg List.length (eq_frame_of_readsAsReply hreads hbytes)
    apply hafter.eq_of_length
    rw [List.length_map] at hlen
    rw [hlen, Link.reply, List.length_map]
  . exfalso
    apply hnone
    refine ⟨chunk.map ReplyByte.byte, hreads, List.IsPrefix.map ReplyByte.byte ?_⟩
    rcases hafter with ⟨rest, hrest⟩
    rw [← hrest, List.append_assoc, List.drop_left]
    exact List.prefix_append _ _

end JavaServer

end Python

end McStatus
