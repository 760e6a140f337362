import McStatus.Library.BigEndian
import McStatus.Library.Datagrams
import McStatus.Library.NulText
import McStatus.Library.Numeral
import McStatus.Library.TwosComplement

/-!
This module contains a server of the query protocol: it gives out challenge tokens, and answers a
request for its status only where it has the last of them in it.
-/

namespace McStatus

namespace Query

structure Gs4 where
  token : Nat → Int
  stat : List UInt8
  token_valid : ∀ n, TwosComplement.InRange 32 (token n)
  stat_fits : stat.length + 5 ≤ 65507

inductive Request where
  | challenge (session_id : List UInt8)
  | stat (session_id token : List UInt8)
  deriving DecidableEq, Repr

def challengeRequest (session_id : List UInt8) : List UInt8 :=
  [0xFE, 0xFD, 9] ++ session_id

def statRequest (session_id token : List UInt8) : List UInt8 :=
  [0xFE, 0xFD, 0] ++ session_id ++ token ++ [0, 0, 0, 0]

def Request.read? (packet : List UInt8) : Option Request :=
  match packet with
  | magic :: magic' :: kind :: rest =>
    if magic = 0xFE ∧ magic' = 0xFD then
      if kind = 9 ∧ rest.length = 4 then
        some (.challenge rest)
      else if kind = 0 ∧ rest.length = 12 then
        some (.stat (rest.take 4) ((rest.drop 4).take 4))
      else
        none
    else
      none
  | _ => none

namespace Gs4

variable (gs4 : Gs4)

def tokenBytes (n : Nat) : List UInt8 :=
  BigEndian.encode 4 (gs4.token n % 2 ^ 32).toNat

def challengeReply (session_id : List UInt8) (n : Nat) : List UInt8 :=
  9 :: (session_id ++ (Latin1.encode (Numeral.decimal (gs4.token n)) ++ [0]))

def statReply (session_id : List UInt8) : List UInt8 :=
  0 :: (session_id ++ gs4.stat)

/-- The state of the server is how many tokens it has given out. -/
def server : Datagrams.Server Nat (List UInt8) := fun given packet =>
  match Request.read? packet with
  | some (.challenge session_id) => (given + 1, [gs4.challengeReply session_id given])
  | some (.stat session_id token) =>
    if given ≠ 0 ∧ token = gs4.tokenBytes (given - 1) then
      (given, [gs4.statReply session_id])
    else
      (given, [])
  | none => (given, [])

end Gs4

variable {gs4 : Gs4} {session_id token : List UInt8}

theorem read?_challengeRequest (h : session_id.length = 4)
    : Request.read? (challengeRequest session_id) = some (.challenge session_id) := by
  rw [challengeRequest, List.cons_append, List.cons_append, List.cons_append, List.nil_append,
    Request.read?, if_pos ⟨rfl, rfl⟩, if_pos ⟨rfl, h⟩]

theorem read?_statRequest (h : session_id.length = 4) (htoken : token.length = 4)
    : Request.read? (statRequest session_id token) = some (.stat session_id token) := by
  have hlen : (session_id ++ (token ++ [0, 0, 0, 0])).length = 12 := by simp [h, htoken]
  rw [statRequest, List.append_assoc, List.append_assoc, List.cons_append, List.cons_append,
    List.cons_append, List.nil_append, Request.read?, if_pos ⟨rfl, rfl⟩, if_neg (by simp),
    if_pos ⟨rfl, hlen⟩, List.take_left' h, List.drop_left' h, List.take_left' htoken]

theorem length_decimal_le {n : Int} (h : TwosComplement.InRange 32 n)
    : (Numeral.decimal n).length ≤ 11 := by
  have habs : n.natAbs < 10 ^ 10 := by
    rcases h with ⟨hmin, hmax⟩
    omega
  have hdigits : (Nat.toDigits 10 n.natAbs).length ≤ 10 :=
    (Nat.length_toDigits_le_iff (by decide) (by decide)).mpr habs
  rw [Numeral.decimal]
  split
  . rw [List.length_cons]
    omega
  . omega

theorem length_challengeReply_le (h : session_id.length = 4) (n : Nat)
    : (gs4.challengeReply session_id n).length ≤ 17 := by
  have := length_decimal_le (gs4.token_valid n)
  rw [Gs4.challengeReply, Latin1.encode]
  simp only [List.length_cons, List.length_append, List.length_map, List.length_nil, h]
  omega

theorem eq_challengeReply_of_brings {reply : List UInt8} (h : session_id.length = 4)
    (hbrings : Datagrams.Brings gs4.server 0 [challengeRequest session_id] reply)
    : ∃ n, reply = gs4.challengeReply session_id n := by
  rcases hbrings with ⟨given, packet, -, hmem, hreply⟩
  rw [List.mem_singleton] at hmem
  rw [hmem, Gs4.server, read?_challengeRequest h] at hreply
  exact ⟨given, List.mem_singleton.mp hreply⟩

theorem eq_reply_of_brings {session_id' reply : List UInt8} (h : session_id.length = 4)
    (h' : session_id'.length = 4) (htoken : token.length = 4)
    (hbrings : Datagrams.Brings gs4.server 0
      [challengeRequest session_id, statRequest session_id' token] reply)
    : (∃ n, reply = gs4.challengeReply session_id n) ∨ reply = gs4.statReply session_id' := by
  rcases hbrings with ⟨given, packet, -, hmem, hreply⟩
  simp only [List.mem_cons, List.not_mem_nil, or_false] at hmem
  rcases hmem with rfl | rfl
  . rw [Gs4.server, read?_challengeRequest h] at hreply
    exact Or.inl ⟨given, List.mem_singleton.mp hreply⟩
  . rw [Gs4.server, read?_statRequest h' htoken] at hreply
    dsimp only at hreply
    split at hreply
    . exact Or.inr (List.mem_singleton.mp hreply)
    . cases hreply

theorem toNat_of_mem_decimal {n : Int} {c : Char} (h : c ∈ Numeral.decimal n)
    : 1 ≤ c.toNat ∧ c.toNat < 0x80 := by
  rcases Numeral.mem_decimal h with rfl | hdigit
  . decide
  . have := Numeral.toNat_of_isDigit hdigit
    omega

theorem fits_decimal (n : Int) : Latin1.Fits (Numeral.decimal n) := by
  intro c hc
  have := (toNat_of_mem_decimal hc).2
  omega

theorem zero_not_mem_decimal (n : Int) : 0 ∉ Latin1.encode (Numeral.decimal n) :=
  Latin1.zero_not_mem_encode (fits_decimal n) fun _ hc => (toNat_of_mem_decimal hc).1

end Query

end McStatus
