import McStatus.Library.BigEndian
import McStatus.Library.Text
import McStatus.Library.TwosComplement
import McStatus.Library.Varint

/-!
This module contains the packets of the Java Edition status protocol, as both sides of it have to
write them. Both clients of the repository are compared with it.
-/

namespace McStatus

namespace Java

def frame (packet : List UInt8) : List UInt8 :=
  Varint.encode packet.length ++ packet

def text (s : List Char) : List UInt8 :=
  Varint.encode (Utf8.encode s).length ++ Utf8.encode s

structure Handshake where
  version : Int
  host : List Char
  port : Nat
  version_valid : TwosComplement.InRange 32 version
  host_valid : host.length ≤ 32767
  port_valid : port < 65536

def Handshake.packet (handshake : Handshake) : List UInt8 :=
  0 :: (Varint.encode (handshake.version % 2 ^ 32).toNat
    ++ (text handshake.host ++ (BigEndian.encode 2 handshake.port ++ [1])))

def statusRequest : List UInt8 :=
  [0]

structure StatusText where
  chars : List Char
  limit : chars.length ≤ 32767

def StatusText.packet (status : StatusText) : List UInt8 :=
  0 :: text status.chars

def pingPacket (token : Nat) : List UInt8 :=
  1 :: BigEndian.encode 8 token

def takeFrame (bytes : List UInt8) : Option (List UInt8 × List UInt8) := do
  let (length, rest) ← Varint.take? 5 bytes
  if length ≤ rest.length then some (rest.take length, rest.drop length) else none

def takeText (bytes : List UInt8) : Option (List Char × List UInt8) := do
  let (length, rest) ← Varint.take? 5 bytes
  if length ≤ rest.length then
    return (← Utf8.decode? (rest.take length), rest.drop length)
  else
    none

def Handshake.new? (version : Int) (host : List Char) (port : Nat) : Option Handshake :=
  if h : TwosComplement.InRange 32 version ∧ host.length ≤ 32767 ∧ port < 65536 then
    some {
      version, host, port
      version_valid := h.1
      host_valid := h.2.1
      port_valid := h.2.2
    }
  else
    none

def Handshake.read? (packet : List UInt8) : Option Handshake := do
  match packet with
  | 0 :: rest =>
    let (form, rest) ← Varint.take? 5 rest
    let (host, rest) ← takeText rest
    match rest with
    | [high, low, 1] =>
      Handshake.new? (TwosComplement.decode 32 form) host (BigEndian.decode [high, low])
    | _ => none
  | _ => none

theorem two_pow_31_lt : 2 ^ 31 < 128 ^ 5 := by decide

theorem takeFrame_frame {packet : List UInt8} (h : packet.length < 2 ^ 31) (rest : List UInt8)
    : takeFrame (frame packet ++ rest) = some (packet, rest) := by
  have htake := Varint.take?_encode (by decide) (h.trans two_pow_31_lt) (packet ++ rest)
  have hle : packet.length ≤ (packet ++ rest).length := by simp
  rw [takeFrame, frame, List.append_assoc, htake, Option.bind_eq_bind, Option.bind_some]
  dsimp only
  rw [if_pos hle, List.take_left, List.drop_left]

theorem length_encode_le {s : List Char} (h : s.length ≤ 32767)
    : (Utf8.encode s).length ≤ 131068 := by
  have := utf8Len_le s
  rw [Utf8.length_encode]
  omega

theorem takeText_text {s : List Char} (h : s.length ≤ 32767) (rest : List UInt8)
    : takeText (text s ++ rest) = some (s, rest) := by
  have hlen : (Utf8.encode s).length < 128 ^ 5 :=
    Nat.lt_of_le_of_lt (length_encode_le h) (by decide)
  have htake := Varint.take?_encode (by decide) hlen (Utf8.encode s ++ rest)
  have hle : (Utf8.encode s).length ≤ (Utf8.encode s ++ rest).length := by simp
  rw [takeText, text, List.append_assoc, htake, Option.bind_eq_bind, Option.bind_some]
  dsimp only
  rw [if_pos hle, List.take_left, List.drop_left, Utf8.decode?_encode]
  rfl

theorem length_text_le {s : List Char} (h : s.length ≤ 32767) : (text s).length ≤ 131071 := by
  have hbytes := length_encode_le h
  have hlen := Varint.length_encode_le (k := 3) (by decide)
    (Nat.lt_of_le_of_lt hbytes (by decide : 131068 < 128 ^ 3))
  rw [text, List.length_append]
  omega

theorem Handshake.new?_self (handshake : Handshake)
    : Handshake.new? handshake.version handshake.host handshake.port = some handshake :=
  dif_pos ⟨handshake.version_valid, handshake.host_valid, handshake.port_valid⟩

theorem encode_two (n : Nat)
    : BigEndian.encode 2 n = [UInt8.ofNat (n / 256 % 256), UInt8.ofNat (n % 256)] := rfl

theorem form_lt (version : Int) : (version % 2 ^ 32).toNat < 128 ^ 5 := by
  have hmod : version % 2 ^ 32 < 2 ^ 32 := Int.emod_lt_of_pos _ (by decide)
  have hpow : (2 : Nat) ^ 32 < 128 ^ 5 := by decide
  omega

theorem Handshake.read?_packet (handshake : Handshake)
    : Handshake.read? handshake.packet = some handshake := by
  have hversion : TwosComplement.decode 32 (handshake.version % 2 ^ 32).toNat
      = handshake.version := by
    have hnonneg : 0 ≤ handshake.version % 2 ^ 32 := Int.emod_nonneg _ (by decide)
    have hback := (@TwosComplement.inRange_and_eq_emod_iff 32 _ _ (by decide)).mp
      ⟨handshake.version_valid, rfl⟩
    rw [Int.toNat_of_nonneg hnonneg, ← hback.2]
  have hport : BigEndian.decode [UInt8.ofNat (handshake.port / 256 % 256),
      UInt8.ofNat (handshake.port % 256)] = handshake.port := by
    rw [← encode_two]
    exact BigEndian.decode_encode_of_lt handshake.port_valid
  rw [packet, read?]
  dsimp only
  rw [Varint.take?_encode (by decide) (form_lt handshake.version), Option.bind_eq_bind,
    Option.bind_some, takeText_text handshake.host_valid, Option.bind_eq_bind, Option.bind_some,
    encode_two]
  dsimp only [List.cons_append, List.nil_append]
  rw [hversion]
  have hnew := handshake.new?_self
  rw [← hport] at hnew
  exact hnew

theorem Handshake.length_packet_le (handshake : Handshake) : handshake.packet.length < 2 ^ 31 := by
  have hhost := length_text_le handshake.host_valid
  have hversion := Varint.length_encode_le (k := 5) (by decide) (form_lt handshake.version)
  rw [packet, List.length_cons, List.length_append, List.length_append, List.length_append,
    BigEndian.length_encode, List.length_singleton]
  omega

end Java

end McStatus
