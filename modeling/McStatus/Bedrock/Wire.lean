import McStatus.Library.BigEndian
import McStatus.Library.Numeral
import McStatus.Library.Split
import McStatus.Library.Text

/-!
This module contains the response of a Bedrock server: a byte, 32 more, and a text of fields with
semicolons between them behind its length.
-/

namespace McStatus

namespace Bedrock

structure Field where
  text : List Char
  ne_nil : text ≠ []
  sep_free : ';' ∉ text

abbrev Decimal := Numeral.Decimal UInt32.size

/-- The fields by their positions, as far as anything is read of them. -/
structure ServerInfo where
  brand : Field
  motd : Field
  protocol : Decimal
  version : Field
  online : Decimal
  max : Decimal
  field6 : Field
  field7 : Field
  field8 : Field
  more : List Field

def ServerInfo.fields (info : ServerInfo) : List (List Char) :=
  [
    info.brand.text, info.motd.text, info.protocol.digits, info.version.text, info.online.digits,
    info.max.digits, info.field6.text, info.field7.text, info.field8.text
  ] ++ info.more.map Field.text

def ServerInfo.text (info : ServerInfo) : List Char :=
  [';'].intercalate info.fields

structure Datagram where
  packet_id : UInt8
  padding : List UInt8
  length_padding : padding.length = 32
  info : ServerInfo
  info_fits : utf8Len info.text < 2 ^ 16
  trailing : List UInt8

namespace Datagram

def name_length (datagram : Datagram) : Nat :=
  utf8Len datagram.info.text

def body (datagram : Datagram) : List UInt8 :=
  datagram.padding ++ (BigEndian.encode 2 datagram.name_length
    ++ (Utf8.encode datagram.info.text ++ datagram.trailing))

def bytes (datagram : Datagram) : List UInt8 :=
  datagram.packet_id :: datagram.body

end Datagram

theorem sep_free_digits (number : Decimal) : ';' ∉ number.digits :=
  fun hmem => absurd (number.isDigit hmem) (by decide)

theorem ServerInfo.splitOn_text (info : ServerInfo) : info.text.splitOn ';' = info.fields := by
  apply List.splitOn_intercalate
  . simp [fields, Field.sep_free, sep_free_digits]
  . simp [fields]

namespace Datagram

theorem length_body (datagram : Datagram)
    : datagram.body.length = 34 + datagram.name_length + datagram.trailing.length := by
  simp only [body, List.length_append, length_padding, BigEndian.length_encode, Utf8.length_encode,
    name_length]
  omega

theorem drop_body (datagram : Datagram)
    : datagram.body.drop 32 = BigEndian.encode 2 datagram.name_length
        ++ (Utf8.encode datagram.info.text ++ datagram.trailing) :=
  List.drop_left' datagram.length_padding

theorem take_name_length (datagram : Datagram)
    : (datagram.body.drop 32).take 2 = BigEndian.encode 2 datagram.name_length := by
  rw [drop_body, List.take_left' (BigEndian.length_encode 2 _)]

theorem take_info (datagram : Datagram)
    : (datagram.body.drop 34).take datagram.name_length = Utf8.encode datagram.info.text := by
  have hdrop : datagram.body.drop 34 = (datagram.body.drop 32).drop 2 := by rw [List.drop_drop]
  have hlength : (Utf8.encode datagram.info.text).length = datagram.name_length :=
    Utf8.length_encode _
  rw [hdrop, drop_body, List.drop_left' (BigEndian.length_encode 2 _), List.take_left' hlength]

theorem decode_name_length (datagram : Datagram)
    : BigEndian.decode (BigEndian.encode 2 datagram.name_length) = datagram.name_length :=
  BigEndian.decode_encode_of_lt datagram.info_fits

end Datagram

end Bedrock

end McStatus
