import McStatus.Python.Bedrock.Reply
import McStatus.Rust.Bedrock.Reply

/-!
This module shows when both parsers make the same of the response of a Bedrock server: they have the
map name and the gamemode the other way round, and Python limits the digits of a number.
-/

namespace McStatus

namespace Bedrock

structure Same (rust : Rust.BedrockStatusResponse) (python : Python.BedrockStatusResponse)
    : Prop where
  brand : rust.version.brand = some python.version.brand
  motd : ∃ raw, rust.motd.raw = .string raw ∧ python.motd.raw = .str raw
  protocol : rust.version.protocol.map (fun n => (n.toNat : Int)) = some python.version.protocol
  name : rust.version.name = some python.version.name
  online : (rust.players.online.toNat : Int) = python.players.online
  max : (rust.players.max.toNat : Int) = python.players.max
  map_name : rust.map_name = python.map_name
  gamemode : rust.gamemode = python.gamemode

def Agree (data : List UInt8) (latency : Float) : Prop :=
  ∃ rust python, Rust.BedrockClient.parseResponse data latency = .ok rust
    ∧ Python.BedrockClient.parseResponse data latency = .ok python ∧ Same rust python

theorem toNat_value (number : Decimal) : ((UInt32.ofNat number.value).toNat : Int) = number.value :=
  congrArg Int.ofNat (UInt32.toNat_ofNat_of_lt' number.value_lt)

theorem same_responseOf_iff (info : ServerInfo) (latency : Float)
    : Same (Rust.responseOf info latency) (Python.responseOf info latency)
        ↔ info.field7.text = info.field8.text := by
  constructor
  . intro h
    exact Option.some.inj h.gamemode
  . intro h
    exact {
      brand := rfl
      motd := ⟨_, rfl, rfl⟩
      protocol := congrArg some (toNat_value info.protocol)
      name := rfl
      online := toNat_value info.online
      max := toNat_value info.max
      map_name := congrArg some h.symm
      gamemode := congrArg some h
    }

theorem agree_iff (datagram : Datagram) (latency : Float)
    : (Agree datagram.bytes latency
          ↔ datagram.info.field7.text = datagram.info.field8.text ∧ Python.FewDigits datagram.info)
        ∧ ∀ data latency, (∃ response, Rust.BedrockClient.parseResponse data latency = .ok response)
          ∨ ∃ e, Rust.BedrockClient.parseResponse data latency = .error (.error e) := by
  have hrust := Rust.BedrockClient.parseResponse_bytes datagram latency
  have hpython := Python.BedrockClient.parseResponse_bytes datagram latency
  refine ⟨?_, fun data latency => ?_⟩
  . constructor
    . rintro ⟨rust, python, hrust', hpython', hsame⟩
      rw [hrust] at hrust'
      cases hrust'
      rw [hpython] at hpython'
      have hfew := Python.fewDigits_of_build hpython'
      rw [Python.build_fields latency hfew] at hpython'
      cases hpython'
      exact ⟨(same_responseOf_iff _ latency).mp hsame, hfew⟩
    . rintro ⟨hfields, hfew⟩
      rw [Python.build_fields latency hfew] at hpython
      exact ⟨_, _, hrust, hpython, (same_responseOf_iff _ latency).mpr hfields⟩
  . rw [Rust.returns_iff_ne_panic]
    exact Rust.BedrockClient.parseResponse_ne_panic data latency

def survivalInfo : ServerInfo where
  brand := ⟨"MCPE".toList, by decide, by decide⟩
  motd := ⟨"Gateway".toList, by decide, by decide⟩
  protocol := ⟨"422".toList, 422, by decide, by decide⟩
  version := ⟨"1.18".toList, by decide, by decide⟩
  online := ⟨"1".toList, 1, by decide, by decide⟩
  max := ⟨"69".toList, 69, by decide, by decide⟩
  field6 := ⟨"3767071975391053022".toList, by decide, by decide⟩
  field7 := ⟨"map name here".toList, by decide, by decide⟩
  field8 := ⟨"Default".toList, by decide, by decide⟩
  more := []

def survivalDatagram : Datagram where
  packet_id := 0x1C
  padding := List.replicate 32 0
  length_padding := by decide
  info := survivalInfo
  info_fits := by decide
  trailing := []

theorem not_agree_survivalDatagram
    : ¬ ∀ (datagram : Datagram) (latency : Float), Agree datagram.bytes latency := by
  intro h
  rcases h survivalDatagram 12.3 with ⟨rust, python, hrust, hpython, hsame⟩
  have hfew : Python.FewDigits survivalInfo := ⟨by decide, by decide, by decide⟩
  have hbuild := Python.build_fields 12.3 hfew
  rw [Rust.BedrockClient.parseResponse_bytes] at hrust
  rw [Python.BedrockClient.parseResponse_bytes] at hpython
  cases hrust
  cases hbuild.symm.trans hpython
  exact absurd ((same_responseOf_iff survivalInfo 12.3).mp hsame) (by decide)

end Bedrock

end McStatus
