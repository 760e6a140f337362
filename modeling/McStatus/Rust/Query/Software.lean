import McStatus.Python.Query.Software
import McStatus.Rust.Query.Response
import McStatus.Rust.Query.RoundTrip

/-!
This module follows the software of a server from the packet to the response. The packet parser
stores the version in one field of the raw response, and the builder reads it from another one.
-/

namespace McStatus

open Fallible
open Query

namespace Rust

theorem isSpace_of_isWhitespace (c : Char) (hc : c.toNat < 0x80) (h : isWhitespace c = true)
    : isSpace c = true := by
  have hall : ∀ n < 0x80, isWhitespace (Char.ofNat n) = true → isSpace (Char.ofNat n) = true := by
    decide
  rw [← Char.ofNat_toNat c] at h ⊢
  exact hall c.toNat hc h

theorem takeWhile_append_colon {s : List Char} (h : ':' ∉ s) (t : List Char)
    : (s ++ ':' :: t).takeWhile (· != ':') = s
      ∧ (s ++ ':' :: t).dropWhile (· != ':') = ':' :: t := by
  have hall : ∀ c ∈ s, (c != ':') = true := by
    intro c hc
    simpa using ne_of_mem_of_not_mem hc h
  rw [List.takeWhile_append_of_pos hall, List.dropWhile_append_of_pos hall]
  simp

theorem parsePlugins_pluginsLine (brand : Word ':') (plugins : List (Word ';'))
    : parsePlugins (pluginsLine brand plugins) = (some brand.chars, plugins.map Word.chars) := by
  rw [parsePlugins]
  by_cases hnil : plugins = []
  . rw [pluginsLine, if_pos hnil, if_neg brand.sep_free, hnil]
    rfl
  . have hcolon : ':' ∈ pluginsLine brand plugins := by
      simp [pluginsLine, hnil]
    have hkept : (plugins.map Word.chars).filter (fun name => !name.isEmpty)
        = plugins.map Word.chars := by
      rw [List.filter_eq_self]
      intro name hname
      rcases List.mem_map.mp hname with ⟨w, _, rfl⟩
      simpa using w.ne_nil
    rw [if_pos hcolon, pluginsLine, if_neg hnil, (takeWhile_append_colon brand.sep_free _).1,
      (takeWhile_append_colon brand.sep_free _).2]
    dsimp only
    have hmap := map_strip_splitOn plugins hnil isSpace_of_isWhitespace rfl
    have hbrand := brand.strip_chars isSpace_of_isWhitespace
    have htrim : trim = strip isWhitespace := rfl
    rw [htrim, hbrand, if_neg (by simpa using brand.ne_nil), List.drop_one, List.tail_cons, hmap,
      hkept]

section Version

open QueryClient

theorem assign_software (raw : RawQueryResponse) (key value : List Char)
    : (assign raw key value).software = raw.software := by
  unfold assign
  repeat' split
  all_goals rfl

theorem keyValueStep_software {body : List UInt8} {raw : RawQueryResponse} {pos : Nat}
    {next : (RawQueryResponse × Nat) ⊕ (RawQueryResponse × Nat)}
    (h : keyValueStep body (raw, pos) = .ok next)
    : (next.elim id id).1.software = raw.software := by
  have hspec := keyValueStep_spec body raw pos
  rw [h] at hspec
  generalize body.drop pos = s at hspec
  cases hspec with
  | nil => rfl
  | done => rfl
  | hostname =>
    dsimp only [Sum.elim_inl, id]
    split <;> rfl
  | pair => exact assign_software raw _ _

theorem parseResponse_software {data : List UInt8} {raw : RawQueryResponse}
    {players : List (List Char)} (h : parseResponse data = .ok (raw, players))
    : raw.software = none := by
  unfold parseResponse at h
  dsimp only at h
  split at h
  . cases h
  rcases bind_eq_ok.mp h with ⟨body, _, h⟩
  rcases bind_eq_ok.mp h with ⟨⟨raw', pos⟩, hrun, h⟩
  rcases bind_eq_ok.mp h with ⟨names, _, h⟩
  cases h
  refine Loop.run_ok (fun state : RawQueryResponse × Nat => state.1.software = none)
    (fun state : RawQueryResponse × Nat => state.1.software = none) ?_ ?_ rfl hrun
  . rintro ⟨raw, pos⟩ out hraw hstep
    exact (keyValueStep_software hstep).trans hraw
  . rintro ⟨raw, pos⟩ next hraw hstep
    exact (keyValueStep_software hstep).trans hraw

/-- The version that was sent is in the raw response, and the builder does not look there. -/
def SoftwareSurvives (data : List UInt8) (version : List Char) (brand : Word ':')
    (plugins : List (Word ';')) : Prop :=
  ∃ raw players, parseResponse data = .ok (raw, players)
    ∧ (QueryResponse.build raw players).software = some {
      version := some version
      brand := some brand.chars
      plugins := plugins.map Word.chars
    }

structure SoftwarePacket where
  header : Vector UInt8 9
  stat : Stat
  order : Order
  players : PlayerSection
  hostname_not_last : order.keys.getLast? ≠ some .hostname
  ascii : ∀ k, (stat.values k).Ascii
  brand : Word ':'
  plugins : List (Word ';')
  plugins_eq : stat.plugins.bytes = Latin1.encode (pluginsLine brand plugins)

namespace SoftwarePacket

def bytes (packet : SoftwarePacket) : List UInt8 :=
  encodePacket packet.header (encodeBody packet.stat.values packet.order packet.players)

def version (packet : SoftwarePacket) : List Char :=
  Latin1.decode packet.stat.version.bytes

end SoftwarePacket

theorem build_of_softwarePacket (packet : SoftwarePacket)
    : ∃ raw players, parseResponse packet.bytes = .ok (raw, players)
        ∧ raw.version = some packet.version
        ∧ (QueryResponse.build raw players).software = some {
          version := none
          brand := some packet.brand.chars
          plugins := packet.plugins.map Word.chars
        }
        ∧ Python.QuerySoftware.build packet.version (pluginsLine packet.brand packet.plugins) = {
          version := packet.version
          brand := packet.brand.chars
          plugins := packet.plugins.map Word.chars
        } := by
  rcases parseResponse_encodeBody packet.ascii packet.header packet.players
    packet.hostname_not_last with ⟨names, hparse⟩
  have hplugins : packet.stat.raw.plugins = some (pluginsLine packet.brand packet.plugins) := by
    have hfits : Latin1.Fits (pluginsLine packet.brand packet.plugins) :=
      fun c hc => Nat.lt_trans (sendable_pluginsLine _ _ c hc).2 (by decide)
    rw [Stat.raw, packet.plugins_eq, Latin1.decode_encode hfits]
  refine ⟨packet.stat.raw, names, hparse, rfl, ?_, Python.QuerySoftware.build_pluginsLine _ _ _⟩
  rw [QueryResponse.build, hplugins, Option.map_some, parsePlugins_pluginsLine]
  rfl

theorem software_loses_version (data : List UInt8) (version : List Char) (brand : Word ':')
    (plugins : List (Word ';')) : ¬ SoftwareSurvives data version brand plugins := by
  rintro ⟨raw, players, hparse, hbuild⟩
  have hversion : ((QueryResponse.build raw players).software.bind (·.version)) = none := by
    rw [QueryResponse.build, parseResponse_software hparse]
    dsimp only
    split <;> rfl
  rw [hbuild] at hversion
  cases hversion

def paper : Word ':' where
  chars := "Paper on 1.21.4".toList
  ne_nil := by decide
  sendable := sendable_of_all (by decide)
  sep_free := by decide
  head := by
    rintro _ ⟨⟩
    decide
  last := by
    rintro _ ⟨⟩
    decide

def paperStat : Stat :=
  {
    accentedMap with
    version := { bytes := Latin1.encode "1.21.4".toList, nulFree := by decide }
    plugins := { bytes := Latin1.encode "Paper on 1.21.4".toList, nulFree := by decide }
    map := { bytes := Latin1.encode "world".toList, nulFree := by decide }
  }

def paperPacket : SoftwarePacket where
  header := Vector.replicate 9 0
  stat := paperStat
  order := { keys := Key.all, perm := .refl _ }
  players := noPlayers
  hostname_not_last := by decide
  ascii := by
    intro k
    cases k <;> decide
  brand := paper
  plugins := []
  plugins_eq := rfl

/-- The version of a server without plugins, `1.21.4`, is missing from the response. -/
theorem software_of_paperPacket
    : (parseResponse paperPacket.bytes).map (fun r => (QueryResponse.build r.1 r.2).software)
          = .ok (some { version := none, brand := some "Paper on 1.21.4".toList, plugins := [] })
        ∧ ¬ ∀ packet : SoftwarePacket,
          SoftwareSurvives packet.bytes packet.version packet.brand packet.plugins := by
  rcases build_of_softwarePacket paperPacket with ⟨raw, players, hparse, _, hbuild, _⟩
  constructor
  . rw [hparse, Except.map, hbuild]
    rfl
  . intro h
    rcases h paperPacket with ⟨raw', players', hparse', hbuild'⟩
    rw [hparse] at hparse'
    cases hparse'
    rw [hbuild] at hbuild'
    cases hbuild'

end Version

end Rust

end McStatus
