import McStatus.Python.Forge.Packing
import McStatus.Python.Io.Lemmas.Codec

/-!
This module contains the optimized mod data as a server writes it, and shows that `ForgeData.build`
returns the mods and the channels that were written.
-/

namespace McStatus

open Reader

namespace Python

open BaseSyncReader BaseSyncWriter

structure UtfString where
  chars : List Char
  fits : chars.length ≤ 32767
  deriving DecidableEq, Repr

/-- A channel as it is sent. The channels of a mod are sent without the id of the mod. -/
structure SentChannel where
  name : UtfString
  version : UtfString
  required : Bool
  deriving DecidableEq, Repr

/-- A mod as it is sent. It has no version when it is flagged as one that only the server needs. -/
structure SentMod where
  mod_id : UtfString
  version : Option UtfString
  channels : List SentChannel
  deriving DecidableEq, Repr

structure Sent where
  mods : List SentMod
  count_lt : mods.length < 65536
  channels : List SentChannel
  deriving DecidableEq, Repr

namespace SentChannel

def write (c : SentChannel) : Py Buffer Unit := do
  writeUtf c.name.chars
  writeUtf c.version.chars
  writeValue .bool c.required

def encode (c : SentChannel) : List UInt8 :=
  Java.text c.name.chars ++ (Java.text c.version.chars ++ [if c.required then 1 else 0])

def toChannel (mod_id : Option (List Char)) (c : SentChannel) : ForgeDataChannel where
  name :=
    match mod_id with
    | some mod_id => mod_id ++ ':' :: c.name.chars
    | none => c.name.chars
  version := c.version.chars
  required := c.required

end SentChannel

namespace SentMod

/-- The number of channels, and in the lowest bit whether only the server needs the mod. -/
def flags (m : SentMod) : Nat :=
  2 * m.channels.length + if m.version.isNone then 1 else 0

def writeVersion (version : Option UtfString) : Py Buffer Unit :=
  match version with
  | some version => writeUtf version.chars
  | none => pure ()

def write (m : SentMod) : Py Buffer Unit := do
  writeVarint m.flags
  writeUtf m.mod_id.chars
  writeVersion m.version
  m.channels.forM SentChannel.write

def encode (m : SentMod) : List UInt8 :=
  Varint.encode m.flags ++ (Java.text m.mod_id.chars
    ++ ((m.version.elim [] fun version => Java.text version.chars)
      ++ m.channels.flatMap SentChannel.encode))

def toMod (m : SentMod) : ForgeDataMod where
  name := m.mod_id.chars
  marker := m.version.elim ignoreServerOnly UtfString.chars

def toChannels (m : SentMod) : List ForgeDataChannel :=
  m.channels.map (SentChannel.toChannel (some m.mod_id.chars))

end SentMod

namespace Sent

/-- The layout `ForgeData.build` reads, written with the writers of a buffer. -/
def write (sent : Sent) : Py Buffer Unit := do
  writeValue .bool false
  writeValue .ushort (sent.mods.length : Nat)
  sent.mods.forM SentMod.write
  writeVarint (sent.channels.length : Nat)
  sent.channels.forM SentChannel.write

def encode (sent : Sent) : List UInt8 :=
  [0] ++ (BigEndian.encode 2 sent.mods.length ++ (sent.mods.flatMap SentMod.encode
    ++ (Varint.encode sent.channels.length ++ sent.channels.flatMap SentChannel.encode)))

def toData (sent : Sent) : ForgeData where
  fml_network_version := 1
  channels := sent.mods.flatMap SentMod.toChannels
    ++ sent.channels.map (SentChannel.toChannel none)
  mods := sent.mods.map SentMod.toMod
  truncated := false

def encodeFlagged (truncated : Bool) (sent : Sent) : List UInt8 :=
  [if truncated then 1 else 0]
    ++ (BigEndian.encode 2 sent.mods.length ++ (sent.mods.flatMap SentMod.encode
      ++ (Varint.encode sent.channels.length ++ sent.channels.flatMap SentChannel.encode)))

end Sent

section Write

theorem writes_forM {α : Type} {w : α → Py Buffer Unit} {encode : α → List UInt8} {xs : List α}
    (h : ∀ x ∈ xs, Writes (w x) (encode x)) : Writes (xs.forM w) (xs.flatMap encode) := by
  induction xs with
  | nil => exact Writes.pure
  | cons x xs ih =>
    rw [List.flatMap_cons]
    exact (h x List.mem_cons_self).bind (ih fun y hy => h y (List.mem_cons_of_mem x hy))

theorem pack_bool (value : Bool) : pack .bool value = .ok [if value then 1 else 0] := rfl

theorem pack_ushort {n : Nat} (h : n < 65536)
    : pack .ushort (n : Nat) = .ok (BigEndian.encode 2 n) := by
  have hrange : 0 ≤ (n : Int) ∧ (n : Int) < 2 ^ (8 * 2) := by
    constructor <;> omega
  simp only [pack, packUnsigned, hrange, and_self, ↓reduceIte, Int.toNat_natCast]

theorem SentChannel.writes (c : SentChannel) : Writes c.write c.encode :=
  (writes_writeUtf c.name.fits).bind
    ((writes_writeUtf c.version.fits).bind (writes_writeValue (pack_bool c.required)))

theorem SentChannel.length_le (cs : List SentChannel)
    : cs.length ≤ (cs.flatMap SentChannel.encode).length := by
  induction cs with
  | nil => simp
  | cons c cs ih =>
    simp only [List.flatMap_cons, SentChannel.encode, List.length_append, List.length_cons,
      List.length_nil] at ih ⊢
    omega

theorem SentMod.writes {m : SentMod} (h : m.encode.length < 2 ^ 30) : Writes m.write m.encode := by
  have hflags : m.flags < 2 ^ 31 := by
    have hle := SentChannel.length_le m.channels
    simp only [SentMod.encode, List.length_append] at h
    rw [SentMod.flags]
    split <;> omega
  have hversion : Writes (writeVersion m.version)
      (m.version.elim [] fun version => Java.text version.chars) := by
    cases m.version with
    | some version => exact writes_writeUtf version.fits
    | none => exact Writes.pure
  have hchannels := writes_forM fun c (_ : c ∈ m.channels) => c.writes
  exact (writes_writeVarint hflags).bind
    ((writes_writeUtf m.mod_id.fits).bind (hversion.bind hchannels))

theorem SentMod.length_encode_le {m : SentMod} {ms : List SentMod} (h : m ∈ ms)
    : m.encode.length ≤ (ms.flatMap SentMod.encode).length := by
  rcases List.append_of_mem h with ⟨front, back, rfl⟩
  simp only [List.flatMap_append, List.flatMap_cons, List.length_append]
  omega

theorem Sent.writes {sent : Sent} (h : sent.encode.length < 2 ^ 30)
    : Writes sent.write sent.encode := by
  simp only [Sent.encode, List.length_append] at h
  have hmods : Writes (sent.mods.forM SentMod.write) (sent.mods.flatMap SentMod.encode) := by
    apply writes_forM
    intro m hm
    have hle := SentMod.length_encode_le hm
    exact SentMod.writes (by omega)
  have hcount : sent.channels.length < 2 ^ 31 := by
    have := SentChannel.length_le sent.channels
    omega
  have hchannels := writes_forM fun c (_ : c ∈ sent.channels) => c.writes
  exact (writes_writeValue (pack_bool false)).bind
    ((writes_writeValue (pack_ushort sent.count_lt)).bind
      (hmods.bind ((writes_writeVarint hcount).bind hchannels)))

end Write

section Read

theorem unpack_bool (value : Bool)
    : unpack .bool [if value then 1 else 0] = .ok value := by
  cases value <;> rfl

theorem unpack_ushort {n : Nat} (h : n < 65536)
    : unpack .ushort (BigEndian.encode 2 n) = .ok (n : Int) := by
  have hbytes : BigEndian.encode 2 n = [UInt8.ofNat (n / 256 % 256), UInt8.ofNat (n % 256)] := rfl
  have hvalue : BigEndian.decode (BigEndian.encode 2 n) = n := by
    simp only [hbytes, BigEndian.decode, List.foldl_cons, List.foldl_nil, UInt8.toNat_ofNat']
    omega
  have hsize : ¬ ((BigEndian.encode 2 n).length ≠ StructFormat.ushort.standardSize) := by
    rw [BigEndian.length_encode]
    decide
  rw [unpack, if_neg hsize]
  simp only [unpackUnsigned, hvalue]

theorem SentChannel.consumes (c : SentChannel) (mod_id : Option (List Char))
    : Consumes Buffer.unreadView (ForgeDataChannel.decode mod_id) c.encode
        (c.toChannel mod_id) := by
  refine (consumes_readUtf c.name.fits).bind ?_
  refine (consumes_readUtf c.version.fits).bind ?_
  refine (consumes_readValue rfl (unpack_bool c.required)).bind_done ?_
  exact Consumes.pure _

theorem SentMod.consumes {m : SentMod} (h : m.encode.length < 2 ^ 30)
    : Consumes Buffer.unreadView ForgeDataMod.decode m.encode (m.toMod, m.toChannels) := by
  have hle := SentChannel.length_le m.channels
  simp only [SentMod.encode, List.length_append] at h
  have hflags : m.flags < 2 ^ 31 := by
    rw [SentMod.flags]
    split <;> omega
  have hcount : ((m.flags : Int) >>> 1).toNat = m.channels.length := by
    have hshift : ((m.flags : Int) >>> 1) = ((m.flags >>> 1 : Nat) : Int) := rfl
    rw [hshift, Int.toNat_natCast, Nat.shiftRight_eq_div_pow, SentMod.flags]
    split <;> omega
  have hserver : Int.land (m.flags : Int) versionFlagIgnoreServerOnly ≠ 0
      ↔ m.version.isNone := by
    have hland : Int.land (m.flags : Int) versionFlagIgnoreServerOnly
        = ((m.flags &&& 1 : Nat) : Int) := rfl
    rw [hland, Nat.and_one_is_mod, SentMod.flags]
    split
    . next hnone =>
      simp only [hnone, iff_true]
      omega
    . next hsome =>
      simp only [hsome, Bool.false_eq_true, iff_false]
      omega
  have hmarker : Consumes Buffer.unreadView
      (ForgeDataMod.readMarker
        (decide (Int.land (m.flags : Int) versionFlagIgnoreServerOnly ≠ 0)))
      (m.version.elim [] fun version => Java.text version.chars)
      (m.version.elim ignoreServerOnly UtfString.chars) := by
    simp only [ForgeDataMod.readMarker, decide_eq_true_eq, hserver]
    cases m.version with
    | some version => exact consumes_readUtf version.fits
    | none => exact Consumes.pure _
  have hchannels : Consumes Buffer.unreadView
      (listM m.channels.length (ForgeDataChannel.decode (some m.mod_id.chars)))
      (m.channels.flatMap SentChannel.encode) m.toChannels :=
    Consumes.listM fun c _ => c.consumes _
  refine (consumes_readVarint hflags).bind ?_
  refine (consumes_readUtf m.mod_id.fits).bind ?_
  refine hmarker.bind ?_
  rw [hcount]
  exact hchannels.bind_done (Consumes.pure _)

end Read

namespace ForgeData

/-- `build` from the buffer on, as it reads data that is not cut off: there is nothing to catch. -/
def buildUncut (fml_network_version : Int) : Py Locals ForgeData := do
  let truncated ← onBuffer (readValue .bool)
  let mod_count ← onBuffer (readValue .ushort)
  decodeLists mod_count
  let locals ← get
  return {
    fml_network_version := fml_network_version
    channels := locals.channels
    mods := locals.mods
    truncated := truncated
  }

def Full (payload : List UInt8) (data : ForgeData) : Prop :=
  ∃ locals, buildUncut 1 { buffer := Buffer.ofBytes payload } = .ok data locals
    ∧ locals.buffer.unreadView = []

def isFull (payload : List UInt8) (data : ForgeData) : Bool :=
  match buildUncut 1 { buffer := Buffer.ofBytes payload } with
  | .ok data' locals => data' = data ∧ locals.buffer.unreadView = []
  | .error _ _ => false

theorem isFull_iff {payload : List UInt8} {data : ForgeData}
    : isFull payload data = true ↔ Full payload data := by
  rw [isFull, Full]
  cases buildUncut 1 { buffer := Buffer.ofBytes payload } with
  | ok data' locals =>
    simp only [decide_eq_true_eq, EStateM.Result.ok.injEq]
    constructor
    . rintro ⟨rfl, hend⟩
      exact ⟨locals, ⟨rfl, rfl⟩, hend⟩
    . rintro ⟨_, ⟨rfl, rfl⟩, hend⟩
      exact ⟨rfl, hend⟩
  | error e locals => simp

instance (payload : List UInt8) (data : ForgeData) : Decidable (Full payload data) :=
  decidable_of_iff _ isFull_iff

theorem catchTruncated_of_ok {truncated : Bool} {x : Py Locals Unit} {locals locals' : Locals}
    (h : x locals = .ok () locals') : catchTruncated truncated x locals = .ok () locals' := by
  rw [catchTruncated, tryCatch_of_ok h]

theorem build_packChars_eq {payload : List UInt8} (h : payload.length < 2 ^ 30)
    : build { d := some (packChars payload) }
        =
      match buildOptimized 1 { buffer := Buffer.ofBytes payload } with
      | .ok data _ => .ok data
      | .error e _ => .error e := by
  simp only [build, decodeOptimized_packChars h]
  rfl

theorem build_of_full {payload : List UInt8} {data : ForgeData} (h : Full payload data)
    (hlen : payload.length < 2 ^ 30)
    : build { d := some (packChars payload) } = .ok data := by
  rcases h with ⟨locals, hrun, -⟩
  rw [buildUncut] at hrun
  rcases bind_eq_ok.mp hrun with ⟨truncated, start, hbool, hrun⟩
  rcases bind_eq_ok.mp hrun with ⟨mod_count, start', hcount, hrun⟩
  rcases bind_eq_ok.mp hrun with ⟨⟨⟩, locals', hlists, hdata⟩
  have hbuild : buildOptimized 1 { buffer := Buffer.ofBytes payload } = .ok data locals := by
    rw [buildOptimized, bind_of_ok hbool, bind_of_ok hcount,
      bind_of_ok (catchTruncated_of_ok hlists)]
    exact hdata
  rw [build_packChars_eq hlen, hbuild]

theorem onBuffer_of_consumes {α : Type} {x : Py Buffer α} {input rest : List UInt8} {a : α}
    {locals : Locals} (hx : Consumes Buffer.unreadView x input a)
    (h : locals.buffer.unreadView = input ++ rest)
    : ∃ buffer, onBuffer x locals = .ok a { locals with buffer := buffer }
        ∧ buffer.unreadView = rest := by
  rcases hx locals.buffer rest h with ⟨buffer, hrun, hview⟩
  refine ⟨buffer, ?_, hview⟩
  simp only [onBuffer, zoom, hrun]

theorem modStep_of_sent {m : SentMod} {rest : List UInt8} {locals : Locals}
    (hsize : m.encode.length < 2 ^ 30) (h : locals.buffer.unreadView = m.encode ++ rest)
    : ∃ buffer, modStep locals = .ok () (pushMod m.toMod m.toChannels
          { locals with buffer := buffer })
        ∧ buffer.unreadView = rest := by
  rcases onBuffer_of_consumes (SentMod.consumes hsize) h with ⟨buffer, hdecode, hview⟩
  refine ⟨buffer, ?_, hview⟩
  rw [modStep, bind_of_ok hdecode]
  rfl

theorem channelStep_of_sent {c : SentChannel} {rest : List UInt8} {locals : Locals}
    (h : locals.buffer.unreadView = c.encode ++ rest)
    : ∃ buffer, channelStep locals = .ok () (pushChannel (c.toChannel none)
          { locals with buffer := buffer })
        ∧ buffer.unreadView = rest := by
  rcases onBuffer_of_consumes (c.consumes none) h with ⟨buffer, hdecode, hview⟩
  refine ⟨buffer, ?_, hview⟩
  rw [channelStep, bind_of_ok hdecode, modify_apply]

theorem timesM_modStep {mods : List SentMod} {rest : List UInt8} {locals : Locals}
    (hsize : ∀ m ∈ mods, m.encode.length < 2 ^ 30)
    (h : locals.buffer.unreadView = mods.flatMap SentMod.encode ++ rest)
    : ∃ buffer, timesM mods.length modStep locals
          = .ok () {
            buffer := buffer
            channels := locals.channels ++ mods.flatMap SentMod.toChannels
            mods := locals.mods ++ mods.map SentMod.toMod
          }
        ∧ buffer.unreadView = rest := by
  induction mods generalizing locals with
  | nil =>
    refine ⟨locals.buffer, ?_, by simpa using h⟩
    simp [timesM]
  | cons m mods ih =>
    rw [List.flatMap_cons, List.append_assoc] at h
    rcases modStep_of_sent (hsize m List.mem_cons_self) h with ⟨buffer, hstep, hview⟩
    rcases @ih (pushMod m.toMod m.toChannels { locals with buffer := buffer })
      (fun n hn => hsize n (List.mem_cons_of_mem m hn)) hview with ⟨buffer', hrun, hview'⟩
    refine ⟨buffer', ?_, hview'⟩
    rw [List.length_cons, timesM, bind_of_ok hstep, hrun]
    simp [pushMod]

theorem timesM_channelStep {cs : List SentChannel} {rest : List UInt8} {locals : Locals}
    (h : locals.buffer.unreadView = cs.flatMap SentChannel.encode ++ rest)
    : ∃ buffer, timesM cs.length channelStep locals
          = .ok () {
            buffer := buffer
            channels := locals.channels ++ cs.map (SentChannel.toChannel none)
            mods := locals.mods
          }
        ∧ buffer.unreadView = rest := by
  induction cs generalizing locals with
  | nil =>
    refine ⟨locals.buffer, ?_, by simpa using h⟩
    simp [timesM]
  | cons c cs ih =>
    rw [List.flatMap_cons, List.append_assoc] at h
    rcases channelStep_of_sent h with ⟨buffer, hstep, hview⟩
    rcases @ih (pushChannel (c.toChannel none) { locals with buffer := buffer }) hview
      with ⟨buffer', hrun, hview'⟩
    refine ⟨buffer', ?_, hview'⟩
    rw [List.length_cons, timesM, bind_of_ok hstep, hrun]
    simp [pushChannel]

theorem decodeLists_of_sent {sent : Sent} {locals : Locals} (h : sent.encode.length < 2 ^ 30)
    (hview : locals.buffer.unreadView = sent.mods.flatMap SentMod.encode
      ++ (Varint.encode sent.channels.length ++ sent.channels.flatMap SentChannel.encode))
    : ∃ buffer, decodeLists (sent.mods.length : Nat) locals
        =
      .ok () {
        buffer := buffer
        channels := locals.channels ++ sent.mods.flatMap SentMod.toChannels
          ++ sent.channels.map (SentChannel.toChannel none)
        mods := locals.mods ++ sent.mods.map SentMod.toMod
      }
      ∧ buffer.unreadView = [] := by
  simp only [Sent.encode, List.length_append] at h
  have hmods : ∀ m ∈ sent.mods, m.encode.length < 2 ^ 30 := by
    intro m hm
    have := SentMod.length_encode_le hm
    omega
  have hcount : sent.channels.length < 2 ^ 31 := by
    have := SentChannel.length_le sent.channels
    omega
  rcases timesM_modStep hmods hview with ⟨buffer, hrun, hview'⟩
  rcases @onBuffer_of_consumes _ _ _ _ _ {
      buffer := buffer
      channels := locals.channels ++ sent.mods.flatMap SentMod.toChannels
      mods := locals.mods ++ sent.mods.map SentMod.toMod } (consumes_readVarint hcount) hview'
    with ⟨buffer', hread, hview''⟩
  rcases @timesM_channelStep sent.channels [] {
      buffer := buffer'
      channels := locals.channels ++ sent.mods.flatMap SentMod.toChannels
      mods := locals.mods ++ sent.mods.map SentMod.toMod } (by simpa using hview'')
    with ⟨buffer'', hrun', hend⟩
  refine ⟨buffer'', ?_, hend⟩
  rw [decodeLists, Int.toNat_natCast, bind_of_ok hrun, bind_of_ok hread, Int.toNat_natCast, hrun']

theorem full_encodeFlagged {sent : Sent} (truncated : Bool) (h : sent.encode.length < 2 ^ 30)
    : Full (sent.encodeFlagged truncated) { sent.toData with truncated := truncated } := by
  rcases @onBuffer_of_consumes _ _ _ _ _ { buffer := Buffer.ofBytes (sent.encodeFlagged truncated) }
    (consumes_readValue rfl (unpack_bool truncated)) rfl with ⟨buffer, hbool, hview⟩
  rcases @onBuffer_of_consumes _ _ _ _ _ { buffer := buffer }
    (consumes_readValue (BigEndian.length_encode 2 _) (unpack_ushort sent.count_lt)) hview
    with ⟨buffer', hcount, hview'⟩
  rcases @decodeLists_of_sent sent { buffer := buffer' } h hview' with ⟨buffer'', hlists, hend⟩
  refine ⟨{
      buffer := buffer''
      channels := sent.toData.channels
      mods := sent.toData.mods }, ?_, hend⟩
  rw [buildUncut, bind_of_ok hbool, bind_of_ok hcount, bind_of_ok hlists]
  rfl

theorem build_packChars {sent : Sent} (h : sent.encode.length < 2 ^ 30)
    : sent.write (Buffer.ofBytes []) = .ok () (Buffer.ofBytes sent.encode)
        ∧ build { d := some (packChars sent.encode) } = .ok sent.toData := by
  constructor
  . exact Sent.writes h (Buffer.ofBytes [])
  . exact build_of_full (full_encodeFlagged false h) h

/-- One mod with one channel, one mod that only the server needs, and one channel of no mod. -/
theorem build_packChars_twoMods
    : let jei : UtfString := { chars := "jei".toList, fits := by decide }
      let fml : UtfString := { chars := "fml".toList, fits := by decide }
      let main : UtfString := { chars := "main".toList, fits := by decide }
      let one : UtfString := { chars := "1".toList, fits := by decide }
      let channel : SentChannel := { name := main, version := one, required := true }
      let sent : Sent := {
        mods := [
          { mod_id := jei, version := some one, channels := [channel] },
          { mod_id := fml, version := none, channels := [] }
        ]
        count_lt := by decide
        channels := [channel]
      }
      sent.write (Buffer.ofBytes []) = .ok () (Buffer.ofBytes sent.encode)
        ∧ build { d := some (packChars sent.encode) } = .ok sent.toData :=
  build_packChars (by decide +kernel)

end ForgeData

end Python

end McStatus
