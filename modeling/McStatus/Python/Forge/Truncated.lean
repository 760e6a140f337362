import McStatus.Library.Logged
import McStatus.Python.Forge.RoundTrip

/-!
This module contains what `ForgeData.build` makes of optimized mod data that is cut off.
-/

namespace McStatus

open Reader

namespace Python

open BaseSyncReader

theorem ForgeDataChannel.delimited_decode (mod_id : Option (List Char))
    : Delimited Buffer.unreadView Exception.IsOSError (decode mod_id) := by
  refine Delimited.bind delimited_readUtf fun channel_identifier => ?_
  refine Delimited.bind delimited_readUtf fun version => ?_
  refine Delimited.bind (delimited_readValue .bool) fun client_required => ?_
  exact Delimited.pure _

theorem ForgeDataMod.delimited_readMarker (is_server : Bool)
    : Delimited Buffer.unreadView Exception.IsOSError (readMarker is_server) :=
  Delimited.ite delimited_readUtf (Delimited.pure _)

theorem ForgeDataMod.delimited_decode
    : Delimited Buffer.unreadView Exception.IsOSError decode := by
  refine Delimited.bind delimited_readVarint fun channel_version_flags => ?_
  refine Delimited.bind delimited_readUtf fun mod_id => ?_
  refine Delimited.bind (delimited_readMarker _) fun mod_version => ?_
  refine Delimited.bind (Delimited.listM (ForgeDataChannel.delimited_decode _) _) fun channels => ?_
  exact Delimited.pure _

namespace ForgeData

/-- The mods and channels that are in the lists, ordered by what can still be added to them. -/
structure Decoded where
  mods : List ForgeDataMod
  channels : List ForgeDataChannel

instance : Preorder Decoded where
  le d d' := d.mods <+: d'.mods ∧ d.channels <+: d'.channels
  le_refl d := ⟨List.prefix_refl _, List.prefix_refl _⟩
  le_trans _ _ _ h h' := ⟨h.1.trans h'.1, h.2.trans h'.2⟩

namespace Locals

def unreadView (locals : Locals) : List UInt8 :=
  locals.buffer.unreadView

def decoded (locals : Locals) : Decoded where
  mods := locals.mods
  channels := locals.channels

end Locals

theorem logged_onBuffer {α : Type} {x : Py Buffer α}
    (hx : Delimited Buffer.unreadView Exception.IsOSError x)
    : Logged Locals.unreadView Locals.decoded Exception.IsOSError (onBuffer x) :=
  hx.logged (fun _ => rfl) (fun _ _ => rfl) (fun _ _ => rfl)

theorem logged_modStep
    : Logged Locals.unreadView Locals.decoded Exception.IsOSError modStep := by
  refine Logged.bind (logged_onBuffer ForgeDataMod.delimited_decode) ?_
  intro ⟨mod, mod_channels⟩
  apply Logged.modify
  . intro locals
    rfl
  . intro locals
    exact ⟨List.prefix_append _ _, List.prefix_append _ _⟩
  . intro locals locals' h
    rw [Locals.decoded, Locals.decoded, Decoded.mk.injEq] at h
    simp only [Locals.decoded, pushMod, h]

theorem logged_channelStep
    : Logged Locals.unreadView Locals.decoded Exception.IsOSError channelStep := by
  refine Logged.bind (logged_onBuffer (ForgeDataChannel.delimited_decode none)) ?_
  intro channel
  apply Logged.modify
  . intro locals
    rfl
  . intro locals
    exact ⟨List.prefix_refl _, List.prefix_append _ _⟩
  . intro locals locals' h
    rw [Locals.decoded, Locals.decoded, Decoded.mk.injEq] at h
    simp only [Locals.decoded, pushChannel, h]

theorem logged_decodeLists (mod_count : Int)
    : Logged Locals.unreadView Locals.decoded Exception.IsOSError (decodeLists mod_count) := by
  refine Logged.bind (logged_modStep.timesM _) fun _ => ?_
  refine Logged.bind (logged_onBuffer delimited_readVarint) fun non_mod_channel_count => ?_
  exact logged_channelStep.timesM _

theorem header (flag high low : UInt8) (body : List UInt8)
    : ∃ buffer buffer',
        onBuffer (readValue .bool) { buffer := Buffer.ofBytes (flag :: high :: low :: body) }
          = .ok (decide (flag ≠ 0)) { buffer := buffer }
        ∧ onBuffer (readValue .ushort) { buffer := buffer }
          = .ok ((BigEndian.decode [high, low] : Nat) : Int) { buffer := buffer' }
        ∧ buffer'.unreadView = body := by
  have hflag : unpack .bool [flag] = .ok (decide (flag ≠ 0)) := by
    have hvalue : BigEndian.decode [flag] = flag.toNat := by simp [BigEndian.decode]
    have hzero : flag.toNat ≠ 0 ↔ flag ≠ 0 := by
      rw [Ne, Ne, ← UInt8.toNat_inj]
      rfl
    have : unpack .bool [flag] = .ok (decide (BigEndian.decode [flag] ≠ 0)) := rfl
    rw [this, hvalue, decide_eq_decide.mpr hzero]
  rcases @onBuffer_of_consumes _ _ _ _ _
      { buffer := Buffer.ofBytes (flag :: high :: low :: body) }
      (@consumes_readValue Buffer _ .bool [flag] _ rfl hflag) rfl with ⟨buffer, hbool, hview⟩
  have hcount : unpack .ushort [high, low] = .ok ((BigEndian.decode [high, low] : Nat) : Int) := rfl
  rcases @onBuffer_of_consumes _ _ _ _ _ { buffer := buffer }
      (@consumes_readValue Buffer _ .ushort [high, low] _ rfl hcount) hview
      with ⟨buffer', hushort, hview'⟩
  exact ⟨buffer, buffer', hbool, hushort, hview'⟩

theorem catchTruncated_of_osError {truncated : Bool} {x : Py Locals Unit} {e : Exception}
    {locals locals' : Locals} (h : x locals = .error e locals') (he : e.IsOSError)
    : catchTruncated truncated x locals
        =
      if truncated then .ok () locals' else .error e locals' := by
  rcases he with ⟨os, rfl⟩
  rw [catchTruncated, tryCatch_of_error h]
  cases truncated <;> rfl

theorem decodeLists_part {mod_count : Int} {body part : List UInt8}
    {start full locals : Locals} (hrun : decodeLists mod_count start = .ok () full)
    (hbody : start.unreadView = body) (hend : full.unreadView = [])
    (hview : locals.unreadView = part) (hpart : part <+: body)
    (hsame : locals.decoded = start.decoded)
    : (part = body ∧ ∃ locals', decodeLists mod_count locals = .ok () locals'
          ∧ locals'.decoded = full.decoded)
        ∨ (part ≠ body ∧ ∃ e locals', decodeLists mod_count locals = .error e locals'
          ∧ e.IsOSError ∧ locals'.decoded ≤ full.decoded) := by
  rcases logged_decodeLists mod_count _ _ _ hrun with ⟨input, hinput, -, hlogs, hstops⟩
  rw [hbody, hend, List.append_nil] at hinput
  subst hinput hview
  by_cases hall : locals.unreadView = body
  . rcases hlogs locals [] hsame (by rw [hall, List.append_nil]) with ⟨locals', hok, hlog, -⟩
    exact Or.inl ⟨hall, locals', hok, hlog⟩
  . rcases hstops locals hsame hpart hall with ⟨e, locals', herror, he, -, hle⟩
    exact Or.inr ⟨hall, e, locals', herror, he, hle⟩

theorem buildOptimized_part {flag high low : UInt8} {body part : List UInt8} {data : ForgeData}
    (hfull : Full (flag :: high :: low :: body) data) (hpart : part <+: body)
    : (flag ≠ 0 →
          ∃ cut locals,
            buildOptimized 1 { buffer := Buffer.ofBytes (flag :: high :: low :: part) }
              = .ok cut locals
            ∧ cut.mods <+: data.mods ∧ cut.channels <+: data.channels)
        ∧ (flag = 0 → part ≠ body →
          ∃ e locals,
            buildOptimized 1 { buffer := Buffer.ofBytes (flag :: high :: low :: part) }
              = .error (.osError e) locals) := by
  rcases hfull with ⟨full, hrun, hend⟩
  rcases header flag high low body with ⟨buffer, start, hbool, hushort, hbody⟩
  rw [buildUncut, bind_of_ok hbool, bind_of_ok hushort] at hrun
  rcases bind_eq_ok.mp hrun with ⟨⟨⟩, locals, hlists, hdata⟩
  rw [bind_of_ok (get_apply locals), pure_apply, EStateM.Result.ok.injEq] at hdata
  rcases hdata with ⟨rfl, rfl⟩
  rcases header flag high low part with ⟨buffer', start', hbool', hushort', hview⟩
  rw [buildOptimized, bind_of_ok hbool', bind_of_ok hushort']
  -- the lists are decoded to their end, or the buffer runs out between two items
  rcases @decodeLists_part _ _ _ _ _ { buffer := start' } hlists hbody hend hview hpart rfl
    with ⟨hall, locals', hok, hlog⟩ | ⟨hcut, e, locals', herror, he, hle⟩
  . rw [Locals.decoded, Locals.decoded, Decoded.mk.injEq] at hlog
    rw [bind_of_ok (catchTruncated_of_ok hok)]
    constructor
    . intro _
      refine ⟨_, locals', rfl, ?_, ?_⟩
      . exact hlog.1 ▸ List.prefix_rfl
      . exact hlog.2 ▸ List.prefix_rfl
    . intro _ hne
      exact absurd hall hne
  . constructor
    . intro hflag
      have hcaught := @catchTruncated_of_osError (decide (flag ≠ 0)) _ _ _ _ herror he
      rw [if_pos (decide_eq_true hflag)] at hcaught
      rw [bind_of_ok hcaught]
      exact ⟨_, locals', rfl, hle.1, hle.2⟩
    . intro hflag _
      have hraised := @catchTruncated_of_osError (decide (flag ≠ 0)) _ _ _ _ herror he
      rw [if_neg (by simp [hflag])] at hraised
      rw [bind_of_error hraised]
      rcases he with ⟨os, rfl⟩
      exact ⟨os, locals', rfl⟩

theorem build_packChars_take {payload : List UInt8} {data : ForgeData} {k : Nat}
    (hfull : Full payload data) (hheader : 3 ≤ k) (hk : k ≤ payload.length) (hfit : k < 2 ^ 30)
    : (payload.head? ≠ some 0 →
          ∃ cut, build { d := some (packChars (payload.take k)) } = .ok cut
            ∧ cut.mods <+: data.mods ∧ cut.channels <+: data.channels)
        ∧ (payload.head? = some 0 → k < payload.length →
          ∃ e, build { d := some (packChars (payload.take k)) } = .error (.osError e)) := by
  have hlen : (payload.take k).length < 2 ^ 30 := by
    rw [List.length_take]
    omega
  rw [build_packChars_eq hlen]
  rcases payload with _ | ⟨flag, _ | ⟨high, _ | ⟨low, body⟩⟩⟩
  . simp at hk
    omega
  . simp at hk
    omega
  . simp at hk
    omega
  rcases Nat.exists_eq_add_of_le' hheader with ⟨n, rfl⟩
  rcases buildOptimized_part hfull (List.take_prefix n body) with ⟨htruncated, hraises⟩
  have htake : (flag :: high :: low :: body).take (n + 3) = flag :: high :: low :: body.take n :=
    rfl
  rw [htake]
  constructor
  . intro hflag
    rcases htruncated (by simpa using hflag) with ⟨cut, locals, hrun, hmods, hchannels⟩
    exact ⟨cut, by rw [hrun], hmods, hchannels⟩
  . intro hflag hlt
    have hcut : body.take n ≠ body := by
      intro heq
      have := congrArg List.length heq
      simp at this hlt
      omega
    rcases hraises (by simpa using hflag) hcut with ⟨e, locals, hrun⟩
    exact ⟨e, by rw [hrun]⟩

/-- One mod with one channel, flagged as truncated and cut off in the name of the channel. -/
theorem build_packChars_take_channel
    : let payload : List UInt8 := [1, 0, 1, 2, 1, 97, 1, 49, 2, 98, 98, 1, 50, 1, 0]
      let data : ForgeData := {
        fml_network_version := 1
        channels := [{ name := "a:bb".toList, version := "2".toList, required := true }]
        mods := [{ name := "a".toList, marker := "1".toList }]
        truncated := true
      }
      (payload.head? ≠ some 0 →
          ∃ cut, build { d := some (packChars (payload.take 10)) } = .ok cut
            ∧ cut.mods <+: data.mods ∧ cut.channels <+: data.channels)
        ∧ (payload.head? = some 0 → 10 < payload.length →
          ∃ e, build { d := some (packChars (payload.take 10)) } = .error (.osError e)) :=
  build_packChars_take (by decide +kernel) (by decide) (by decide) (by decide)

end ForgeData

end Python

end McStatus
