import McStatus.Python.Java.Replies
import McStatus.Python.Java.Server

/-!
This module shows when the reply that a ping returns on is the one to its last request, over every
run of its attempts on one connection.
-/

namespace McStatus

open Reader

namespace Python

open BaseSyncReader BaseSyncWriter

namespace JavaServer

/-- If `ping` returns, its last attempt has received the reply to the packet it sent itself. -/
def MeasuresOwnRequest (server : JavaServer) (tries version : Int) (ping_token : Option Int)
    (random : Nat → RandomToken) (schedule : List Event) : Prop :=
  ∀ latency link', server.ping tries version ping_token random (Link.connect schedule)
      = .ok latency link' →
    ∃ k < tries.toNat, ∃ link,
      FailsTo (fun i => server.retryPing version ping_token (random i)) (Link.connect schedule) k
          link
        ∧ server.retryPing version ping_token (random k) link = .ok latency link'
        ∧ link'.received
            = link.received ++ Link.reply k (pingPacket (tokenOf ping_token random k))

section Attempt

variable {client : JavaClient} {link link' : Link} {latency start : Rat}

def awaitReply (client : JavaClient) (start : Rat) : Py Link Rat := do
  let response ← readBytearray
  let stop ← Clock.perfCounter
  ofExcept (readFrom (client.handlePingResponse start stop) response)

theorem keeps_awaitReply {I : Link → Prop}
    (hstep : ∀ link link', Link.Step link link' → I link → I link')
    : Keeps I (awaitReply client start) := by
  have hread : ∀ n, Keeps I (read n : Py Link (List UInt8)) :=
    TCPSocketConnection.keeps_read (Link.keeps_recv hstep)
  refine Keeps.bind (keeps_readBytearray hread) fun response => ?_
  refine Keeps.bind ?_ fun stop => keeps_ofExcept _
  intro link hI
  constructor
  . intro stop link' h
    cases h
    exact hI
  . intro e link' h
    cases h

theorem received_awaitReply (h : awaitReply client start link = .ok latency link')
    : ∃ chunk, link'.received = link.received ++ chunk
        ∧ ReadsAsReply client.ping_token (chunk.map ReplyByte.byte) := by
  have hgrows : link.received <+: link'.received := by
    have hstep : ∀ l l', Link.Step l l' →
        link.received <+: l.received → link.received <+: l'.received := by
      intro l l' hstep hstart
      cases hstep with
      | answer => rwa [Link.received_answer]
      | wait => exact hstart
      | deliver => exact hstart.trans (List.prefix_append _ _)
      | schedules => exact hstart
    exact (keeps_awaitReply hstep link (List.prefix_refl _)).1 _ _ h
  rcases hgrows with ⟨chunk, hchunk⟩
  refine ⟨chunk, hchunk.symm, ?_⟩
  rcases bind_eq_ok.mp h with ⟨response, t, hread, h⟩
  rcases readBytearray_record hread with ⟨length, hrecord, hrange, hlen, -⟩
  have hrecord : t.received.map ReplyByte.byte
      = link.received.map ReplyByte.byte ++ (length ++ response) := hrecord
  rcases bind_eq_ok.mp h with ⟨stop, u, hclock, h⟩
  cases hclock
  cases hreply : readFrom (client.handlePingResponse start t.clock) response with
  | error e =>
    rw [hreply] at h
    cases h
  | ok latency' =>
    rw [hreply] at h
    cases h
    rcases handlePingResponse_eq_ok hreply with ⟨id, extra, rfl, hid, hone⟩
    have hbytes : chunk.map ReplyByte.byte
        = length ++ (id ++ (tokenBytes client.ping_token ++ extra)) := by
      rw [← hchunk, List.map_append] at hrecord
      exact List.append_cancel_left hrecord
    exact ⟨length, id, extra, hbytes, hrange, hlen, hid, hone⟩

end Attempt

theorem length_lt_of_writeBytearray {data : List UInt8} {link link' : Link}
    (h : writeBytearray data link = .ok () link') : data.length < 2 ^ 31 := by
  rcases bind_eq_ok.mp h with ⟨⟨⟩, t, hvarint, -⟩
  rcases bind_eq_ok.mp hvarint with ⟨val, u, hsigned, -⟩
  by_contra hlong
  have hrange : (data.length : Int) ≥ 2 ^ (32 - 1) ∨ (data.length : Int) < 2 ^ (32 - 1) * -1 := by
    omega
  rw [toTwosComplement, if_pos hrange] at hsigned
  cases hsigned

section Run

variable {server : JavaServer} {version : Int} {ping_token : Option Int}
  {random : Nat → RandomToken} {packet : List UInt8} {link link' : Link} {latency : Rat} {k : Nat}

def Handshake (server : JavaServer) (version : Int) (packet : List UInt8) : Prop :=
  packetOf (JavaClient.buildHandshakePacket { address := server.address, version, ping_token := 0 })
      = .ok packet
    ∧ packet.length < 2 ^ 31

theorem retryPing_eq (hpacket : Handshake server version packet)
    (htoken : ValidToken (tokenOf ping_token random k)) (link : Link)
    : server.retryPing version ping_token (random k) link
        =
      awaitReply (JavaClient.new server.address version ping_token (random k)) link.clock
        (LawfulWriter.append (LawfulWriter.append link (Java.frame packet))
          (Java.frame (pingPacket (tokenOf ping_token random k)))) := by
  have hhandshake : JavaClient.handshake
      (JavaClient.new server.address version ping_token (random k))
      link = .ok () (LawfulWriter.append link (Java.frame packet)) := by
    have hbuild : packetOf (JavaClient.buildHandshakePacket
        (JavaClient.new server.address version ping_token (random k))) = .ok packet := hpacket.1
    rw [JavaClient.handshake, hbuild, ofExcept_ok, bind_of_ok (pure_apply _ _)]
    exact writes_writeBytearray hpacket.2 link
  have hlen : (pingPacket (tokenOf ping_token random k)).length < 2 ^ 31 := by
    rw [length_pingPacket]
    decide
  have hbuild : packetOf (JavaClient.buildPingPacket
      (JavaClient.new server.address version ping_token (random k)))
        = .ok (pingPacket (tokenOf ping_token random k)) := packetOf_buildPingPacket htoken
  rw [retryPing, bind_of_ok hhandshake, JavaClient.testPing, hbuild, ofExcept_ok,
    bind_of_ok (pure_apply _ _), bind_of_ok (Link.perfCounter_eq _),
    bind_of_ok (writes_writeBytearray hlen _)]
  rfl

theorem sent_of_retryPing
    (h : server.retryPing version ping_token (random k) link = .ok latency link')
    : (∃ packet, Handshake server version packet) ∧ ValidToken (tokenOf ping_token random k) := by
  rcases bind_eq_ok.mp h with ⟨⟨⟩, t, hhandshake, hping⟩
  constructor
  . rcases bind_eq_ok.mp hhandshake with ⟨packet, u, hbuild, hwrite⟩
    refine ⟨packet, ?_, length_lt_of_writeBytearray hwrite⟩
    change (ofExcept (packetOf (JavaClient.buildHandshakePacket
      { address := server.address, version, ping_token := 0 })) : Py Link _) link = _ at hbuild
    cases hpacket : packetOf (JavaClient.buildHandshakePacket
        { address := server.address, version, ping_token := 0 }) with
    | error e =>
      rw [hpacket] at hbuild
      cases hbuild
    | ok packet' =>
      rw [hpacket] at hbuild
      cases hbuild
      rfl
  . rcases bind_eq_ok.mp hping with ⟨request, u, hbuild, -⟩
    by_contra htoken
    rw [packetOf_buildPingPacket_of_not htoken] at hbuild
    cases hbuild

def sentBefore (packet : List UInt8) (token : Nat → Int) (k : Nat) : List (List UInt8) :=
  (List.range k).flatMap fun i => [packet, pingPacket (token i)]

theorem sentBefore_succ (packet : List UInt8) (token : Nat → Int) (k : Nat)
    : sentBefore packet token (k + 1)
        = sentBefore packet token k ++ [packet] ++ [pingPacket (token k)] := by
  rw [sentBefore, List.range_succ, List.flatMap_append, List.flatMap_singleton, List.append_assoc]
  rfl

theorem length_of_mem_sentBefore (hlen : packet.length < 2 ^ 31) {token : Nat → Int}
    {p : List UInt8} (h : p ∈ sentBefore packet token k) : p.length < 2 ^ 31 := by
  rcases List.mem_flatMap.mp h with ⟨i, -, hp⟩
  rcases List.mem_pair.mp hp with rfl | rfl
  . exact hlen
  . rw [length_pingPacket]
    decide

section Head

variable (hhead : packet.head? = some 0) (token : Nat → Int) (k : Nat)

include hhead

theorem filter_isPing_append (packets : List (List UInt8))
    : (packets ++ [packet] ++ [pingPacket (token k)]).filter Link.isPing
        = packets.filter Link.isPing ++ [pingPacket (token k)] := by
  have hpacket : ¬ Link.isPing packet := by
    rw [Link.isPing, hhead]
    decide
  have hping : Link.isPing (pingPacket (token k)) := by
    rw [Link.isPing, pingPacket]
    rfl
  rw [List.filter_append, List.filter_append, List.filter_cons_of_neg hpacket,
    List.filter_cons_of_pos hping, List.filter_nil, List.append_nil]

theorem length_pings_sentBefore
    : ((sentBefore packet token k).filter Link.isPing).length = k := by
  induction k with
  | zero => rfl
  | succ k ih =>
    rw [sentBefore_succ, filter_isPing_append hhead, List.length_append, ih, List.length_singleton]

theorem replies_sentBefore
    : Link.replies (sentBefore packet token k) = repliesBefore token k := by
  induction k with
  | zero => rfl
  | succ k ih =>
    rw [Link.replies] at ih
    rw [Link.replies, sentBefore_succ, filter_isPing_append hhead, List.zipIdx_append,
      List.flatMap_append, ih, length_pings_sentBefore hhead, Nat.zero_add, repliesBefore_succ]
    exact congrArg _ (List.flatMap_singleton _ _)

end Head

theorem flow_sent (token : Nat → Int)
    (hflow : Link.Flow (sentBefore packet token k) link)
    : Link.Flow (sentBefore packet token (k + 1))
        (LawfulWriter.append (LawfulWriter.append link (Java.frame packet))
          (Java.frame (pingPacket (token k)))) := by
  rw [sentBefore_succ]
  exact (hflow.append packet).append (pingPacket (token k))

theorem keeps_flow (hlen : packet.length < 2 ^ 31) (token : Nat → Int) (client : JavaClient)
    (start : Rat) : Keeps (Link.Flow (sentBefore packet token k)) (awaitReply client start) :=
  keeps_awaitReply fun _ _ hstep hflow =>
    hflow.step (fun _ hp => length_of_mem_sentBefore hlen hp) hstep

theorem flow_of_failsTo (hpacket : Handshake server version packet)
    (htoken : ∀ i, ValidToken (tokenOf ping_token random i)) {schedule : List Event}
    (h : FailsTo (fun i => server.retryPing version ping_token (random i)) (Link.connect schedule)
      k link)
    : Link.Flow (sentBefore packet (tokenOf ping_token random) k) link := by
  refine h.induct (fun i link => Link.Flow (sentBefore packet (tokenOf ping_token random) i) link)
    (Link.flow_connect schedule) ?_
  intro i link e link' _ hflow hrun
  rw [retryPing_eq hpacket (htoken i)] at hrun
  exact (keeps_flow hpacket.2 _ _ _ _ (flow_sent _ hflow)).2 e link' hrun

theorem validToken_tokenOf (h : ValidToken (tokenOf ping_token random k)) (i : Nat)
    : ValidToken (tokenOf ping_token random i) := by
  cases ping_token with
  | some token => exact h
  | none =>
    have := (random i).value_valid
    rw [ValidToken, tokenOf, Option.getD_none]
    omega

end Run

theorem received_of_ping {server : JavaServer} {tries version : Int} {ping_token : Option Int}
    {random : Nat → RandomToken} {schedule : List Event} {latency : Rat} {link' : Link}
    (h : server.ping tries version ping_token random (Link.connect schedule) = .ok latency link')
    : ∃ k < tries.toNat, ∃ link,
        FailsTo (fun i => server.retryPing version ping_token (random i)) (Link.connect schedule)
            k link
          ∧ server.retryPing version ping_token (random k) link = .ok latency link'
          ∧ link.received <+: repliesBefore (tokenOf ping_token random) k
          ∧ link'.received <+: repliesBefore (tokenOf ping_token random) (k + 1)
          ∧ (ToldApart (tokenOf ping_token random) k link →
              link'.received
                = link.received ++ Link.reply k (pingPacket (tokenOf ping_token random k))) := by
  rcases attemptsFrom_eq_ok_iff.mp h with ⟨k, hk, link, hfails, hrun⟩
  rcases sent_of_retryPing hrun with ⟨⟨packet, hpacket⟩, htoken⟩
  have hhead := head_of_handshakePacket hpacket.1
  have hflow := flow_of_failsTo hpacket (validToken_tokenOf htoken) hfails
  have hbefore := hflow.received_start
  rw [replies_sentBefore hhead] at hbefore
  have hsent := flow_sent _ hflow
  have hrun' := hrun
  rw [retryPing_eq hpacket htoken] at hrun'
  have hafter := ((keeps_flow hpacket.2 _ _ _ _ hsent).1 _ _ hrun').received_start
  rw [replies_sentBefore hhead] at hafter
  refine ⟨k, hk, link, hfails, hrun, hbefore, hafter, fun hapart => ?_⟩
  rcases received_awaitReply hrun' with ⟨chunk, hreceived, hreads⟩
  have hreceived : link'.received = link.received ++ chunk := hreceived
  rw [hreceived] at hafter
  rw [hreceived, received_of_readsAsReply hafter hreads hapart]

theorem measuresOwnRequest_of_occursOnce (server : JavaServer) (tries version : Int)
    (ping_token : Option Int) (random : Nat → RandomToken) (schedule : List Event)
    (h : ∀ k < tries.toNat, OccursOnce (tokenOf ping_token random) k)
    : MeasuresOwnRequest server tries version ping_token random schedule := by
  intro latency link' hping
  rcases received_of_ping hping with ⟨k, hk, link, hfails, hrun, hbefore, -, hown⟩
  exact ⟨k, hk, link, hfails, hrun, hown (toldApart_of_occursOnce (h k hk) hbefore)⟩

theorem toldApart_of_measuresOwnRequest {server : JavaServer} {tries version : Int}
    {ping_token : Option Int} {random : Nat → RandomToken} {schedule : List Event} {latency : Rat}
    {k : Nat} {link link' : Link}
    (h : MeasuresOwnRequest server tries version ping_token random schedule)
    (hping : server.ping tries version ping_token random (Link.connect schedule)
      = .ok latency link')
    (hfails : FailsTo (fun i => server.retryPing version ping_token (random i))
      (Link.connect schedule) k link)
    (hrun : server.retryPing version ping_token (random k) link = .ok latency link')
    : ToldApart (tokenOf ping_token random) k link := by
  rcases received_of_ping hping with ⟨j, -, u, hfails', hrun', hbefore, hafter, -⟩
  rcases hfails.returns_unique hrun hfails' hrun' with ⟨rfl, rfl⟩
  rcases h latency link' hping with ⟨j', -, u, hfails', hrun', hown⟩
  rcases hfails.returns_unique hrun hfails' hrun' with ⟨rfl, rfl⟩
  left
  by_contra hsome
  rcases hbefore with ⟨missing, hmissing⟩
  cases missing with
  | nil =>
    rw [List.append_nil] at hmissing
    exact hsome hmissing
  | cons sent missing =>
    -- the first byte that was accepted is the first one of `missing`
    rw [hown, repliesBefore_succ, ← hmissing, List.append_assoc, List.prefix_append_right_inj]
      at hafter
    rcases hafter with ⟨rest, hrest⟩
    rw [reply_eq_cons, List.cons_append, List.cons_append, List.cons.injEq] at hrest
    have hlt : sent.answers < k := by
      apply answers_lt_of_mem
      rw [← hmissing]
      simp
    rw [← hrest.1] at hlt
    exact Nat.lt_irrefl k hlt

def receivedBy (x : Py Link Rat) (link : Link) : Option (List ReplyByte) :=
  match x link with
  | .ok _ link => some link.received
  | .error _ _ => none

theorem handshake_localhost
    : Handshake localhost 47 ([0, 47, 9] ++ Utf8.encode "localhost".toList ++ [0x63, 0xDD, 1]) :=
  ⟨by decide +kernel, by decide⟩

def smallTokens (i : Nat) : RandomToken where
  value := if i = 0 then 10 else (min i 2 : Nat)
  value_valid := by split <;> omega

/--
In every run in which each attempt can tell its reply from what is left of the earlier ones, `ping`
returns on the reply to its last request.
-/
theorem ping_measuresOwnRequest (server : JavaServer) (tries version : Int)
    (ping_token : Option Int) (random : Nat → RandomToken) (schedule : List Event)
    (h : ∀ k < tries.toNat, ∀ link,
      FailsTo (fun i => server.retryPing version ping_token (random i)) (Link.connect schedule)
        k link →
      ToldApart (tokenOf ping_token random) k link)
    : MeasuresOwnRequest server tries version ping_token random schedule := by
  intro latency link' hping
  rcases received_of_ping hping with ⟨k, hk, link, hfails, hrun, -, -, hown⟩
  exact ⟨k, hk, link, hfails, hrun, hown (h k hk link hfails)⟩

/--
A run that ends with the third reply: the first one is cut off before its last byte, which the next
attempt takes for the length of the second reply.
-/
theorem ping_measuresOwnRequest_third
    : MeasuresOwnRequest localhost 3 47 none smallTokens
          [.answer, .answer, .deliver 0, .deliver 7, .timeOut, .answer, .answer, .deliver 0,
            .deliver 9, .answer, .answer, .deliver 0, .deliver 8]
        ∧ receivedBy (localhost.ping 3 47 none smallTokens)
            (Link.connect [.answer, .answer, .deliver 0, .deliver 7, .timeOut, .answer, .answer,
              .deliver 0, .deliver 9, .answer, .answer, .deliver 0, .deliver 8])
            = some (repliesBefore (tokenOf none smallTokens) 3) := by
  refine ⟨?_, by decide +kernel⟩
  have honce : ∀ k < 3, OccursOnce (tokenOf none smallTokens) k := by
    unfold OccursOnce
    decide +kernel
  apply ping_measuresOwnRequest
  intro k hk link hfails
  have hvalid : ∀ i, ValidToken (tokenOf none smallTokens i) :=
    @validToken_tokenOf none smallTokens 0 (by unfold ValidToken; decide)
  have hflow := flow_of_failsTo handshake_localhost hvalid hfails
  have hbefore := hflow.received_start
  rw [replies_sentBefore rfl] at hbefore
  exact toldApart_of_occursOnce (honce k hk) hbefore

theorem answers_of_measuresOwnRequest {server : JavaServer} {tries version : Int}
    {ping_token : Option Int} {random : Nat → RandomToken} {schedule : List Event}
    {received : List ReplyByte}
    (h : MeasuresOwnRequest server tries version ping_token random schedule)
    (hping : receivedBy (server.ping tries version ping_token random) (Link.connect schedule)
      = some received)
    : ∃ k link,
        FailsTo (fun i => server.retryPing version ping_token (random i)) (Link.connect schedule)
            k link
          ∧ (receivedBy (server.retryPing version ping_token (random k)) link).isSome
          ∧ ∀ sent ∈ received.drop (received.length - 10), sent.answers = k := by
  unfold receivedBy at hping
  split at hping
  . next latency link' hok =>
    cases hping
    rcases h latency link' hok with ⟨k, -, link, hfails, hrun, hown⟩
    refine ⟨k, link, hfails, by rw [receivedBy, hrun]; rfl, ?_⟩
    have hlen : (Link.reply k (pingPacket (tokenOf ping_token random k))).length = 10 := by
      rw [reply_eq_cons, List.length_cons, List.length_map, length_pingPacket]
    rw [hown, List.length_append, hlen, Nat.add_sub_cancel, List.drop_left]
    intro sent hsent
    rcases List.mem_map.mp hsent with ⟨b, -, rfl⟩
    rfl
  . cases hping

def confusable (i : Nat) : RandomToken :=
  if i = 0 then
    { value := 0x0901, value_valid := by decide }
  else
    { value := 0x0901090109010901, value_valid := by decide }

/--
With a given token a late reply is taken for the one to the next attempt. So is the end of a reply,
together with the start of the next one, when the attempt before has been cut off in the middle.
-/
theorem ping_measuresOtherRequest
    : ¬ MeasuresOwnRequest localhost 3 47 (some 5) confusable
          [.timeOut, .answer, .answer, .deliver 0, .deliver 8]
        ∧ ¬ MeasuresOwnRequest localhost 3 47 none confusable
            [.answer, .answer, .deliver 0, .deliver 6, .timeOut, .answer, .answer, .deliver 0,
              .deliver 8] := by
  constructor
  . intro h
    rcases answers_of_measuresOwnRequest h
      (by decide +kernel : _ = some (Link.reply 0 (pingPacket 5))) with
    ⟨k, link, hfails, hrun, hall⟩
    have hzero : 0 = k := hall (ReplyByte.mk 0 9) (by decide +kernel)
    subst hzero
    rw [hfails.zero_eq] at hrun
    revert hrun
    decide +kernel
  . intro h
    rcases answers_of_measuresOwnRequest h
      (by decide +kernel : _ = some (Link.reply 0 (pingPacket 0x0901)
        ++ (Link.reply 1 (pingPacket 0x0901090109010901)).take 8)) with ⟨k, link, -, -, hall⟩
    have hzero : 0 = k := hall (ReplyByte.mk 0 9) (by decide +kernel)
    have hone : 1 = k := hall (ReplyByte.mk 1 9) (by decide +kernel)
    omega

end JavaServer

end Python

end McStatus
