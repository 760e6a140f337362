import McStatus.Library.Attempts

/-!
This module contains sessions: a client writes requests to one stream, and a responder takes them
off it and answers on another. When the responder works, when its answers arrive and how a wait for
them ends is up to a schedule.
-/

namespace McStatus

namespace Duplex

variable {S ι : Type}

structure Reaction (S ι : Type) where
  state : S
  rest : List ι
  reply : List ι

/-- `none` where the input does not start with a whole request. -/
abbrev Responder (S ι : Type) := S → List ι → Option (Reaction S ι)

inductive Turn where
  | respond
  | deliver (size : Nat)
  | wait (time : Nat)
  | timeOut
  | close
  deriving DecidableEq, Repr

def Turn.size (turn : Turn) : Nat :=
  match turn with
  | .deliver size => size
  | .respond | .wait _ | .timeOut | .close => 0

inductive Ending where
  | timedOut
  | closed
  deriving DecidableEq, Repr

/-- The responder, what it has not taken yet, and its answers that are on their way. -/
structure Wire (responder : Responder S ι) where
  state : S
  toServer : List ι
  toClient : List ι

namespace Wire

variable {responder : Responder S ι}

def respond (wire : Wire responder) : Wire responder :=
  match responder wire.state wire.toServer with
  | none => wire
  | some reaction =>
    { state := reaction.state
      toServer := reaction.rest
      toClient := wire.toClient ++ reaction.reply }

def drop (wire : Wire responder) (size : Nat) : Wire responder :=
  { wire with toClient := wire.toClient.drop size }

/-- What still gets to the client, and how the wait for more ends. -/
def coming (turns : List Turn) (wire : Wire responder) : List ι × Ending :=
  match turns with
  | [] => ([], .timedOut)
  | .respond :: turns => coming turns wire.respond
  | .deliver size :: turns =>
    let rest := coming turns (wire.drop size)
    (wire.toClient.take size ++ rest.1, rest.2)
  | .wait _ :: turns => coming turns wire
  | .timeOut :: _ => ([], .timedOut)
  | .close :: _ => ([], .closed)

/-- When each of these gets to the client, whose clock stands at `clock`. -/
def times (turns : List Turn) (clock : Nat) (wire : Wire responder) : List Nat :=
  match turns with
  | [] => []
  | .respond :: turns => times turns clock wire.respond
  | .deliver size :: turns =>
    List.replicate (wire.toClient.take size).length clock ++ times turns clock (wire.drop size)
  | .wait time :: turns => times turns (clock + time) wire
  | .timeOut :: _ | .close :: _ => []

theorem length_times (turns : List Turn) (clock : Nat) (wire : Wire responder)
    : (wire.times turns clock).length = (wire.coming turns).1.length := by
  induction turns generalizing clock wire with
  | nil => rfl
  | cons turn turns ih =>
    cases turn with
    | respond => exact ih clock wire.respond
    | deliver size =>
      rw [times, coming, List.length_append, List.length_append, List.length_replicate,
        ih clock (wire.drop size)]
    | wait time => exact ih (clock + time) wire
    | timeOut => rfl
    | close => rfl

end Wire

/-- What is `ready` has arrived at the client, which has not read it yet. -/
structure Session (responder : Responder S ι) extends Wire responder where
  ready : List ι
  clock : Nat
  schedule : List Turn

namespace Session

variable {responder : Responder S ι}

def connect (responder : Responder S ι) (state : S) (schedule : List Turn) : Session responder where
  state := state
  toServer := []
  toClient := []
  ready := []
  clock := 0
  schedule := schedule

/-- A write never fails: its data is on the way to the server at once. -/
def send (session : Session responder) (data : List ι) : Session responder :=
  { session with toServer := session.toServer ++ data }

def respond (session : Session responder) : Session responder :=
  { session with toWire := session.toWire.respond }

def deliver (session : Session responder) (size : Nat) : Session responder :=
  { session with
    toWire := session.toWire.drop size
    ready := session.ready ++ session.toClient.take size }

def wait (session : Session responder) (time : Nat) : Session responder :=
  { session with clock := session.clock + time }

def schedules (session : Session responder) (schedule : List Turn) : Session responder :=
  { session with schedule }

/-- Up to `n` of what is ready. The client waits as long as there is nothing. -/
def recv (n : Nat) (session : Session responder)
    : EStateM.Result Ending (Session responder) (List ι) :=
  go session.schedule session
where
  go (turns : List Turn) (session : Session responder)
      : EStateM.Result Ending (Session responder) (List ι) :=
    if session.ready = [] then
      match turns with
      | [] => .error .timedOut (session.schedules [])
      | .respond :: turns => go turns session.respond
      | .deliver size :: turns => go turns (session.deliver size)
      | .wait time :: turns => go turns (session.wait time)
      | .timeOut :: turns => .error .timedOut (session.schedules turns)
      | .close :: turns => .error .closed (session.schedules turns)
    else
      .ok (session.ready.take n) { session with ready := session.ready.drop n, schedule := turns }

def arrivals (session : Session responder) : List ι :=
  session.ready ++ (session.coming session.schedule).1

def times (session : Session responder) : List Nat :=
  List.replicate session.ready.length session.clock
    ++ session.toWire.times session.schedule session.clock

theorem length_times (session : Session responder)
    : session.times.length = session.arrivals.length := by
  rw [times, arrivals, List.length_append, List.length_append, List.length_replicate,
    Wire.length_times]

/-- The session after something of it was read: the clock stands where the last of it arrived. -/
def Later (session session' : Session responder) : Prop :=
  ∃ past, session.times = past ++ session'.times ∧ session'.clock = past.getLastD session.clock

theorem Later.refl (session : Session responder) : session.Later session :=
  ⟨[], rfl, rfl⟩

theorem Later.trans {session session' session'' : Session responder}
    (h : session.Later session') (h' : session'.Later session'') : session.Later session'' := by
  rcases h with ⟨past, htimes, hclock⟩
  rcases h' with ⟨past', htimes', hclock'⟩
  refine ⟨past ++ past', by rw [htimes, htimes', List.append_assoc], ?_⟩
  rw [hclock', hclock, List.getLastD_eq_getLast?, List.getLastD_eq_getLast?,
    List.getLastD_eq_getLast?, List.getLast?_append]
  cases past'.getLast? <;> rfl

theorem Later.clock_eq {session session' : Session responder} (h : session.Later session')
    (hall : session'.arrivals = []) : session'.clock = session.times.getLastD session.clock := by
  rcases h with ⟨past, htimes, hclock⟩
  have hnil : session'.times = [] := by
    rw [← List.length_eq_zero_iff, length_times, hall]
    rfl
  rw [hnil, List.append_nil] at htimes
  rw [hclock, htimes]

/-- When the client has got `n` more bytes, where it reads them from now on. -/
def timeAfter (session : Session responder) (n : Nat) : Nat :=
  (session.times.take n).getLastD session.clock

theorem Later.clock_of_arrivals {session session' : Session responder} {data : List ι}
    (h : session.Later session') (hsplit : session.arrivals = data ++ session'.arrivals)
    : session'.clock = session.timeAfter data.length := by
  rcases h with ⟨past, htimes, hclock⟩
  have hpast : past.length = data.length := by
    have hlength := session.length_times
    have hlength' := session'.length_times
    rw [htimes, hsplit, List.length_append, List.length_append] at hlength
    omega
  rw [timeAfter, htimes, List.take_left' hpast, hclock]

/-- Where `x` returns, it has only read from the session. -/
def Onward {ε α : Type} (x : EStateM ε (Session responder) α) : Prop :=
  ∀ session a session', x session = .ok a session' → session.Later session'

section Onward

variable {ε α β : Type}

theorem Onward.pure (a : α) : Onward (pure a : EStateM ε (Session responder) α) := by
  intro session b session' h
  cases h
  exact .refl session

theorem Onward.throw (e : ε) : Onward (throw e : EStateM ε (Session responder) α) := by
  intro session b session' h
  cases h

theorem Onward.bind {x : EStateM ε (Session responder) α}
    {f : α → EStateM ε (Session responder) β} (hx : Onward x) (hf : ∀ a, Onward (f a))
    : Onward (x >>= f) := by
  intro session b session' h
  rcases Reader.bind_eq_ok.mp h with ⟨a, t, hrun, hrest⟩
  exact (hx session a t hrun).trans (hf a t b session' hrest)

theorem Onward.ite {p : Prop} [Decidable p] {x y : EStateM ε (Session responder) α}
    (hx : Onward x) (hy : Onward y) : Onward (if p then x else y) := by
  split
  . exact hx
  . exact hy

theorem Onward.adaptExcept {ε' : Type} (f : ε → ε') {x : EStateM ε (Session responder) α}
    (hx : Onward x) : Onward (EStateM.adaptExcept f x) :=
  fun session a session' h => hx session a session' (Reader.adaptExcept_eq_ok h)

end Onward

def arrived (session : Session responder) (data : List ι) : Session responder :=
  { session with ready := data, schedule := [] }

theorem arrivals_arrived (session : Session responder) (data : List ι)
    : (session.arrived data).arrivals = data :=
  List.append_nil data

def ending (session : Session responder) : Ending :=
  (session.coming session.schedule).2

inductive Received (session : Session responder) (n : Nat)
    : EStateM.Result Ending (Session responder) (List ι) → Prop where
  | some {data : List ι} {session' : Session responder} :
      data ≠ [] → data.length ≤ n → session.arrivals = data ++ session'.arrivals →
      session'.ending = session.ending → session.Later session' →
      Received session n (.ok data session')
  | none {session' : Session responder} :
      session.arrivals = [] → Received session n (.error session.ending session')

theorem received_recv (session : Session responder) {n : Nat} (hn : n ≠ 0)
    : Received session n (session.recv n) := by
  have hgo : ∀ turns (current : Session responder),
      session.arrivals = current.ready ++ (current.coming turns).1 →
      session.times = List.replicate current.ready.length current.clock
        ++ current.toWire.times turns current.clock →
      session.ending = (current.coming turns).2 →
      Received session n (recv.go n turns current) := by
    intro turns current harrivals htimes hending
    fun_induction recv.go n turns current with
    | case1 current hready =>
      rw [hready] at harrivals
      have : Ending.timedOut = session.ending := hending.symm
      rw [this]
      exact .none harrivals
    | case2 current hready turns ih => exact ih harrivals htimes hending
    | case3 current hready size turns ih =>
      apply ih _ _ hending
      . rw [harrivals, Wire.coming]
        exact (List.append_assoc _ _ _).symm
      . rw [htimes, Wire.times, deliver, hready]
        exact List.nil_append _
    | case4 current hready time turns ih =>
      refine ih harrivals ?_ hending
      rw [htimes, wait, hready]
      rfl
    | case5 current hready turns =>
      rw [hready] at harrivals
      have : Ending.timedOut = session.ending := hending.symm
      rw [this]
      exact .none harrivals
    | case6 current hready turns =>
      rw [hready] at harrivals
      have : Ending.closed = session.ending := hending.symm
      rw [this]
      exact .none harrivals
    | case7 turns current hready =>
      have hne : current.ready.take n ≠ [] := by
        rw [ne_eq, List.take_eq_nil_iff, not_or]
        exact ⟨hn, hready⟩
      refine .some hne (List.length_take_le _ _) ?_ hending.symm ?_
      . rw [harrivals, arrivals, ← List.append_assoc, List.take_append_drop]
      . refine ⟨List.replicate (current.ready.take n).length current.clock, ?_, ?_⟩
        . rw [htimes, times, ← List.append_assoc, ← List.replicate_add, ← List.length_append,
            List.take_append_drop]
        . rw [List.getLastD_eq_getLast?, List.getLast?_replicate,
            if_neg (fun h => hne (List.length_eq_zero_iff.mp h))]
          rfl
  exact hgo session.schedule session rfl rfl rfl

/-- What the responder, the network and the time do to a session, and what a read takes off it. -/
inductive Step : Session responder → Session responder → Prop where
  | respond (session : Session responder) : Step session session.respond
  | deliver (session : Session responder) (size : Nat) : Step session (session.deliver size)
  | wait (session : Session responder) (time : Nat) : Step session (session.wait time)
  | schedules (session : Session responder) (schedule : List Turn) :
      Step session (session.schedules schedule)
  | take (session : Session responder) (n : Nat) :
      Step session { session with ready := session.ready.drop n }

theorem keeps_recv {I : Session responder → Prop}
    (hstep : ∀ session session', Step session session' → I session → I session') (n : Nat)
    : Reader.Keeps I (recv n : EStateM Ending (Session responder) (List ι)) := by
  have hgo : ∀ turns (session : Session responder), I session →
      (∀ data session', recv.go n turns session = .ok data session' → I session')
        ∧ ∀ ending session', recv.go n turns session = .error ending session' → I session' := by
    intro turns session hI
    fun_induction recv.go n turns session with
    | case1 session hready => exact Reader.kept_of_error (hstep _ _ (.schedules session []) hI)
    | case2 session hready turns ih => exact ih (hstep _ _ (.respond session) hI)
    | case3 session hready size turns ih => exact ih (hstep _ _ (.deliver session size) hI)
    | case4 session hready time turns ih => exact ih (hstep _ _ (.wait session time) hI)
    | case5 session hready turns =>
      exact Reader.kept_of_error (hstep _ _ (.schedules session turns) hI)
    | case6 session hready turns =>
      exact Reader.kept_of_error (hstep _ _ (.schedules session turns) hI)
    | case7 turns session hready =>
      exact Reader.kept_of_ok
        (hstep _ _ (.schedules _ turns) (hstep _ _ (.take session n) hI))
  intro session hI
  exact hgo session.schedule session hI

/-- Reads until there are `missing` more, or a wait fails. -/
def fill (missing : Nat) (session : Session responder)
    : EStateM.Result Ending (Session responder) (List ι) :=
  if missing = 0 then
    .ok [] session
  else
    match session.recv missing with
    | .error ending session => .error ending session
    | .ok data session =>
      if data.length = 0 then
        .error .closed session
      else
        match fill (missing - data.length) session with
        | .error ending session => .error ending session
        | .ok rest session => .ok (data ++ rest) session
termination_by missing

inductive Filled (session : Session responder) (n : Nat)
    : EStateM.Result Ending (Session responder) (List ι) → Prop where
  | full {data : List ι} {session' : Session responder} :
      data.length = n → session.arrivals = data ++ session'.arrivals →
      session'.ending = session.ending → session.Later session' →
      Filled session n (.ok data session')
  | short {session' : Session responder} :
      session.arrivals.length < n → Filled session n (.error session.ending session')

theorem filled_fill (session : Session responder) (n : Nat)
    : Filled session n (session.fill n) := by
  induction n using Nat.strongRecOn generalizing session with
  | ind n ih =>
    unfold fill
    split
    . next hzero => exact .full hzero.symm rfl rfl (.refl session)
    . next hn =>
      have hreceived := session.received_recv hn
      cases hrecv : session.recv n with
      | error ending session' =>
        rw [hrecv] at hreceived
        cases hreceived with
        | none hnil =>
          refine .short ?_
          rw [hnil]
          exact Nat.pos_of_ne_zero hn
      | ok data session' =>
        rw [hrecv] at hreceived
        cases hreceived with
        | some hne hle harrivals hending hlater =>
          have hpos := List.length_pos_iff.mpr hne
          have hfilled := ih (n - data.length) (by omega) session'
          dsimp only
          rw [if_neg (by omega)]
          cases hfill : session'.fill (n - data.length) with
          | error ending session'' =>
            rw [hfill] at hfilled
            cases hfilled with
            | short hlt =>
              rw [hending]
              refine .short ?_
              rw [harrivals, List.length_append]
              omega
          | ok rest session'' =>
            rw [hfill] at hfilled
            cases hfilled with
            | full hlen harrivals' hending' hlater' =>
              refine .full ?_ ?_ (hending'.trans hending) (hlater.trans hlater')
              . rw [List.length_append, hlen]
                omega
              . rw [harrivals, harrivals', List.append_assoc]

end Session

/--
The responder takes all requests off `input`, answers them one by one, and ends up in a state.
-/
inductive Answers (responder : Responder S ι) : S → List ι → List (List ι) → S → Prop where
  | done {state : S} {input : List ι} :
      responder state input = none → Answers responder state input [] state
  | request {state final : S} {input : List ι} {reaction : Reaction S ι}
      {replies : List (List ι)} :
      responder state input = some reaction →
      Answers responder reaction.state reaction.rest replies final →
      Answers responder state input (reaction.reply :: replies) final

def delivered (turns : List Turn) : Nat :=
  (turns.map Turn.size).sum

theorem delivered_cons (turn : Turn) (turns : List Turn)
    : delivered (turn :: turns) = turn.size + delivered turns := rfl

/-- Nothing ends the session before `requests` requests are answered and `size` bytes arrive. -/
def Prompt (schedule : List Turn) (requests size : Nat) : Prop :=
  ∃ first second rest, schedule = first ++ second ++ rest
    ∧ (∀ turn ∈ first ++ second, turn ≠ .timeOut ∧ turn ≠ .close)
    ∧ requests ≤ first.count .respond ∧ size ≤ delivered second

namespace Wire

variable {responder : Responder S ι} {wire : Wire responder} {replies : List (List ι)} {final : S}

theorem respond_of_none (h : responder wire.state wire.toServer = none) : wire.respond = wire := by
  rw [respond, h]

theorem respond_of_some {reaction : Reaction S ι}
    (h : responder wire.state wire.toServer = some reaction)
    : wire.respond
        = { state := reaction.state
            toServer := reaction.rest
            toClient := wire.toClient ++ reaction.reply } := by
  rw [respond, h]

theorem coming_isPrefix (h : Answers responder wire.state wire.toServer replies final)
    (turns : List Turn) : (wire.coming turns).1 <+: wire.toClient ++ replies.flatten := by
  induction turns generalizing wire replies with
  | nil => exact List.nil_prefix
  | cons turn turns ih =>
    cases turn with
    | respond =>
      rw [coming]
      cases h with
      | done hnone =>
        rw [respond_of_none hnone]
        exact ih (.done hnone)
      | @request _ _ _ reaction replies hsome hrest =>
        rw [respond_of_some hsome]
        have hsplit : wire.toClient ++ (reaction.reply :: replies).flatten
            = wire.toClient ++ reaction.reply ++ replies.flatten := by
          rw [List.flatten_cons, List.append_assoc]
        rw [hsplit]
        exact ih hrest
    | deliver size =>
      rw [coming]
      have hrest := @ih (wire.drop size) replies h
      have hsplit : wire.toClient ++ replies.flatten
          = wire.toClient.take size ++ ((wire.drop size).toClient ++ replies.flatten) := by
        rw [drop, ← List.append_assoc, List.take_append_drop]
      rw [hsplit, List.prefix_append_right_inj]
      exact hrest
    | wait time => exact ih h
    | timeOut => exact List.nil_prefix
    | close => exact List.nil_prefix

theorem coming_of_nothing {turns : List Turn} (h : responder wire.state wire.toServer = none)
    (hnil : wire.toClient = []) : (wire.coming turns).1 = [] := by
  have hprefix := coming_isPrefix (.done h) turns
  rw [hnil] at hprefix
  exact List.prefix_nil.mp hprefix

theorem coming_of_settled {turns rest : List Turn} (h : responder wire.state wire.toServer = none)
    (huninterrupted : ∀ turn ∈ turns, turn ≠ .timeOut ∧ turn ≠ .close)
    (hsize : wire.toClient.length ≤ delivered turns)
    : (wire.coming (turns ++ rest)).1 = wire.toClient := by
  induction turns generalizing wire with
  | nil =>
    have hnil : wire.toClient = [] := List.length_eq_zero_iff.mp (Nat.le_zero.mp hsize)
    rw [hnil]
    exact coming_of_nothing h hnil
  | cons turn turns ih =>
    rcases List.forall_mem_cons.mp huninterrupted with ⟨hturn, hturns⟩
    rw [delivered_cons] at hsize
    rw [List.cons_append]
    cases turn with
    | respond =>
      rw [Turn.size] at hsize
      rw [coming, respond_of_none h]
      exact ih h hturns (by omega)
    | deliver size =>
      rw [Turn.size] at hsize
      have hrest : (coming (turns ++ rest) (wire.drop size)).1 = wire.toClient.drop size := by
        refine ih h hturns ?_
        rw [drop, List.length_drop]
        omega
      rw [coming, hrest]
      exact List.take_append_drop _ _
    | wait time =>
      rw [Turn.size] at hsize
      exact ih h hturns (by omega)
    | timeOut => exact absurd rfl hturn.1
    | close => exact absurd rfl hturn.2

theorem coming_of_prompt (schedule : List Turn)
    (h : Answers responder wire.state wire.toServer replies final)
    (hprompt : Prompt schedule replies.length (wire.toClient ++ replies.flatten).length)
    : (wire.coming schedule).1 = wire.toClient ++ replies.flatten := by
  rcases hprompt with ⟨first, second, rest, rfl, huninterrupted, hrequests, hsize⟩
  induction first generalizing wire replies with
  | nil =>
    cases h with
    | done hnone =>
      rw [List.flatten_nil, List.append_nil] at hsize ⊢
      exact coming_of_settled hnone huninterrupted hsize
    | request => simp at hrequests
  | cons turn first ih =>
    rw [List.cons_append] at huninterrupted
    rw [List.cons_append, List.cons_append]
    rcases List.forall_mem_cons.mp huninterrupted with ⟨hturn, hturns⟩
    rw [List.count_cons] at hrequests
    cases turn with
    | respond =>
      rw [coming]
      cases h with
      | done hnone =>
        rw [respond_of_none hnone]
        exact ih (.done hnone) hturns (Nat.zero_le _) hsize
      | @request _ _ _ reaction replies hsome hrest =>
        rw [respond_of_some hsome]
        rw [List.flatten_cons, ← List.append_assoc] at hsize ⊢
        rw [List.length_cons, if_pos (by rfl)] at hrequests
        exact ih hrest hturns (by omega) hsize
    | deliver size =>
      have hsplit : wire.toClient ++ replies.flatten
          = wire.toClient.take size ++ ((wire.drop size).toClient ++ replies.flatten) := by
        rw [drop, ← List.append_assoc, List.take_append_drop]
      rw [hsplit, List.length_append] at hsize
      rw [coming, hsplit]
      exact congrArg _ (@ih (wire.drop size) replies h hturns hrequests (by omega))
    | wait time => exact ih h hturns hrequests hsize
    | timeOut => exact absurd rfl hturn.1
    | close => exact absurd rfl hturn.2

end Wire

end Duplex

end McStatus
