import Clavis.Client.Session

/-!
# Clavis — heartbeat exchanges

`heartbeatExchange` and `heartbeatAttempt` of `pkg/client/session.go`, with everything that may run
beside them. An exchange sends one renewal and receives one response in a goroutine, which goes on
when the exchange has given up. A response carries nothing but the lease ID, so whether it answers
this renewal or an earlier one cannot be seen from it.

* `HeartbeatStream` — the requests of a stream, those that are outstanding and those that are not.
  Responses come in the order of the requests; they may be late, and some may be lost.
* `Exchanges` — the session with its streams, all exchanges there have been, and where the heartbeat
  loop is. Cancelling a stream only makes its `Send` and `Recv` fail, which here may happen at any
  time; so may the timeout of an exchange, and the end of its context.
* `Inv` — only the running exchange uses the session's current stream. It holds because an exchange
  that fails takes its stream out of the session before it returns, and a stream that is out never
  comes back.
* `acknowledges_own` — an exchange that returns nil has consumed the response to its own request,
  and the current stream has no outstanding request while no exchange is running.
-/

namespace Clavis

open Lib

/-- A `HeartbeatRequest`, with when and by which exchange it was sent. -/
structure HeartbeatRequest where
  leaseID : UInt64
  sentAt : Nat
  exchange : Nat

/-! ## Streams -/

structure HeartbeatStream where
  /-- The requests that have been answered, or passed over. -/
  settled : List HeartbeatRequest
  outstanding : List HeartbeatRequest

namespace HeartbeatStream

def new : HeartbeatStream := ⟨[], []⟩

def send (st : HeartbeatStream) (r : HeartbeatRequest) : HeartbeatStream :=
  { st with outstanding := st.outstanding ++ [r] }

/-- The response to the `i`th outstanding request is delivered. No response to an earlier one can
follow. -/
def deliver (st : HeartbeatStream) (i : Nat) : HeartbeatStream :=
  ⟨st.settled ++ st.outstanding.take (i + 1), st.outstanding.drop (i + 1)⟩

end HeartbeatStream

/-! ## Exchanges -/

/-- How an exchange fails; a cause is the text of the error that is passed on. -/
inductive ExchangeError where
  | send (cause : String)
  | recv (cause : String)
  | mismatch (got want : UInt64)
  | timedOut (timeout : String)
  | ctx (cause : String)

/-- The text of an error. -/
def ExchangeError.error : ExchangeError → String
  | send cause | recv cause | ctx cause => cause
  | mismatch got want =>
    "heartbeat response lease mismatch: got " ++ toString got ++ ", want " ++ toString want
  | timedOut timeout => "heartbeat acknowledgement timed out after " ++ timeout

/-- Where the goroutine of an exchange is. What it puts into the channel is nil together with the
request that the response answers, or an error. -/
inductive SenderPc where
  | sending
  | receiving
  | done (result : Except ExchangeError HeartbeatRequest)

def SenderPc.isDone : SenderPc → Bool
  | done _ => true
  | _ => false

structure Exchange where
  leaseID : UInt64
  stream : Nat
  startedAt : Nat
  sender : SenderPc
  /-- What `heartbeatExchange` has returned. -/
  outcome : Option (Except ExchangeError HeartbeatRequest)

/-- Where the heartbeat loop is. -/
inductive AttemptPc where
  /-- not in an attempt -/
  | idle
  /-- about to read the session, for the second time after a reconnect -/
  | reading (again : Bool)
  | reconnecting
  /-- about to call `heartbeatExchange` -/
  | ready (leaseID : UInt64) (stream : Nat)
  /-- in the `select` of an exchange -/
  | selecting (e stream : Nat)
  /-- in an exchange that has failed, about to close the stream -/
  | closing (e stream : Nat) (err : ExchangeError)

/-- The stream of the running exchange. -/
def AttemptPc.running : AttemptPc → Option Nat
  | selecting _ stream => some stream
  | closing _ stream _ => some stream
  | _ => none

/-- The session, its streams, and the exchanges. -/
structure Exchanges where
  session : Session
  now : Nat
  /-- How many streams have been opened; they are numbered. -/
  opened : Nat
  streams : Nat → HeartbeatStream
  exchanges : Nat → Option Exchange
  pc : AttemptPc

namespace Exchanges

/-- The moves of the goroutine of an exchange. -/
inductive SenderAct where
  | send
  /-- `Send` fails, the request being on its way or not -/
  | sendFails (cause : String) (sent : Bool)
  | recv (i : Nat) (got : UInt64)
  | recvFails (cause : String)

inductive Act where
  | tick (d : Nat)
  | startLease (leaseID : UInt64) (ttl : Duration)
  /-- a stream is opened outside the heartbeat loop -/
  | openStream
  /-- the critical section of `invalidate` -/
  | recordErr (err : SessionError)
  /-- the critical section of `stop` -/
  | dropHeartbeat
  | runCancel
  | attempt
  | heartbeatState
  | reconnect
  | reconnectFails
  | exchange (e : Nat)
  | sender (e : Nat) (a : SenderAct)
  /-- the three cases of the `select` -/
  | result
  | timeout (timeout : String)
  | ctxDone (cause : String)
  | closeHeartbeat

/-- A client without a stream. -/
def new (now : Nat) : Exchanges := ⟨.new, now, 0, fun _ => .new, fun _ => none, .idle⟩

/-- `openHeartbeatStream`, from the swap on. -/
def swap (s : Exchanges) : Exchanges :=
  { s with session := (s.session.swapHeartbeat (some s.opened) (some s.opened)).1,
           opened := s.opened + 1 }

/-- The goroutine of `e` moves, which leaves its stream as `st`. -/
def moveSender (s : Exchanges) (e : Nat) (x : Exchange) (st : HeartbeatStream)
    (sender : SenderPc) : Exchanges :=
  { s with streams := Function.update s.streams x.stream st,
           exchanges := Function.update s.exchanges e (some { x with sender := sender }) }

def stepSender (s : Exchanges) (e : Nat) (x : Exchange) (a : SenderAct) : Option Exchanges :=
  let st := s.streams x.stream
  let request : HeartbeatRequest := ⟨x.leaseID, s.now, e⟩
  match a, x.sender with
  | .send, .sending => some (s.moveSender e x (st.send request) .receiving)
  -- an error of `Send` does not say whether the request went out
  | .sendFails cause sent, .sending =>
    some (s.moveSender e x (if sent then st.send request else st) (.done (.error (.send cause))))
  | .recv i got, .receiving =>
    st.outstanding[i]?.map fun r => s.moveSender e x (st.deliver i)
      (.done (if got ≠ x.leaseID then .error (.mismatch got x.leaseID) else .ok r))
  | .recvFails cause, .receiving => some (s.moveSender e x st (.done (.error (.recv cause))))
  | _, _ => none

/-- The exchange `e` returns. -/
def finish (s : Exchanges) (e : Nat) (outcome : Except ExchangeError HeartbeatRequest) :
    Exchanges :=
  { s with pc := .idle,
           exchanges := Function.update s.exchanges e
             ((s.exchanges e).map fun x => { x with outcome := some outcome }) }

def step (s : Exchanges) (a : Act) : Option Exchanges :=
  match a, s.pc with
  | .tick d, _ => some { s with now := s.now + d }
  | .startLease leaseID ttl, _ => some { s with session := s.session.startLease leaseID ttl }
  | .openStream, _ => some s.swap
  | .recordErr err, _ => some { s with session := (s.session.recordErr err).1 }
  | .dropHeartbeat, _ => some { s with session := s.session.dropHeartbeat.1 }
  | .runCancel, _ => some { s with session := s.session.runCancel }
  | .sender e a, _ => (s.exchanges e).bind fun x => s.stepSender e x a
  | .attempt, .idle => some { s with pc := .reading false }
  | .heartbeatState, .reading again =>
    match s.session.heartbeatState with
    | (leaseID, some stream) => some { s with pc := .ready leaseID stream }
    -- without a stream the attempt reconnects once, and fails the second time
    | (_, none) => some { s with pc := if again then .idle else .reconnecting }
  | .reconnect, .reconnecting => some { s.swap with pc := .reading true }
  | .reconnectFails, .reconnecting => some { s with pc := .idle }
  | .exchange e, .ready leaseID stream =>
    if (s.exchanges e).isNone then
      some { s with
        exchanges := Function.update s.exchanges e
          (some ⟨leaseID, stream, s.now, .sending, none⟩)
        pc := .selecting e stream }
    else none
  | .result, .selecting e stream =>
    (s.exchanges e).bind fun x =>
      match x.sender with
      | .done (.ok r) => some (s.finish e (.ok r))
      -- any error takes the stream out of the session before the exchange returns
      | .done (.error err) => some { s with pc := .closing e stream err }
      | _ => none
  -- the goroutine is left behind, in whatever place it is
  | .timeout timeout, .selecting e stream =>
    some { s with pc := .closing e stream (.timedOut timeout) }
  | .ctxDone cause, .selecting e stream => some { s with pc := .closing e stream (.ctx cause) }
  | .closeHeartbeat, .closing e stream err =>
    some ({ s with session := (s.session.closeHeartbeat (some stream)).1 }.finish e (.error err))
  | _, _ => none

/-! ## What a move can do -/

/-- What the goroutine of `e` can do to its stream. -/
inductive SenderStep (s : Exchanges) (e : Nat) (x : Exchange) :
    HeartbeatStream → SenderPc → Prop where
  | sent (hpc : x.sender = .sending) :
      SenderStep s e x ((s.streams x.stream).send ⟨x.leaseID, s.now, e⟩) .receiving
  | failed (st : HeartbeatStream) (err : ExchangeError) (hpc : x.sender.isDone = false)
      (hsettled : st.settled = (s.streams x.stream).settled) :
      SenderStep s e x st (.done (.error err))
  | received (i : Nat) (r : HeartbeatRequest) (result : Except ExchangeError HeartbeatRequest)
      (hpc : x.sender = .receiving) (hr : (s.streams x.stream).outstanding[i]? = some r)
      (hresult : ∀ r', result = .ok r' → r' = r) :
      SenderStep s e x ((s.streams x.stream).deliver i) (.done result)

/-- **What a move can do.** -/
inductive Moved (s : Exchanges) : Exchanges → Prop where
  | ticked (d : Nat) : Moved s { s with now := s.now + d }
  | session (session : Session)
      (hstream : session.heartbeat = s.session.heartbeat ∨ session.heartbeat = none) :
      Moved s { s with session := session }
  | opened : Moved s s.swap
  | sender (e : Nat) (x : Exchange) (st : HeartbeatStream) (sender : SenderPc)
      (hx : s.exchanges e = some x) (hstep : SenderStep s e x st sender) :
      Moved s (s.moveSender e x st sender)
  | looped (pc : AttemptPc) (hidle : s.pc.running = none)
      (hpc : pc = .idle ∨ pc = .reconnecting ∨ ∃ again, pc = .reading again) :
      Moved s { s with pc := pc }
  | reconnected (hidle : s.pc.running = none) : Moved s { s.swap with pc := .reading true }
  | found (leaseID : UInt64) (stream : Nat) (hidle : s.pc.running = none)
      (hstream : s.session.heartbeat = some stream) :
      Moved s { s with pc := .ready leaseID stream }
  | began (e : Nat) (leaseID : UInt64) (stream : Nat) (hpc : s.pc = .ready leaseID stream)
      (hnew : s.exchanges e = none) :
      Moved s { s with
        exchanges := Function.update s.exchanges e
          (some ⟨leaseID, stream, s.now, .sending, none⟩)
        pc := .selecting e stream }
  | acknowledged (e stream : Nat) (x : Exchange) (r : HeartbeatRequest)
      (hpc : s.pc = .selecting e stream) (hx : s.exchanges e = some x)
      (hdone : x.sender = .done (.ok r)) : Moved s (s.finish e (.ok r))
  | failed (e stream : Nat) (err : ExchangeError) (hpc : s.pc = .selecting e stream) :
      Moved s { s with pc := .closing e stream err }
  | closed (e stream : Nat) (err : ExchangeError) (hpc : s.pc = .closing e stream err) :
      Moved s ({ s with session := (s.session.closeHeartbeat (some stream)).1 }.finish e
        (.error err))

theorem senderStep_of_stepSender {s s' : Exchanges} {e : Nat} {x : Exchange} {a : SenderAct}
    (hstep : s.stepSender e x a = some s') :
    ∃ st sender, SenderStep s e x st sender ∧ s' = s.moveSender e x st sender := by
  unfold stepSender at hstep
  split at hstep
  · rename_i hpc
    cases hstep
    exact ⟨_, _, .sent hpc, rfl⟩
  · rename_i cause sent hpc
    cases hstep
    refine ⟨_, _, .failed _ _ (by rw [hpc]; rfl) ?_, rfl⟩
    split <;> rfl
  · rename_i i got hpc
    obtain ⟨r, hr, heq⟩ := Option.map_eq_some_iff.mp hstep
    cases heq
    refine ⟨_, _, .received i r _ hpc hr ?_, rfl⟩
    intro r' hresult
    split at hresult
    · cases hresult
    · cases hresult
      rfl
  · rename_i cause hpc
    cases hstep
    exact ⟨_, _, .failed _ _ (by rw [hpc]; rfl) rfl, rfl⟩
  · cases hstep

theorem moved_of_step {s s' : Exchanges} {a : Act} (hstep : step s a = some s') : Moved s s' := by
  unfold step at hstep
  split at hstep
  · cases hstep
    exact .ticked _
  · cases hstep
    exact .session _ (Or.inl rfl)
  · cases hstep
    exact .opened
  · cases hstep
    exact .session _ (Or.inr rfl)
  · cases hstep
    exact .session _ (Or.inr rfl)
  · cases hstep
    exact .session _ (Or.inl rfl)
  · rename_i e a
    obtain ⟨x, hx, hmove⟩ := Option.bind_eq_some_iff.mp hstep
    obtain ⟨st, sender, hsender, rfl⟩ := senderStep_of_stepSender hmove
    exact .sender e x st sender hx hsender
  · rename_i hpc
    cases hstep
    exact .looped _ (by rw [hpc]; rfl) (Or.inr (Or.inr ⟨false, rfl⟩))
  · rename_i again hpc
    have hidle : s.pc.running = none := by rw [hpc]; rfl
    split at hstep
    · rename_i leaseID stream hstate
      cases hstep
      exact .found leaseID stream hidle (congrArg Prod.snd hstate)
    · cases hstep
      refine .looped _ hidle ?_
      cases again with
      | true => exact Or.inl rfl
      | false => exact Or.inr (Or.inl rfl)
  · rename_i hpc
    cases hstep
    exact .reconnected (by rw [hpc]; rfl)
  · rename_i hpc
    cases hstep
    exact .looped _ (by rw [hpc]; rfl) (Or.inl rfl)
  · rename_i e leaseID stream hpc
    obtain ⟨hnew, heq⟩ := Option.ite_none_right_eq_some.mp hstep
    cases heq
    exact .began e leaseID stream hpc (Option.isNone_iff_eq_none.mp hnew)
  · rename_i e stream hpc
    obtain ⟨x, hx, hresult⟩ := Option.bind_eq_some_iff.mp hstep
    split at hresult
    · rename_i r hdone
      cases hresult
      exact .acknowledged e stream x r hpc hx hdone
    · cases hresult
      exact .failed e stream _ hpc
    · cases hresult
  · rename_i hpc
    cases hstep
    exact .failed _ _ _ hpc
  · rename_i hpc
    cases hstep
    exact .failed _ _ _ hpc
  · rename_i hpc
    cases hstep
    exact .closed _ _ _ hpc
  · cases hstep

/-! ## The invariant -/

/-- The goroutine of `e` may still use the stream `n`. -/
def Uses (s : Exchanges) (e n : Nat) : Prop :=
  ∃ x, s.exchanges e = some x ∧ x.stream = n ∧ x.sender.isDone = false

/-- Nothing is outstanding on the stream, and no goroutine uses it. -/
def Quiet (s : Exchanges) (n : Nat) : Prop :=
  (s.streams n).outstanding = [] ∧ ∀ e, ¬ s.Uses e n

/-- The request of the exchange. -/
structure Own (e : Nat) (x : Exchange) (r : HeartbeatRequest) : Prop where
  exchange : r.exchange = e
  leaseID : r.leaseID = x.leaseID
  sentAt : x.startedAt ≤ r.sentAt

/-- What is true of the stream of the running exchange, by where its goroutine is. -/
def SenderOk (st : HeartbeatStream) (e : Nat) (x : Exchange) : SenderPc → Prop
  | .sending => st.outstanding = []
  | .receiving => ∃ r, st.outstanding = [r] ∧ Own e x r
  | .done (.ok r) => st.outstanding = [] ∧ r ∈ st.settled ∧ Own e x r
  | .done (.error _) => True

/-- What is true of the loop, by where it is. -/
def LoopOk (s : Exchanges) : AttemptPc → Prop
  | .ready _ n => n < s.opened ∧ s.Quiet n
  | .selecting e n => ∃ x, s.exchanges e = some x ∧ x.stream = n ∧ (∀ e', s.Uses e' n → e' = e) ∧
      SenderOk (s.streams n) e x x.sender
  | _ => True

structure Inv (s : Exchanges) : Prop where
  opened_heartbeat : ∀ n, s.session.heartbeat = some n → n < s.opened
  opened_exchange : ∀ e x, s.exchanges e = some x → x.stream < s.opened
  unopened : ∀ n, s.opened ≤ n → s.streams n = .new
  started : ∀ e x, s.exchanges e = some x → x.startedAt ≤ s.now
  /-- Only the running exchange uses the current stream. -/
  current : ∀ n, s.session.heartbeat = some n → s.pc.running ≠ some n → s.Quiet n
  loop : s.LoopOk s.pc
  acknowledged : ∀ e x r, s.exchanges e = some x → x.outcome = some (.ok r) →
    r ∈ (s.streams x.stream).settled ∧ Own e x r

theorem inv_new (now : Nat) : (new now).Inv where
  opened_heartbeat n h := by cases h
  opened_exchange e x h := by cases h
  unopened n _ := rfl
  started e x h := by cases h
  current n h := by cases h
  loop := trivial
  acknowledged e x r h := by cases h

/-- What is true of the loop depends on the streams and the exchanges only. -/
theorem LoopOk.congr {s s' : Exchanges} {pc : AttemptPc} (h : s.LoopOk pc)
    (hstreams : s'.streams = s.streams) (hexchanges : s'.exchanges = s.exchanges)
    (hopened : s.opened ≤ s'.opened) : s'.LoopOk pc := by
  cases pc with
  | ready l n =>
    simp only [LoopOk, Quiet, Uses, hstreams, hexchanges]
    exact ⟨Nat.lt_of_lt_of_le h.1 hopened, h.2⟩
  | selecting e n =>
    simp only [LoopOk, Uses, hstreams, hexchanges]
    exact h
  | idle | reading | reconnecting | closing => trivial

/-- A stream that has not been opened is quiet. -/
theorem Inv.quiet_unopened {s : Exchanges} (h : s.Inv) : s.Quiet s.opened := by
  refine ⟨by rw [h.unopened s.opened le_rfl]; rfl, ?_⟩
  rintro e ⟨x, hx, hstream, -⟩
  exact absurd (h.opened_exchange e x hx) (by omega)

/-- Opening a stream keeps the invariant: the new stream is quiet. -/
theorem Inv.swap {s : Exchanges} (h : s.Inv) : s.swap.Inv where
  opened_heartbeat n hn := by
    cases hn
    exact Nat.lt_succ_self s.opened
  opened_exchange e x hx := Nat.lt_succ_of_lt (h.opened_exchange e x hx)
  unopened n hn := h.unopened n (Nat.le_of_succ_le hn)
  started := h.started
  current n hn _ := by
    cases hn
    exact h.quiet_unopened
  loop := h.loop.congr rfl rfl (Nat.le_succ s.opened)
  acknowledged := h.acknowledged

/-- The loop moves on when it is not in an exchange. -/
theorem Inv.setPc {s : Exchanges} (h : s.Inv) {pc : AttemptPc} (hidle : s.pc.running = none)
    (hloop : s.LoopOk pc) : Inv { s with pc := pc } where
  opened_heartbeat := h.opened_heartbeat
  opened_exchange := h.opened_exchange
  unopened := h.unopened
  started := h.started
  current n hn _ := h.current n hn (by rw [hidle]; nofun)
  loop := hloop.congr rfl rfl le_rfl
  acknowledged := h.acknowledged

/-! ### Goroutines -/

theorem SenderStep.isDone_eq {s : Exchanges} {e : Nat} {x : Exchange} {st : HeartbeatStream}
    {sender : SenderPc} (h : SenderStep s e x st sender) : x.sender.isDone = false := by
  cases h with
  | sent hpc | received i r result hpc =>
    rw [hpc]
    rfl
  | failed _ err hpc => exact hpc

theorem SenderStep.settled_subset {s : Exchanges} {e : Nat} {x : Exchange} {st : HeartbeatStream}
    {sender : SenderPc} (h : SenderStep s e x st sender) :
    (s.streams x.stream).settled ⊆ st.settled := by
  cases h with
  | sent => exact List.Subset.refl _
  | failed _ _ _ hsettled => exact hsettled ▸ List.Subset.refl _
  | received => exact List.subset_append_left ..

/-- The running exchange's own goroutine moves. -/
theorem SenderStep.senderOk {s : Exchanges} {e : Nat} {x : Exchange} {st : HeartbeatStream}
    {sender : SenderPc} (h : SenderStep s e x st sender) (hstarted : x.startedAt ≤ s.now)
    (hok : SenderOk (s.streams x.stream) e x x.sender) :
    SenderOk st e { x with sender := sender } sender := by
  cases h with
  | sent hpc =>
    rw [hpc] at hok
    refine ⟨⟨x.leaseID, s.now, e⟩, ?_, rfl, rfl, hstarted⟩
    show (s.streams x.stream).outstanding ++ _ = _
    rw [hok, List.nil_append]
  | failed => trivial
  | received i r result hpc hr hresult =>
    cases result with
    | error err => trivial
    | ok r' =>
      rw [hpc] at hok
      obtain ⟨own, hout, hown⟩ := hok
      have hr' : r' = r := hresult r' rfl
      subst hr'
      -- its own request is the only one that is outstanding
      rw [hout] at hr
      obtain ⟨hi, hown'⟩ := List.getElem?_eq_some_iff.mp hr
      have hi0 : i = 0 := Nat.lt_one_iff.mp hi
      subst hi0
      cases hown'
      refine ⟨?_, ?_, hown.exchange, hown.leaseID, hown.sentAt⟩
      · show (s.streams x.stream).outstanding.drop 1 = []
        rw [hout]
        rfl
      · show _ ∈ (s.streams x.stream).settled ++ (s.streams x.stream).outstanding.take 1
        rw [hout]
        exact List.mem_append_right _ List.mem_cons_self

section Sender

variable {s : Exchanges} {e : Nat} {x : Exchange} {st : HeartbeatStream} {sender : SenderPc}

theorem streams_moveSender {n : Nat} (hn : n ≠ x.stream) :
    (s.moveSender e x st sender).streams n = s.streams n :=
  Function.update_of_ne hn ..

theorem exchanges_moveSender_self :
    (s.moveSender e x st sender).exchanges e = some { x with sender := sender } :=
  Function.update_self ..

/-- The exchanges after the goroutine of `e` has moved. -/
theorem exchanges_moveSender {e' : Nat} {x' : Exchange}
    (h : (s.moveSender e x st sender).exchanges e' = some x') :
    e' = e ∧ x' = { x with sender := sender } ∨ e' ≠ e ∧ s.exchanges e' = some x' :=
  update_some_eq_some h

/-- A goroutine that has moved was using its stream before. -/
theorem uses_of_moveSender (hx : s.exchanges e = some x) (hlive : x.sender.isDone = false)
    {e' n : Nat} (h : (s.moveSender e x st sender).Uses e' n) : s.Uses e' n := by
  obtain ⟨x', hx', hstream, hdone⟩ := h
  rcases exchanges_moveSender hx' with ⟨rfl, rfl⟩ | ⟨-, hold⟩
  · exact ⟨x, hx, hstream, hlive⟩
  · exact ⟨x', hold, hstream, hdone⟩

/-- A goroutine does not disturb a quiet stream. -/
theorem Quiet.moveSender {n : Nat} (h : s.Quiet n) (hx : s.exchanges e = some x)
    (hlive : x.sender.isDone = false) : (s.moveSender e x st sender).Quiet n := by
  have hn : n ≠ x.stream := by
    rintro rfl
    exact h.2 e ⟨x, hx, rfl, hlive⟩
  refine ⟨?_, fun e' huses => h.2 e' (uses_of_moveSender hx hlive huses)⟩
  rw [streams_moveSender hn]
  exact h.1

theorem Inv.moveSender (h : s.Inv) (hx : s.exchanges e = some x)
    (hstep : SenderStep s e x st sender) : (s.moveSender e x st sender).Inv where
  opened_heartbeat := h.opened_heartbeat
  opened_exchange e' x' hx' := by
    rcases exchanges_moveSender hx' with ⟨rfl, rfl⟩ | ⟨-, hold⟩
    · exact h.opened_exchange e' x hx
    · exact h.opened_exchange e' x' hold
  unopened n hn := by
    have hne : n ≠ x.stream := by
      rintro rfl
      exact absurd (h.opened_exchange e x hx) (Nat.not_lt.mpr hn)
    rw [streams_moveSender hne]
    exact h.unopened n hn
  started e' x' hx' := by
    rcases exchanges_moveSender hx' with ⟨rfl, rfl⟩ | ⟨-, hold⟩
    · exact h.started e' x hx
    · exact h.started e' x' hold
  current n hn hrunning := (h.current n hn hrunning).moveSender hx hstep.isDone_eq
  loop := by
    show (s.moveSender e x st sender).LoopOk s.pc
    have hloop := h.loop
    cases hpc : s.pc with
    | ready l n =>
      rw [hpc] at hloop
      exact ⟨hloop.1, hloop.2.moveSender hx hstep.isDone_eq⟩
    | selecting e' n =>
      rw [hpc] at hloop
      obtain ⟨x', hx', rfl, honly, hok⟩ := hloop
      have honly' : ∀ e'', (s.moveSender e x st sender).Uses e'' x'.stream → e'' = e' :=
        fun e'' huses => honly e'' (uses_of_moveSender hx hstep.isDone_eq huses)
      by_cases he : e = e'
      · subst he
        rw [hx] at hx'
        cases hx'
        refine ⟨_, exchanges_moveSender_self, rfl, honly', ?_⟩
        show SenderOk (Function.update s.streams x.stream st x.stream) e _ sender
        rw [Function.update_self]
        exact hstep.senderOk (h.started e x hx) hok
      · -- an abandoned goroutine uses another stream
        have hn : x'.stream ≠ x.stream := by
          intro heq
          exact he (honly e ⟨x, hx, heq.symm, hstep.isDone_eq⟩)
        refine ⟨x', (Function.update_of_ne (Ne.symm he) ..).trans hx', rfl, honly', ?_⟩
        rw [streams_moveSender hn]
        exact hok
    | idle | reading | reconnecting | closing => trivial
  acknowledged e' x' r hx' houtcome := by
    have hgrows : ∀ n,
        (s.streams n).settled ⊆ ((s.moveSender e x st sender).streams n).settled := by
      intro n
      by_cases hn : n = x.stream
      · subst hn
        show _ ⊆ (Function.update s.streams x.stream st x.stream).settled
        rw [Function.update_self]
        exact hstep.settled_subset
      · rw [streams_moveSender hn]
        exact List.Subset.refl _
    rcases exchanges_moveSender hx' with ⟨rfl, rfl⟩ | ⟨-, hold⟩
    · obtain ⟨hmem, hown⟩ := h.acknowledged e' x r hx houtcome
      exact ⟨hgrows _ hmem, hown.exchange, hown.leaseID, hown.sentAt⟩
    · obtain ⟨hmem, hown⟩ := h.acknowledged e' x' r hold houtcome
      exact ⟨hgrows _ hmem, hown⟩

end Sender

/-! ### The loop -/

/-- The session loses its stream, or keeps it. -/
theorem Inv.session {s : Exchanges} (h : s.Inv) {session : Session}
    (hstream : session.heartbeat = s.session.heartbeat ∨ session.heartbeat = none) :
    Inv { s with session := session } := by
  have hkept : ∀ n, session.heartbeat = some n → s.session.heartbeat = some n := by
    intro n hn
    rcases hstream with hsame | hnone
    · rw [← hsame, hn]
    · rw [hnone] at hn
      cases hn
  exact {
    opened_heartbeat := fun n hn => h.opened_heartbeat n (hkept n hn)
    opened_exchange := h.opened_exchange
    unopened := h.unopened
    started := h.started
    current := fun n hn => h.current n (hkept n hn)
    loop := h.loop.congr rfl rfl le_rfl
    acknowledged := h.acknowledged }

theorem Inv.tick {s : Exchanges} (h : s.Inv) (d : Nat) : Inv { s with now := s.now + d } where
  opened_heartbeat := h.opened_heartbeat
  opened_exchange := h.opened_exchange
  unopened := h.unopened
  started e x hx := Nat.le_add_right_of_le (h.started e x hx)
  current := h.current
  loop := h.loop.congr rfl rfl le_rfl
  acknowledged := h.acknowledged

/-- An exchange begins on a quiet stream. -/
theorem Inv.exchange {s : Exchanges} (h : s.Inv) {e n : Nat} {leaseID : UInt64}
    (hpc : s.pc = .ready leaseID n) :
    Inv { s with
      exchanges := Function.update s.exchanges e (some ⟨leaseID, n, s.now, .sending, none⟩)
      pc := .selecting e n } := by
  have hloop := h.loop
  rw [hpc] at hloop
  obtain ⟨hopened, hquiet⟩ := hloop
  exact {
    opened_heartbeat := h.opened_heartbeat
    opened_exchange := by
      intro e' x' hx'
      rcases update_some_eq_some hx' with ⟨-, rfl⟩ | ⟨-, hold⟩
      · exact hopened
      · exact h.opened_exchange e' x' hold
    unopened := h.unopened
    started := by
      intro e' x' hx'
      rcases update_some_eq_some hx' with ⟨-, rfl⟩ | ⟨-, hold⟩
      · exact le_rfl
      · exact h.started e' x' hold
    current := by
      intro m hm hrunning
      obtain ⟨hout, hnone⟩ := h.current m hm (by rw [hpc]; nofun)
      refine ⟨hout, ?_⟩
      rintro e' ⟨x', hx', hstream, hlive⟩
      rcases update_some_eq_some hx' with ⟨-, rfl⟩ | ⟨-, hold⟩
      · exact hrunning (congrArg some hstream)
      · exact hnone e' ⟨x', hold, hstream, hlive⟩
    loop := by
      refine ⟨_, Function.update_self .., rfl, ?_, hquiet.1⟩
      rintro e' ⟨x', hx', hstream, hlive⟩
      rcases update_some_eq_some hx' with ⟨he, -⟩ | ⟨-, hold⟩
      · exact he
      · exact absurd ⟨x', hold, hstream, hlive⟩ (hquiet.2 e')
    acknowledged := by
      intro e' x' r hx' houtcome
      rcases update_some_eq_some hx' with ⟨-, rfl⟩ | ⟨-, hold⟩
      · cases houtcome
      · exact h.acknowledged e' x' r hold houtcome }

/-- The exchanges after `e` has returned. -/
theorem exchanges_finish {s : Exchanges} {e e' : Nat}
    {outcome : Except ExchangeError HeartbeatRequest} {x' : Exchange}
    (h : (s.finish e outcome).exchanges e' = some x') :
    (∃ x, e' = e ∧ s.exchanges e = some x ∧ x' = { x with outcome := some outcome }) ∨
      s.exchanges e' = some x' := by
  rcases update_eq_some h with ⟨he, hentry⟩ | ⟨-, hold⟩
  · obtain ⟨x, hx, heq⟩ := Option.map_eq_some_iff.mp hentry
    exact Or.inl ⟨x, he, hx, heq.symm⟩
  · exact Or.inr hold

/-- An exchange returns, when the current stream is quiet and a response it has consumed answers its
own request. -/
theorem Inv.finish {s : Exchanges} (h : s.Inv) {e : Nat}
    {outcome : Except ExchangeError HeartbeatRequest}
    (hquiet : ∀ n, s.session.heartbeat = some n → s.Quiet n)
    (hown : ∀ x r, s.exchanges e = some x → outcome = .ok r →
      r ∈ (s.streams x.stream).settled ∧ Own e x r) : (s.finish e outcome).Inv where
  opened_heartbeat := h.opened_heartbeat
  opened_exchange e' x' hx' := by
    rcases exchanges_finish hx' with ⟨x, rfl, hx, rfl⟩ | hold
    · exact h.opened_exchange e' x hx
    · exact h.opened_exchange e' x' hold
  unopened := h.unopened
  started e' x' hx' := by
    rcases exchanges_finish hx' with ⟨x, rfl, hx, rfl⟩ | hold
    · exact h.started e' x hx
    · exact h.started e' x' hold
  current n hn _ := by
    obtain ⟨hout, hnone⟩ := hquiet n hn
    refine ⟨hout, ?_⟩
    rintro e' ⟨x', hx', hstream, hlive⟩
    rcases exchanges_finish hx' with ⟨x, rfl, hx, rfl⟩ | hold
    · exact hnone e' ⟨x, hx, hstream, hlive⟩
    · exact hnone e' ⟨x', hold, hstream, hlive⟩
  loop := trivial
  acknowledged e' x' r hx' houtcome := by
    rcases exchanges_finish hx' with ⟨x, rfl, hx, rfl⟩ | hold
    · obtain ⟨hmem, hown⟩ := hown x r hx (Option.some.inj houtcome)
      exact ⟨hmem, hown.exchange, hown.leaseID, hown.sentAt⟩
    · exact h.acknowledged e' x' r hold houtcome

/-- A response was consumed: the stream is quiet again. -/
theorem Inv.acknowledge {s : Exchanges} (h : s.Inv) {e n : Nat} {x : Exchange}
    {r : HeartbeatRequest} (hpc : s.pc = .selecting e n) (hx : s.exchanges e = some x)
    (hdone : x.sender = .done (.ok r)) : (s.finish e (.ok r)).Inv := by
  have hloop := h.loop
  rw [hpc] at hloop
  obtain ⟨x', hx', rfl, honly, hok⟩ := hloop
  rw [hx] at hx'
  cases hx'
  rw [hdone] at hok
  obtain ⟨hout, hmem, hown⟩ := hok
  refine h.finish ?_ ?_
  · intro m hm
    by_cases hn : m = x.stream
    · -- its own goroutine was the only one on the stream, and it is done
      subst hn
      refine ⟨hout, fun e' huses => ?_⟩
      have he := honly e' huses
      subst he
      obtain ⟨x', hx', -, hlive⟩ := huses
      rw [hx] at hx'
      cases hx'
      rw [hdone] at hlive
      cases hlive
    · refine h.current m hm ?_
      rw [hpc]
      intro heq
      exact hn (Option.some.inj heq).symm
  · intro x' r' hx' heq
    rw [hx] at hx'
    cases hx'
    cases heq
    exact ⟨hmem, hown⟩

theorem closeHeartbeat_heartbeat (s : Session) (stream : Option Nat) :
    (s.closeHeartbeat stream).1.heartbeat = s.heartbeat ∧ s.heartbeat ≠ stream ∨
      (s.closeHeartbeat stream).1.heartbeat = none := by
  by_cases h : s.heartbeat ≠ stream
  · rw [Session.closeHeartbeat, if_pos h]
    exact Or.inl ⟨rfl, h⟩
  · rw [Session.closeHeartbeat, if_neg h]
    exact Or.inr rfl

/-- A failed exchange returns: its stream is not the current one any more. -/
theorem Inv.close {s : Exchanges} (h : s.Inv) {e n : Nat} {err : ExchangeError}
    (hpc : s.pc = .closing e n err) :
    ({ s with session := (s.session.closeHeartbeat (some n)).1 }.finish e (.error err)).Inv := by
  have hstream := closeHeartbeat_heartbeat s.session (some n)
  refine (h.session (hstream.imp_left And.left)).finish ?_ ?_
  · intro m hm
    rcases hstream with ⟨hsame, hne⟩ | hnone
    · -- the session had another stream already
      have hm' : s.session.heartbeat = some m := hsame.symm.trans hm
      refine h.current m hm' ?_
      rw [hpc]
      intro heq
      exact hne (hm'.trans heq.symm)
    · have hcontra := hnone.symm.trans hm
      cases hcontra
  · intro x r _ heq
    cases heq

/-- **One move keeps the invariant.** -/
theorem Inv.step {s s' : Exchanges} (h : s.Inv) (hm : Moved s s') : s'.Inv := by
  cases hm with
  | ticked d => exact h.tick d
  | session session hstream => exact h.session hstream
  | opened => exact h.swap
  | sender e x st sender hx hstep => exact h.moveSender hx hstep
  | looped pc hidle hpc =>
    rcases hpc with rfl | rfl | ⟨again, rfl⟩
    · exact h.setPc hidle trivial
    · exact h.setPc hidle trivial
    · exact h.setPc hidle trivial
  | reconnected hidle => exact h.swap.setPc hidle trivial
  | found leaseID stream hidle hstream =>
    refine h.setPc hidle ⟨h.opened_heartbeat stream hstream, h.current stream hstream ?_⟩
    rw [hidle]
    nofun
  | began e leaseID stream hpc hnew => exact h.exchange hpc
  | acknowledged e stream x r hpc hx hdone => exact h.acknowledge hpc hx hdone
  | failed e stream err hpc =>
    refine ⟨h.opened_heartbeat, h.opened_exchange, h.unopened, h.started, ?_, trivial,
      h.acknowledged⟩
    intro n hn hrunning
    refine h.current n hn ?_
    rw [hpc]
    exact hrunning
  | closed e stream err hpc => exact h.close hpc

/-! ## Runs -/

/-- **Acknowledgements are never credited to a later renewal.** In every run of a new client: an
exchange that has returned nil has consumed the response to a request for its lease that it sent
itself, on its stream, no earlier than it started; and while no exchange is running, the current
stream has no outstanding request. -/
theorem acknowledges_own (t : Trace step) {now : Nat} (hstart : t.start = new now) (k : Nat) :
    (∀ e x r, (t.state k).exchanges e = some x → x.outcome = some (.ok r) →
      r ∈ ((t.state k).streams x.stream).settled ∧ r.exchange = e ∧ r.leaseID = x.leaseID ∧
        x.startedAt ≤ r.sentAt) ∧
    ∀ n, (t.state k).session.heartbeat = some n → (t.state k).pc.running = none →
      ((t.state k).streams n).outstanding = [] := by
  have hinv : (t.state k).Inv := by
    refine t.invariant (I := Inv) ?_ (fun _ _ _ hstep hI => hI.step (moved_of_step hstep)) k
    rw [hstart]
    exact inv_new now
  constructor
  · intro e x r hx houtcome
    obtain ⟨hmem, hown⟩ := hinv.acknowledged e x r hx houtcome
    exact ⟨hmem, hown.exchange, hown.leaseID, hown.sentAt⟩
  · intro n hn hidle
    refine (hinv.current n hn ?_).1
    rw [hidle]
    nofun

/-- An exchange times out, and its goroutine receives the response after the loop has reconnected;
the next exchange gets its own response on the new stream. -/
def lateResponse : Trace step where
  start := new 0
  acts := [.startLease 7 3000000000, .openStream, .tick 1, .attempt, .heartbeatState, .exchange 0,
    .sender 0 .send, .tick 1, .timeout "1s", .closeHeartbeat, .attempt, .heartbeatState, .reconnect,
    .heartbeatState, .exchange 1, .sender 0 (.recv 0 7), .tick 1, .sender 1 .send,
    .sender 1 (.recv 0 7), .result]
  enabled := by decide

/-- The acknowledged exchange of that run. -/
def lateExchange : Exchange := ⟨7, 1, 2, .done (.ok ⟨7, 3, 1⟩), some (.ok ⟨7, 3, 1⟩)⟩

theorem acknowledges_own_lateResponse :
    (lateResponse.state 20).exchanges 1 = some lateExchange ∧ lateExchange.startedAt ≤ 3 := by
  have hx : (lateResponse.state 20).exchanges 1 = some lateExchange := rfl
  obtain ⟨-, -, -, hsent⟩ := (acknowledges_own lateResponse rfl 20).1 1 _ _ hx rfl
  exact ⟨hx, hsent⟩

end Exchanges

end Clavis
