import Clavis.Lib.Returns
import Clavis.Client.Exchange
import Clavis.Client.Heartbeat
import Clavis.Client.Resolver

/-!
# Clavis — the time a heartbeat attempt takes

`Client.heartbeatAttemptWithin` (`pkg/client/session.go`) and everything it calls, with
`resolver.discoverLeader` (`pkg/client/resolver.go`), in logical time. The model of the heartbeat
loop takes it for granted that an attempt returns by its timeout; here the attempt itself is
modelled. A blocking call returns when the server answers, and at the latest when the context it was
given ends. Everything else takes no time.

Every wait of an attempt is under a context that ends with the attempt's, except one: a stream is
opened with the session's context, since it is to outlive the attempt. An attempt with a stream in
the session returns in time, and so does one that has no node to ask; one that opens a stream may be
held up by a node that does not answer, for as long as the session lasts.
`heartbeatAttemptWithin_endsBy_iff` says for which clients and contexts an attempt returns in time
whatever the servers do.
-/

namespace Clavis

open Lib

/-! ## What an attempt meets -/

/-- The errors of an attempt. -/
inductive AttemptError where
  /-- of `connFor` -/
  | connect (addr cause : String)
  /-- of `GetStatus` -/
  | status (err : CallError)
  | noNodes
  | discover (err : AttemptError)
  /-- of opening a stream -/
  | stream (err : CallError)
  | unavailable
  | exchange (err : ExchangeError)

/-- The text of an error. -/
def AttemptError.error : AttemptError → String
  | connect addr cause => "failed to connect to " ++ addr ++ ": " ++ cause
  | status err => err.text
  | noNodes => "no reachable cluster nodes"
  | discover err => "discover leader: " ++ err.error
  | stream err => "heartbeat stream: " ++ err.text
  | unavailable => "heartbeat stream unavailable"
  | exchange err => err.error

/-- `ctx.Err().Error()`. -/
def ctxErrText : ContextErr → String
  | .canceled => "context canceled"
  | .deadlineExceeded => "context deadline exceeded"

/-- The error of a gRPC call whose context has ended. -/
def ctxCallError : ContextErr → CallError
  | .canceled => ⟨.canceled, "", "rpc error: code = Canceled desc = context canceled"⟩
  | .deadlineExceeded =>
    ⟨.deadlineExceeded, "", "rpc error: code = DeadlineExceeded desc = context deadline exceeded"⟩

/-- One round of `discoverLeader`: whether `grpc.NewClient` fails, and the answer to `GetStatus`. -/
structure Probe where
  dialErr : Option String
  status : Blocking (Except CallError StatusResponse)

/-- The opening of a stream, which is a number. -/
structure Opening where
  dialErr : Option String
  heartbeat : Blocking (Except CallError Nat)

/-- What the servers, the network and other goroutines do during an attempt. -/
structure Surroundings where
  /-- `c.session.context()`; the streams' contexts end with it -/
  sessionCtx : Context
  probes : Nat → Probe
  opening : String → Opening
  /-- done to the session by others before it is read again after a reconnect -/
  others : Session → Session
  send : Blocking (Option String)
  recv : Blocking (Except String UInt64)
  /-- which of several ready cases a `select` takes -/
  pick : Nat
  /-- `Duration.String` -/
  durationString : Int → String

/-- `Client`, as far as an attempt uses it. -/
structure Client where
  session : Session
  resolver : Resolver
deriving DecidableEq

namespace Client

variable (env : Surroundings)

/-! ## The code -/

def updateSession (f : Session → Session) : InTime Client Unit :=
  InTime.update fun c => { c with session := f c.session }

def updateResolver (f : Resolver → Resolver) : InTime Client Unit :=
  InTime.update fun c => { c with resolver := f c.resolver }

/-- The loop of `discoverLeader`, from the `i`th candidate on. -/
def discoverFrom (ctx : Context) (i : Nat) (addrs : List String)
    (lastErr : Option AttemptError) : InTime Client (Except AttemptError String) :=
  match addrs with
  | [] => return .error (.discover (lastErr.getD .noNodes))
  | addr :: addrs => do
    let statusCtx := ctx.withTimeout (← InTime.now) (2 * second)
    match (env.probes i).dialErr with
    | some cause => discoverFrom ctx (i + 1) addrs (some (.connect addr cause))
    | none =>
      match ← InTime.await (statusCtx.call (env.probes i).status (.error ∘ ctxCallError)) with
      | .error err =>
        if err.hint ≠ "" then
          updateResolver (·.rememberAddr err.hint)
          return .ok err.hint
        else discoverFrom ctx (i + 1) addrs (some (.status err))
      | .ok resp =>
        updateResolver (·.rememberStatus (some resp))
        if resp.leaderGrpcAddress ≠ "" then return .ok resp.leaderGrpcAddress
        else if resp.isLeader ∧ resp.grpcAddress ≠ "" then return .ok resp.grpcAddress
        -- a node that knows no leader is not an error: `lastErr` stays as it is
        else discoverFrom ctx (i + 1) addrs lastErr

def discoverLeader (ctx : Context) : InTime Client (Except AttemptError String) := do
  discoverFrom env ctx 0 (← InTime.read (·.resolver.candidateAddrs)) none

/-- `client.Heartbeat(streamCtx)`, on the connection to `addr`. -/
def callHeartbeat (ctx : Context) (addr : String) : InTime Client (Except CallError Nat) :=
  InTime.await (ctx.call (env.opening addr).heartbeat (.error ∘ ctxCallError))

/-- `openHeartbeatStream` once the call has returned. -/
def keepStream (addr : String) : Except CallError Nat → InTime Client (Option AttemptError)
  | .error err => return some (.stream err)
  | .ok stream => do
    updateSession fun s => (s.swapHeartbeat (some stream) (some stream)).1
    updateResolver (·.rememberAddr addr)
    return none

def openHeartbeatStream (ctx : Context) (addr : String) : InTime Client (Option AttemptError) :=
  match (env.opening addr).dialErr with
  | some cause => return some (.connect addr cause)
  | none => do keepStream addr (← callHeartbeat env ctx addr)

def reconnectHeartbeat (ctx : Context) : InTime Client (Option AttemptError) := do
  match ← discoverLeader env ctx with
  | .error err => return some err
  -- not `ctx`: the stream is to outlive the attempt
  | .ok leaderAddr => openHeartbeatStream env env.sessionCtx leaderAddr

/-- The goroutine of an exchange that starts at `now`: when it puts what into the channel. -/
def exchangeResult (leaseID : UInt64) (now : Int) : Option (Int × Option ExchangeError) :=
  match env.sessionCtx.call env.send (some ∘ ctxErrText) now with
  | none => none
  | some (sent, some cause) => some (sent, some (.send cause))
  | some (sent, none) =>
    (env.sessionCtx.call env.recv (.error ∘ ctxErrText) sent).map fun
      | (received, .error cause) => (received, some (.recv cause))
      | (received, .ok got) =>
        (received, if got ≠ leaseID then some (.mismatch got leaseID) else none)

/-- The `select` of an exchange that starts at `now`. -/
def exchangeSelect (ctx : Context) (leaseID : UInt64) (timeout now : Int) :
    Int × Option ExchangeError :=
  select env.pick (max now (now + timeout), some (.timedOut (env.durationString timeout)))
    ((exchangeResult env leaseID now).toList ++
      ((ctx.done now).map fun e => (e.1, some (ExchangeError.ctx (ctxErrText e.2)))).toList)

def heartbeatExchange (ctx : Context) (leaseID : UInt64) (stream : Nat) (timeout : Int) :
    InTime Client (Option ExchangeError) := do
  let err ← InTime.await fun now => some (exchangeSelect env ctx leaseID timeout now)
  match err with
  | some err =>
    updateSession fun s => (s.closeHeartbeat (some stream)).1
    return some err
  | none => return none

/-- The end of `heartbeatAttempt`, with what was read of the session. -/
def exchangeOn (ctx : Context) (timeout : Int) :
    UInt64 × Option Nat → InTime Client (Option AttemptError)
  | (_, none) => return some .unavailable
  | (leaseID, some stream) =>
    return (← heartbeatExchange env ctx leaseID stream timeout).map .exchange

/-- `heartbeatAttempt` after a reconnect. -/
def afterReconnect (ctx : Context) (timeout : Int) :
    Option AttemptError → InTime Client (Option AttemptError)
  | some err => return some err
  | none => do
    updateSession env.others
    exchangeOn env ctx timeout (← InTime.read (·.session.heartbeatState))

def heartbeatAttempt (ctx : Context) (timeout : Int) : InTime Client (Option AttemptError) := do
  let state ← InTime.read (·.session.heartbeatState)
  if state.2 = none then
    afterReconnect env ctx timeout (← reconnectHeartbeat env ctx)
  else exchangeOn env ctx timeout state

def heartbeatAttemptWithin (ctx : Context) (timeout : Int) :
    InTime Client (Option AttemptError) := do
  let attemptCtx := ctx.withTimeout (← InTime.now) timeout
  heartbeatAttempt env attemptCtx timeout

/-! ## How long it takes -/

section Time

variable {env} {ctx : Context} {limit : Int}

theorem timely_updateSession (f : Session → Session) : (updateSession f).Timely limit :=
  InTime.timely_update _

theorem timely_updateResolver (f : Resolver → Resolver) : (updateResolver f).Timely limit :=
  InTime.timely_update _

/-- Discovery ends with its context, however many nodes it asks. -/
theorem timely_discoverFrom (h : ctx.EndsBy limit) (i : Nat) (addrs : List String)
    (lastErr : Option AttemptError) : (discoverFrom env ctx i addrs lastErr).Timely limit := by
  induction addrs generalizing i lastErr with
  | nil => exact InTime.timely_pure _
  | cons addr addrs ih =>
    rw [discoverFrom]
    refine InTime.timely_now.bind fun now => ?_
    split
    · exact ih _ _
    · -- the status context ends with the one it is made from
      refine (Context.timely_call (h.withTimeout now _)).bind fun answer => ?_
      split
      · split
        · exact (timely_updateResolver _).bind fun _ => InTime.timely_pure _
        · exact ih _ _
      · refine (timely_updateResolver _).bind fun _ => ?_
        split
        · exact InTime.timely_pure _
        · split
          · exact InTime.timely_pure _
          · exact ih _ _

theorem timely_discoverLeader (h : ctx.EndsBy limit) : (discoverLeader env ctx).Timely limit :=
  (InTime.timely_read _).bind fun _ => timely_discoverFrom h _ _ _

theorem le_exchangeResult {leaseID : UInt64} {now : Int} {r : Int × Option ExchangeError}
    (h : exchangeResult env leaseID now = some r) : now ≤ r.1 := by
  unfold exchangeResult at h
  split at h
  · cases h
  · rename_i hsend
    have hle := Context.le_call _ _ hsend
    cases h
    exact hle
  · rename_i hsend
    obtain ⟨received, hrecv, rfl⟩ := Option.map_eq_some_iff.mp h
    have hle := (Context.le_call _ _ hsend).trans (Context.le_call _ _ hrecv)
    split <;> exact hle

/-- Every case of the `select` is in the future. -/
theorem le_exchangeSelect (ctx : Context) (leaseID : UInt64) (timeout now : Int) :
    now ≤ (exchangeSelect env ctx leaseID timeout now).1 := by
  have hcases : ∀ e ∈ (max now (now + timeout),
      some (ExchangeError.timedOut (env.durationString timeout))) ::
        ((exchangeResult env leaseID now).toList ++
          ((ctx.done now).map fun e => (e.1, some (ExchangeError.ctx (ctxErrText e.2)))).toList),
      now ≤ e.1 := by
    intro e he
    rcases List.mem_cons.mp he with rfl | hrest
    · exact le_max_left _ _
    · rcases List.mem_append.mp hrest with hresult | hdone
      · exact le_exchangeResult (Option.mem_toList.mp hresult)
      · obtain ⟨e, hends, rfl⟩ := Option.map_eq_some_iff.mp (Option.mem_toList.mp hdone)
        exact Context.le_done hends
  exact hcases _ (select_spec _ _ _).1

/-- One of its cases is the end of the context. -/
theorem exchangeSelect_le {now : Int} {e : Int × ContextErr} (hdone : ctx.done now = some e)
    (leaseID : UInt64) (timeout : Int) :
    (exchangeSelect env ctx leaseID timeout now).1 ≤ e.1 := by
  refine (select_spec _ _ _).2 (e.1, some (ExchangeError.ctx (ctxErrText e.2))) ?_
  refine List.mem_cons_of_mem _ (List.mem_append_right _ (Option.mem_toList.mpr ?_))
  rw [hdone]
  rfl

/-- An exchange ends with its context, whatever `Send` and `Recv` do. -/
theorem timely_heartbeatExchange (h : ctx.EndsBy limit) (leaseID : UInt64) (stream : Nat)
    (timeout : Int) : (heartbeatExchange env ctx leaseID stream timeout).Timely limit := by
  refine InTime.Timely.bind (InTime.timely_await ?_ ?_) fun err => ?_
  · rintro now _ ⟨⟩
    exact le_exchangeSelect ctx leaseID timeout now
  · intro now hnow
    obtain ⟨e, hdone, hle⟩ := h.done hnow
    exact ⟨_, rfl, (exchangeSelect_le hdone leaseID timeout).trans hle⟩
  · split
    · exact (timely_updateSession _).bind fun _ => InTime.timely_pure _
    · exact InTime.timely_pure _

theorem timely_exchangeOn (h : ctx.EndsBy limit) (timeout : Int) (state : UInt64 × Option Nat) :
    (exchangeOn env ctx timeout state).Timely limit := by
  obtain ⟨leaseID, _ | stream⟩ := state
  · exact InTime.timely_pure _
  · exact (timely_heartbeatExchange h leaseID stream timeout).bind fun _ => InTime.timely_pure _

/-- Once the call that opens the stream has returned, nothing is waited for. -/
theorem timely_keepStream (addr : String) (opened : Except CallError Nat) :
    (keepStream addr opened).Timely limit := by
  cases opened with
  | error err => exact InTime.timely_pure _
  | ok stream =>
    exact (timely_updateSession _).bind fun _ =>
      (timely_updateResolver _).bind fun _ => InTime.timely_pure _

/-- Opening a stream is over in time exactly when no call is made or the call returns in time. -/
theorem endsBy_openHeartbeatStream {addr : String} {w : Moment Client} (hw : w.time ≤ limit) :
    (openHeartbeatStream env ctx addr).EndsBy limit w ↔
      ((env.opening addr).dialErr = none → (callHeartbeat env ctx addr).EndsBy limit w) := by
  unfold openHeartbeatStream
  split
  · rename_i cause hdial
    simp only [hdial, reduceCtorEq, false_imp_iff, iff_true]
    exact (InTime.timely_pure _).endsBy w hw
  · rename_i hdial
    simp only [hdial, true_imp_iff]
    exact InTime.endsBy_bind_iff fun opened => timely_keepStream addr opened

theorem forward_openHeartbeatStream (ctx : Context) (addr : String) :
    (openHeartbeatStream env ctx addr).Forward := by
  have hkeep : ∀ opened, (keepStream addr opened).Timely 0 := timely_keepStream addr
  unfold openHeartbeatStream
  split
  · exact (InTime.timely_pure _ : InTime.Timely 0 _).forward
  · exact (InTime.forward_await Context.le_call).bind fun opened => (hkeep opened).forward

/-- If discovery from `w` finds a leader to connect to, the call that opens a stream to it, made
when discovery returns and with the session's context, returns by `limit`. -/
def OpensBy (env : Surroundings) (ctx : Context) (limit : Int) (w : Moment Client) : Prop :=
  ∀ addr found, discoverLeader env ctx w = some (.ok addr, found) →
    (env.opening addr).dialErr = none →
    (callHeartbeat env env.sessionCtx addr).EndsBy limit found

/-- Discovery ends with the attempt, so a reconnect is over in time exactly when the call is. -/
theorem endsBy_reconnectHeartbeat (h : ctx.EndsBy limit) {w : Moment Client}
    (hw : w.time ≤ limit) :
    (reconnectHeartbeat env ctx).EndsBy limit w ↔ OpensBy env ctx limit w := by
  -- the surroundings are fixed, so there is one answer, and `OpensBy` speaks about it
  obtain ⟨⟨answer, found⟩, hfound, hle⟩ := (timely_discoverLeader h).endsBy w hw
  rw [reconnectHeartbeat, InTime.endsBy_bind_of_eq hfound]
  cases answer with
  | error err =>
    refine iff_of_true ((InTime.timely_pure _).endsBy found hle) fun addr found' hok => ?_
    cases hfound.symm.trans hok
  | ok addr =>
    refine (endsBy_openHeartbeatStream hle).trans ⟨?_, fun hopen => hopen addr found hfound⟩
    intro hopen addr' found' hok
    cases hfound.symm.trans hok
    exact hopen

theorem forward_reconnectHeartbeat (h : ctx.EndsBy limit) :
    (reconnectHeartbeat env ctx).Forward := by
  refine (timely_discoverLeader h).forward.bind fun answer => ?_
  cases answer with
  | error err => exact (InTime.timely_pure _ : InTime.Timely limit _).forward
  | ok addr => exact forward_openHeartbeatStream _ addr

theorem timely_afterReconnect (h : ctx.EndsBy limit) (timeout : Int)
    (reconnected : Option AttemptError) :
    (afterReconnect env ctx timeout reconnected).Timely limit := by
  cases reconnected with
  | some err => exact InTime.timely_pure _
  | none =>
    exact (timely_updateSession _).bind fun _ =>
      (InTime.timely_read _).bind fun state => timely_exchangeOn h timeout state

theorem endsBy_heartbeatAttempt (h : ctx.EndsBy limit) (timeout : Int) {w : Moment Client}
    (hw : w.time ≤ limit) :
    (heartbeatAttempt env ctx timeout).EndsBy limit w ↔
      (w.state.session.heartbeat = none → OpensBy env ctx limit w) := by
  have hread : InTime.read (fun c : Client => c.session.heartbeatState) w
      = some (w.state.session.heartbeatState, w) := rfl
  rw [heartbeatAttempt, InTime.endsBy_bind_of_eq hread]
  split
  · rename_i hnone
    have hstream : w.state.session.heartbeat = none := hnone
    rw [InTime.endsBy_bind_iff (timely_afterReconnect h timeout), endsBy_reconnectHeartbeat h hw]
    exact ⟨fun hopens _ => hopens, fun hopens => hopens hstream⟩
  · rename_i hsome
    exact iff_of_true ((timely_exchangeOn h timeout _).endsBy w hw) fun hnone => absurd hnone hsome

theorem forward_heartbeatAttempt (h : ctx.EndsBy limit) (timeout : Int) :
    (heartbeatAttempt env ctx timeout).Forward := by
  have hread : (InTime.read fun c : Client => c.session.heartbeatState).Timely limit :=
    InTime.timely_read _
  refine hread.forward.bind fun state => ?_
  split
  · exact (forward_reconnectHeartbeat h).bind fun reconnected =>
      (timely_afterReconnect h timeout reconnected).forward
  · exact (timely_exchangeOn h timeout state).forward

end Time

/-- One attempt in given surroundings: it returns by its timeout exactly when the timeout is not
negative and the stream it opens, if it opens one, does not hold it up. -/
theorem endsBy_heartbeatAttemptWithin {ctx : Context} {c : Client} {s d : Int} :
    (heartbeatAttemptWithin env ctx d).EndsBy (s + d) ⟨s, c⟩ ↔
      0 ≤ d ∧
        (c.session.heartbeat = none → OpensBy env (ctx.withTimeout s d) (s + d) ⟨s, c⟩) := by
  have hctx := ctx.endsBy_withTimeout s d
  -- the attempt's context is made at its start
  have hnow : InTime.now (⟨s, c⟩ : Moment Client) = some (s, ⟨s, c⟩) := rfl
  rw [heartbeatAttemptWithin, InTime.endsBy_bind_of_eq hnow]
  constructor
  · intro hends
    have hle : s ≤ s + d := (forward_heartbeatAttempt hctx d).time_le hends
    exact ⟨by omega, (endsBy_heartbeatAttempt hctx d hle).mp hends⟩
  · rintro ⟨hd, hopens⟩
    have hle : s ≤ s + d := by omega
    exact (endsBy_heartbeatAttempt hctx d hle).mpr hopens

/-! ## What decides

No stream is opened if discovery finds no leader, which is certain only when there is no node to ask
or no time to ask one; and the stream is opened in time whatever the leader does only when the
session is about to end. -/

section Decides

open InTime

variable {env} {ctx : Context} {limit : Int} {w : Moment Client}

/-- Under a context that has ended every probe is cut off, and none says who leads. -/
theorem returns_discoverFrom_of_ended (h : ctx.EndsBy w.time) (i : Nat) (addrs : List String)
    (lastErr : Option AttemptError) :
    (discoverFrom env ctx i addrs lastErr).Returns
      (fun found _ => ∃ err, found = .error err) w := by
  induction addrs generalizing i lastErr with
  | nil => exact returns_pure.mpr ⟨_, rfl⟩
  | cons addr addrs ih =>
    rw [discoverFrom, returns_now_bind]
    split
    · exact ih _ _
    · obtain ⟨cause, hcause⟩ := Option.ne_none_iff_exists'.mp
        (Context.err_ne_none_iff.mpr (h.withTimeout w.time (2 * second)))
      refine Returns.bind (returns_await (Context.call_of_err hcause)
        (Q := fun answer w' => answer = .error (ctxCallError cause) ∧ w' = w) ⟨rfl, rfl⟩) ?_
      rintro answer w' ⟨rfl, rfl⟩
      have hhint : (ctxCallError cause).hint = "" := by cases cause <;> rfl
      simp only [hhint, ne_eq, not_true_eq_false, if_false]
      exact ih _ _

/-- No node to ask, or no time to ask one: no stream is opened. -/
theorem opensBy_of_no_leader
    (h : w.state.resolver.candidateAddrs = [] ∨ ctx.EndsBy w.time) :
    OpensBy env ctx limit w := by
  have hnone : (discoverLeader env ctx).Returns (fun found _ => ∃ err, found = .error err) w := by
    rw [discoverLeader, returns_read_bind]
    rcases h with hempty | hended
    · rw [hempty]
      exact returns_pure.mpr ⟨_, rfl⟩
    · exact returns_discoverFrom_of_ended hended _ _ _
  intro addr found hok
  obtain ⟨r, hr, err, herr⟩ := hnone
  cases hr.symm.trans hok
  cases herr

/-- A session that ends in time takes the opening of a stream along. -/
theorem opensBy_of_session (hctx : ctx.EndsBy limit) (hsession : env.sessionCtx.EndsBy limit)
    (hw : w.time ≤ limit) : OpensBy env ctx limit w := by
  intro addr found hok _
  obtain ⟨r, hr, hle⟩ := (timely_discoverLeader hctx).endsBy w hw
  cases hr.symm.trans hok
  exact (Context.timely_call hsession).endsBy found hle

end Decides

/-- `n1` answers at once that `n2` leads; `n2` takes a stream after `after`, if at all. -/
def stalledLeader (sessionCtx : Context) (after : Option Nat) : Surroundings where
  sessionCtx := sessionCtx
  probes _ := ⟨none, some 0, .ok ⟨"n1:9000", ["n2:9000"], "n2:9000", false⟩⟩
  opening _ := ⟨none, after, .ok 1⟩
  others s := s
  send := ⟨some 0, none⟩
  recv := ⟨some 0, .ok 7⟩
  pick := 0
  durationString _ := "1s"

section Stalled

open InTime

variable {ctx : Context} {limit : Int} {w : Moment Client}

/-- The first node that is asked names a leader. -/
theorem returns_discoverLeader_stalledLeader (sessionCtx : Context) (after : Option Nat)
    (hctx : ctx.err w.time = none) (hcand : w.state.resolver.candidateAddrs ≠ []) :
    (discoverLeader (stalledLeader sessionCtx after) ctx).Returns
      (fun found w' => found = .ok "n2:9000" ∧ w'.time = w.time) w := by
  obtain ⟨addr, addrs, hcons⟩ := List.exists_cons_of_ne_nil hcand
  have hprobe : (ctx.withTimeout w.time (2 * second)).err w.time = none :=
    Context.err_withTimeout hctx (by decide)
  rw [discoverLeader, returns_read_bind, hcons, discoverFrom, returns_now_bind]
  refine Returns.bind (returns_await (Context.call_of_instant hprobe rfl)
    (Q := fun answer w' => answer = .ok ⟨"n1:9000", ["n2:9000"], "n2:9000", false⟩ ∧
      w'.time = w.time) ⟨rfl, rfl⟩) ?_
  rintro answer w' ⟨rfl, htime⟩
  exact ⟨_, rfl, rfl, htime⟩

/-- A leader that never takes the stream holds the attempt up until the session ends. -/
theorem endsBy_session_of_opensBy {sessionCtx : Context} (hctx : ctx.err w.time = none)
    (hcand : w.state.resolver.candidateAddrs ≠ [])
    (h : OpensBy (stalledLeader sessionCtx none) ctx limit w) : sessionCtx.EndsBy limit := by
  obtain ⟨⟨found, w'⟩, hr, rfl, -⟩ :=
    returns_discoverLeader_stalledLeader sessionCtx none hctx hcand
  obtain ⟨r, hopened, hle⟩ := h "n2:9000" w' hr rfl
  obtain ⟨e, hcall, rfl⟩ := Option.map_eq_some_iff.mp hopened
  obtain ⟨end', hends, hend⟩ := Context.endsBy_of_call rfl hcall
  exact ⟨end', hends, hend.trans hle⟩

end Stalled

/-- **Which attempts return by their timeout, whatever the servers do.** Started at `s` with timeout
`d` in a session whose context is `sessionCtx`, an attempt returns by `s + d` in all surroundings if
and only if `d` is not negative and no stream that it opens could hold it up: the session has a
stream, or its context ends by `s + d`, or there is no node to ask for the leader, or no time to ask
one, since the caller's context has ended or `d` is 0. -/
theorem heartbeatAttemptWithin_endsBy_iff (ctx sessionCtx : Context) (c : Client) (s d : Int) :
    (∀ env : Surroundings, env.sessionCtx = sessionCtx →
      (heartbeatAttemptWithin env ctx d).EndsBy (s + d) ⟨s, c⟩) ↔
    0 ≤ d ∧
      (c.session.heartbeat ≠ none ∨ sessionCtx.EndsBy (s + d) ∨
        c.resolver.candidateAddrs = [] ∨ ctx.EndsBy s ∨ d = 0) := by
  constructor
  · intro h
    obtain ⟨hd, hopens⟩ :=
      (endsBy_heartbeatAttemptWithin _).mp (h (stalledLeader sessionCtx none) rfl)
    refine ⟨hd, ?_⟩
    by_contra hnone
    simp only [not_or, not_not] at hnone
    obtain ⟨hstream, hsession, hcand, hctx, hd0⟩ := hnone
    have hasks : (ctx.withTimeout s d).err s = none :=
      Context.err_withTimeout (by_contra (hctx ∘ Context.err_ne_none_iff.mp)) (by omega)
    exact hsession (endsBy_session_of_opensBy hasks hcand (hopens hstream))
  · rintro ⟨hd, hdecides⟩ env rfl
    refine (endsBy_heartbeatAttemptWithin env).mpr ⟨hd, fun hnone => ?_⟩
    rcases hdecides with hstream | hsession | hcand | hctx | rfl
    · exact absurd hnone hstream
    · exact opensBy_of_session (ctx.endsBy_withTimeout s d) hsession (by show s ≤ s + d; omega)
    · exact opensBy_of_no_leader (Or.inl hcand)
    · exact opensBy_of_no_leader (Or.inr (hctx.withTimeout s d))
    · have hends := ctx.endsBy_withTimeout s 0
      rw [Int.add_zero] at hends
      exact opensBy_of_no_leader (Or.inr hends)

/-! ## A node that does not answer -/

/-- A session that has lost its stream, and one known node. -/
def disconnected : Client :=
  ⟨{ Session.new with leaseID := 7 }, newResolver ["n1:9000"]⟩

/-- An attempt with a timeout of one second returns after twenty, or never. -/
theorem stalledLeader_overruns :
    (heartbeatAttemptWithin (stalledLeader ⟨none⟩ (some 20000000000)) ⟨none⟩ second
      ⟨0, disconnected⟩).map (·.2.time) = some (20 * second) ∧
    ¬ (heartbeatAttemptWithin (stalledLeader ⟨none⟩ (some 20000000000)) ⟨none⟩ second).EndsBy
      (0 + second) ⟨0, disconnected⟩ ∧
    (heartbeatAttemptWithin (stalledLeader ⟨none⟩ none) ⟨none⟩ second
      ⟨0, disconnected⟩).isNone := by
  have hreturn : (heartbeatAttemptWithin (stalledLeader ⟨none⟩ (some 20000000000)) ⟨none⟩ second
      ⟨0, disconnected⟩).map (·.2.time) = some (20 * second) := by decide
  refine ⟨hreturn, ?_, by decide⟩
  rintro ⟨r, hr, hle⟩
  rw [hr] at hreturn
  have htime : r.2.time = 20 * second := Option.some.inj hreturn
  rw [htime] at hle
  exact absurd hle (by decide)

end Client

end Clavis
