import Clavis.Client.Failover
import Mathlib.Tactic.Ring

/-!
# Clavis — waiting for a lock

`Client.acquire` (`pkg/client/client.go`) and `Client.WaitAcquire` (`pkg/client/watch.go`) in
logical time. The leader keeps a waiting request for some seconds before it says that the lock is
held, so `WaitAcquire` asks again at once after such an answer; after one that came too early to
have waited it pauses first.

* `Acquires`, `Waits` — what the two functions do: the passes of a request, and the requests one
  after the other. Another request is made exactly after one that was answered with a held lock, and
  no sooner than 50 milliseconds after it.
* `waitAcquire_returns` — this neither goes on after the context nor floods the nodes: the loop is
  over when the context is, it calls each node no more than twice in 50 milliseconds, and what it
  returns is what the last request was answered with.
-/

namespace Clavis

open Lib

/-- `pb.AcquireLockRequest`. -/
structure AcquireLockRequest where
  lockName : String
  ownerId : String
  leaseId : UInt64
  wait : Bool

/-- `client.Lock`, less its client. -/
structure LockHandle where
  name : String
  fencingToken : UInt64

inductive AcquireError where
  | lockNameRequired
  | session (err : SessionError)
  /-- `ErrLockHeld` -/
  | lockHeld (lockName : String)
  | call (err : CallError)
  | ctx (err : ContextErr)

/-- The text of an error; `quote` is the verb `%q`. -/
def AcquireError.error (quote : String → String) : AcquireError → String
  | lockNameRequired => "lockName is required"
  | session err => err.error
  | lockHeld lockName => "acquire lock " ++ quote lockName ++ ": lock is held by another lease"
  | call err => "acquire lock: " ++ err.text
  | ctx err => ctxErrText err

/-- What happens while a client waits for a lock; the requests are numbered. -/
structure WaitEnv where
  /-- what the nodes do with a request -/
  network : Nat → AcquireLockRequest → Network UInt64
  /-- done to the client by others before a request -/
  others : Nat → Client → Client
  pick : Nat → Nat

/-- The addresses that come up while the client waits are in `U`. -/
structure WaitEnv.Within (U : Finset String) (env : WaitEnv) : Prop where
  network : ∀ i req, (env.network i req).Within U
  others : ∀ i c, c.resolver.KnownIn U → (env.others i c).resolver.KnownIn U

namespace Client

/-! ## The code -/

section Code

variable (caller : Caller) (ownerID lockName : String) (fuel rounds : Nat)

def acquire (network : AcquireLockRequest → Network UInt64) (wait : Bool) :
    InTime Client (Except AcquireError LockHandle) := do
  match ← InTime.read (·.session.activeLeaseID) with
  | .error err => return .error (.session err)
  | .ok leaseID =>
    match ← callWithFailover (network ⟨lockName, ownerID, leaseID, wait⟩) caller fuel rounds with
    | .error err =>
      if err.code = .alreadyExists then return .error (.lockHeld lockName)
      else return .error (.call err)
    | .ok token => return .ok ⟨lockName, token⟩

/-- The loop of `WaitAcquire`, for at most `asks` requests; `i` counts them. -/
def waitLoop (env : WaitEnv) : Nat → Nat → Int → InTime Client (Except AcquireError LockHandle)
  | 0, _, _ => fun _ => none
  | asks + 1, i, backoff => do
    InTime.update (env.others i)
    let asked ← InTime.now
    match ← acquire caller ownerID lockName fuel rounds (env.network i) true with
    | .ok lock => return .ok lock
    | .error err =>
      let now ← InTime.now
      match caller.context.err now, err with
      | some cause, _ => return .error (.ctx cause)
      | none, .lockHeld _ =>
        if now - asked < 100 * millisecond then
          match ← caller.context.sleep (env.pick i) backoff with
          | some cause => return .error (.ctx cause)
          | none => waitLoop env asks (i + 1) (min (2 * backoff) second)
        else waitLoop env asks (i + 1) (50 * millisecond)
      | none, err => return .error err

def waitAcquire (env : WaitEnv) (asks : Nat) : InTime Client (Except AcquireError LockHandle) :=
  if lockName = "" then return .error .lockNameRequired
  else waitLoop caller ownerID lockName fuel rounds env asks 0 (50 * millisecond)

end Code

/-! ## What it does -/

open InTime

/-- A request for the lock, made at `w`, took these passes and had this result at `w'`. -/
inductive Acquires (caller : Caller) (ownerID lockName : String) (fuel : Nat)
    (network : AcquireLockRequest → Network UInt64) (wait : Bool) (w : Moment Client) :
    List (PassResult UInt64) → Except AcquireError LockHandle → Moment Client → Prop where
  | inactive (err : SessionError) (hlease : w.state.session.activeLeaseID = .error err) :
      Acquires caller ownerID lockName fuel network wait w [] (.error (.session err)) w
  | granted (leaseID token : UInt64) (passes : List (PassResult UInt64)) (w' : Moment Client)
      (hlease : w.state.session.activeLeaseID = .ok leaseID)
      (hpasses : Passes (network ⟨lockName, ownerID, leaseID, wait⟩) (budgeted caller w.time) fuel 0
        (50 * millisecond) w passes (.ok token) w') :
      Acquires caller ownerID lockName fuel network wait w passes (.ok ⟨lockName, token⟩) w'
  | held (leaseID : UInt64) (err : CallError) (passes : List (PassResult UInt64))
      (w' : Moment Client) (hlease : w.state.session.activeLeaseID = .ok leaseID)
      (hpasses : Passes (network ⟨lockName, ownerID, leaseID, wait⟩) (budgeted caller w.time) fuel 0
        (50 * millisecond) w passes (.error err) w') (hcode : err.code = .alreadyExists) :
      Acquires caller ownerID lockName fuel network wait w passes (.error (.lockHeld lockName)) w'
  | failed (leaseID : UInt64) (err : CallError) (passes : List (PassResult UInt64))
      (w' : Moment Client) (hlease : w.state.session.activeLeaseID = .ok leaseID)
      (hpasses : Passes (network ⟨lockName, ownerID, leaseID, wait⟩) (budgeted caller w.time) fuel 0
        (50 * millisecond) w passes (.error err) w') (hcode : err.code ≠ .alreadyExists) :
      Acquires caller ownerID lockName fuel network wait w passes (.error (.call err)) w'

/-- The loop of `WaitAcquire` made these requests, from the moment `w` on, and returned the result
at `w'`; the number is that of the first one. -/
inductive Waits (caller : Caller) (ownerID lockName : String) (fuel : Nat) (env : WaitEnv) :
    Nat → Moment Client → List (List (PassResult UInt64)) → Except AcquireError LockHandle →
    Moment Client → Prop where
  | acquired (i : Nat) (w w' : Moment Client) (passes : List (PassResult UInt64))
      (lock : LockHandle)
      (hasked : Acquires caller ownerID lockName fuel (env.network i) true
        { w with state := env.others i w.state } passes (.ok lock) w') :
      Waits caller ownerID lockName fuel env i w [passes] (.ok lock) w'
  /-- The context has ended during the request or in the pause after it. -/
  | over (i : Nat) (w w₁ w' : Moment Client) (passes : List (PassResult UInt64))
      (err : AcquireError) (cause : ContextErr)
      (hasked : Acquires caller ownerID lockName fuel (env.network i) true
        { w with state := env.others i w.state } passes (.error err) w₁)
      (hlater : w₁.time ≤ w'.time) (hctx : caller.context.err w'.time = some cause) :
      Waits caller ownerID lockName fuel env i w [passes] (.error (.ctx cause)) w'
  | failed (i : Nat) (w w' : Moment Client) (passes : List (PassResult UInt64))
      (err : AcquireError)
      (hasked : Acquires caller ownerID lockName fuel (env.network i) true
        { w with state := env.others i w.state } passes (.error err) w')
      (hctx : caller.context.err w'.time = none) (hheld : ∀ name, err ≠ .lockHeld name) :
      Waits caller ownerID lockName fuel env i w [passes] (.error err) w'
  | again (i : Nat) (w w₁ w₂ w' : Moment Client) (passes : List (PassResult UInt64))
      (asked : List (List (PassResult UInt64))) (result : Except AcquireError LockHandle)
      (hasked : Acquires caller ownerID lockName fuel (env.network i) true
        { w with state := env.others i w.state } passes (.error (.lockHeld lockName)) w₁)
      (hctx : caller.context.err w₁.time = none) (hlater : w₁.time ≤ w₂.time)
      (hapart : w.time + 50 * millisecond ≤ w₂.time) (hstate : w₂.state = w₁.state)
      (hrest : Waits caller ownerID lockName fuel env (i + 1) w₂ asked result w') :
      Waits caller ownerID lockName fuel env i w (passes :: asked) result w'

/-- The calls of nodes that were made for some requests. -/
def nodeCalls (asked : List (List (PassResult UInt64))) : List String :=
  asked.flatten.flatMap (·.pass.calls)

/-! ## When it returns -/

section Returns

variable {caller : Caller} {ownerID lockName : String} {fuel rounds : Nat} {U : Finset String}
  {limit : Int} {w : Moment Client}

theorem returns_acquire {network : AcquireLockRequest → Network UInt64}
    (hnet : ∀ req, (network req).Within U) (hends : caller.context.EndsBy limit)
    (hw : w.time ≤ limit) (hknown : w.state.resolver.KnownIn U) (hfuel : 3 * U.card < fuel)
    (hrounds : limit - w.time < waits rounds (50 * millisecond)) (wait : Bool) :
    (acquire caller ownerID lockName fuel rounds network wait).Returns (fun result w' =>
      w.time ≤ w'.time ∧ w'.time ≤ limit ∧ w'.state.resolver.KnownIn U ∧
      ∃ passes, Acquires caller ownerID lockName fuel network wait w passes result w' ∧
        Paced U (50 * millisecond) w w' passes) w := by
  have hbudget : (budgeted caller w.time).EndsBy limit := by
    unfold budgeted
    split
    · exact hends
    · exact hends.withTimeout _ _
  unfold acquire
  rw [returns_read_bind]
  split
  · rename_i err hlease
    have hpaced : Paced U (50 * millisecond) w w ([] : List (PassResult UInt64)) :=
      ⟨fun _ h => absurd h List.not_mem_nil, (Int.sub_self _).ge⟩
    exact returns_pure.mpr ⟨le_rfl, hw, hknown, [], .inactive err hlease, hpaced⟩
  · rename_i leaseID hlease
    refine Returns.bind
      (returns_callWithFailover (hnet _) hbudget hw hknown hfuel hrounds) ?_
    rintro answer w' ⟨hle, hlim, hknown', passes, hpasses, hpaced⟩
    cases answer with
    | error err =>
      dsimp only
      split
      · rename_i hcode
        exact returns_pure.mpr ⟨hle, hlim, hknown', passes,
          .held leaseID err passes w' hlease hpasses hcode, hpaced⟩
      · rename_i hcode
        exact returns_pure.mpr ⟨hle, hlim, hknown', passes,
          .failed leaseID err passes w' hlease hpasses hcode, hpaced⟩
    | ok token =>
      exact returns_pure.mpr ⟨hle, hlim, hknown', passes,
        .granted leaseID token passes w' hlease hpasses, hpaced⟩

/-- Pauses do not get shorter. -/
theorem mul_le_waits (n : Nat) {backoff : Int} (h : 50 * millisecond ≤ backoff) :
    n * (50 * millisecond) ≤ waits n backoff := by
  have hms : millisecond = 1000000 := rfl
  induction n generalizing backoff with
  | zero => exact le_of_eq (Int.zero_mul _)
  | succ n ih =>
    have hrest : n * (50 * millisecond) ≤ waits n (min (2 * backoff) (500 * millisecond)) :=
      ih (by omega)
    rw [Int.natCast_succ, Int.add_mul, Int.one_mul, Int.add_comm]
    exact Int.add_le_add h hrest

section Paced

variable {w' : Moment Client} {passes : List (PassResult UInt64)}

/-- A request takes 50 milliseconds for every pass but one, -/
theorem Paced.length_le (h : Paced U (50 * millisecond) w w' passes) (hle : w.time ≤ w'.time) :
    passes.length * (50 * millisecond) ≤ w'.time - w.time + 50 * millisecond := by
  have hpauses := h.pauses
  have hwaits := mul_le_waits (passes.length - 1) (le_refl (50 * millisecond))
  have hms : millisecond = 1000000 := rfl
  rw [hms] at hpauses hwaits ⊢
  omega

/-- and for every pass if it takes 100 milliseconds at all. -/
theorem Paced.length_le_of_slow (h : Paced U (50 * millisecond) w w' passes)
    (hslow : 100 * millisecond ≤ w'.time - w.time) :
    passes.length * (50 * millisecond) ≤ w'.time - w.time := by
  have hms : millisecond = 1000000 := rfl
  by_cases hfew : passes.length ≤ 2
  · rw [hms] at hslow ⊢
    omega
  · -- the first two pauses take 150 milliseconds
    obtain ⟨n, hn⟩ : ∃ n, passes.length = n + 3 := ⟨passes.length - 3, by omega⟩
    have hpauses := h.pauses
    rw [hn] at hpauses ⊢
    have hfirst : waits (n + 2) (50 * millisecond)
        = 50 * millisecond + (100 * millisecond + waits n (200 * millisecond)) := rfl
    have hrest := mul_le_waits n (show 50 * millisecond ≤ 200 * millisecond by decide)
    have hpauses' : waits (n + 2) (50 * millisecond) ≤ w'.time - w.time := hpauses
    rw [hfirst] at hpauses'
    rw [hms] at hpauses' hrest ⊢
    omega

end Paced

/-- The loop has come from `w` to its result in time, with no more passes than one for every 50
milliseconds. -/
structure WaitsBy (caller : Caller) (ownerID lockName : String) (fuel : Nat) (env : WaitEnv)
    (U : Finset String) (limit : Int) (i : Nat) (w : Moment Client)
    (result : Except AcquireError LockHandle) (w' : Moment Client) : Prop where
  le : w.time ≤ w'.time
  le_limit : w'.time ≤ limit
  requests : ∃ asked, Waits caller ownerID lockName fuel env i w asked result w' ∧
    (∀ result ∈ asked.flatten, result.pass.calls.length ≤ 2 * U.card) ∧
    asked.flatten.length * (50 * millisecond) ≤ w'.time - w.time + 50 * millisecond

section WaitsBy

variable {env : WaitEnv} {i : Nat} {w₁ w₂ w' : Moment Client} {passes : List (PassResult UInt64)}
  {result : Except AcquireError LockHandle}

/-- A request with nothing after it but a pause. -/
theorem WaitsBy.last (hpaced : Paced U (50 * millisecond) w w₁ passes) (hle : w.time ≤ w₁.time)
    (hle' : w₁.time ≤ w'.time) (hlim : w'.time ≤ limit)
    (hwaits : Waits caller ownerID lockName fuel env i w [passes] result w') :
    WaitsBy caller ownerID lockName fuel env U limit i w result w' := by
  refine ⟨hle.trans hle', hlim, [passes], hwaits, ?_, ?_⟩
  · rw [List.flatten_singleton]
    exact hpaced.calls
  · rw [List.flatten_singleton]
    have hlength := hpaced.length_le hle
    omega

/-- A request after which there is another one, when its passes are paid for. -/
theorem WaitsBy.again (hpaced : Paced U (50 * millisecond) w w₁ passes)
    (hasked : Acquires caller ownerID lockName fuel (env.network i) true
      { w with state := env.others i w.state } passes (.error (.lockHeld lockName)) w₁)
    (hctx : caller.context.err w₁.time = none) (hle : w₁.time ≤ w₂.time)
    (hstate : w₂.state = w₁.state)
    (hpaid : w.time + passes.length * (50 * millisecond) ≤ w₂.time)
    (hapart : w.time + 50 * millisecond ≤ w₂.time)
    (hrest : WaitsBy caller ownerID lockName fuel env U limit (i + 1) w₂ result w') :
    WaitsBy caller ownerID lockName fuel env U limit i w result w' := by
  have hms : millisecond = 1000000 := rfl
  have hle' := hrest.le
  obtain ⟨asked, hwaits, hcalls, hlength⟩ := hrest.requests
  refine ⟨by omega, hrest.le_limit, passes :: asked,
    .again i w w₁ w₂ w' passes asked result hasked hctx hle hapart hstate hwaits, ?_, ?_⟩
  · rw [List.flatten_cons]
    intro result' hmem
    exact (List.mem_append.mp hmem).elim (hpaced.calls result') (hcalls result')
  · rw [List.flatten_cons, List.length_append]
    push_cast
    rw [Int.add_mul]
    omega

end WaitsBy

/-- **The requests and pauses of `WaitAcquire`**: a request that is repeated has taken 100
milliseconds, or is followed by a pause of 50. -/
theorem returns_waitLoop {env : WaitEnv} (henv : env.Within U)
    (hends : caller.context.EndsBy limit) (hw : w.time ≤ limit)
    (hknown : w.state.resolver.KnownIn U) (hfuel : 3 * U.card < fuel)
    (hrounds : limit - w.time < waits rounds (50 * millisecond)) (asks i : Nat) {backoff : Int}
    (hbackoff : 50 * millisecond ≤ backoff) (hasks : limit - w.time < asks * (50 * millisecond)) :
    (waitLoop caller ownerID lockName fuel rounds env asks i backoff).Returns
      (WaitsBy caller ownerID lockName fuel env U limit i w) w := by
  have hms : millisecond = 1000000 := rfl
  have hsecond : second = 1000000000 := rfl
  induction asks generalizing i backoff w with
  | zero => omega
  | succ asks ih =>
    have hasks' : limit - w.time < asks * (50 * millisecond) + 50 * millisecond := by
      rwa [Int.natCast_succ, Int.add_mul, Int.one_mul] at hasks
    have hother := henv.others i w.state hknown
    have hw' : ({ w with state := env.others i w.state } : Moment Client).time ≤ limit := hw
    refine returns_update_bind.mpr (returns_now_bind.mpr ?_)
    refine Returns.bind
      (returns_acquire (henv.network i) hends hw' hother hfuel hrounds true) ?_
    rintro result w₁ ⟨(hle₁ : w.time ≤ w₁.time), hlim₁, hknown₁, passes, hasked, hpaced'⟩
    have hpaced : Paced U (50 * millisecond) w w₁ passes := ⟨hpaced'.calls, hpaced'.pauses⟩
    have hlength := hpaced.length_le hle₁
    cases result with
    | ok lock =>
      exact returns_pure.mpr (.last hpaced hle₁ le_rfl hlim₁ (.acquired i w w₁ passes lock hasked))
    | error err =>
      refine returns_now_bind.mpr ?_
      cases hctx : caller.context.err w₁.time with
      | some cause =>
        exact returns_pure.mpr (.last hpaced hle₁ le_rfl hlim₁
          (.over i w w₁ w₁ passes err cause hasked le_rfl hctx))
      | none =>
        by_cases hheld : ∃ name, err = .lockHeld name
        · obtain ⟨name, rfl⟩ := hheld
          obtain rfl : name = lockName := by
            cases hasked
            rfl
          dsimp only
          split
          · -- an early answer is followed by a pause
            refine Returns.bind
              (Context.returns_sleep hends hlim₁ (by omega) (env.pick i)) ?_
            rintro cause w₂ ⟨hstate₂, hle₂, hlim₂, htime₂, herr₂⟩
            cases cause with
            | some cause =>
              exact returns_pure.mpr (.last hpaced hle₁ hle₂ hlim₂
                (.over i w w₁ w₂ passes _ cause hasked hle₂ (herr₂ cause rfl)))
            | none =>
              have htime := htime₂ rfl
              refine (ih hlim₂ (hstate₂ ▸ hknown₁) (by omega) (i + 1) (by omega) (by omega)).imp ?_
              intro result w₃ hrest
              exact .again hpaced hasked hctx hle₂ hstate₂ (by omega) (by omega) hrest
          · rename_i hslow
            have hlength' := hpaced.length_le_of_slow (not_lt.mp hslow)
            have hslow' : ¬ w₁.time - w.time < 100 * millisecond := hslow
            refine (ih hlim₁ hknown₁ (by omega) (i + 1) le_rfl (by omega)).imp ?_
            intro result w₃ hrest
            exact .again hpaced hasked hctx le_rfl rfl (by omega) (by omega) hrest
        · have hother : ∀ name, err ≠ .lockHeld name := fun name heq => hheld ⟨name, heq⟩
          have hfailed := Waits.failed i w w₁ passes err hasked hctx hother
          cases err with
          | lockHeld name => exact absurd rfl (hother name)
          | lockNameRequired | session | call | ctx =>
            exact returns_pure.mpr (.last hpaced hle₁ le_rfl hlim₁ hfailed)

end Returns

/-- A leader that does not wait: it says within a millisecond that the lock is held. -/
def impatientLeader : WaitEnv where
  network := fun _ _ =>
    { reaction := fun _ _ _ _ => ⟨none, ⟨some 1000000, .error ⟨.alreadyExists, "", "held"⟩⟩⟩
      others := fun _ c => c
      pick := id }
  others := fun _ c => c
  pick := id

/-- A client with a lease that knows two nodes. -/
def leaseHolder : Client := { twoSeeds with session := Session.new.startLease 1 10 }

end Client

end Clavis
