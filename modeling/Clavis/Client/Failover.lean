import Clavis.Client.Attempt
import Clavis.Lib.Returns

/-!
# Clavis — calls with failover

`callWithFailover` (`pkg/client/resolver.go`) in logical time. Its passes are those of
`Client.Resolver`; here it matters when a pass makes its calls and how long a node takes. A pass is
followed by a pause, which grows from 50 to 500 milliseconds, and by the next pass, until a node has
answered or the context is over.

* `Network` — what the nodes do with a call, by the pass, the iteration and the time, and what other
  goroutines do to the client before a pass.
* `turn` — how an iteration of a pass comes by its `Turn`; `passLoop`, `tryCandidates`,
  `failoverLoop`, `callWithFailover` — the loops. `waits` is the time spent in pauses.
* `callWithFailover_returns` — a call is over when its context is, or its budget, and at once when
  it is cancelled.
* `callWithFailover_survives` — a call that meets an election is answered by the new leader.
-/

namespace Clavis

open Lib

/-- What a node does with a call: `grpc.NewClient` fails, or the node answers. -/
structure Reaction (T : Type) where
  dialErr : Option String
  answer : Blocking (Except CallError T)

structure Network (T : Type) where
  /-- by the number of the pass and of its iteration, the address and the time -/
  reaction : Nat → Nat → String → Int → Reaction T
  /-- done to the client by others before a pass -/
  others : Nat → Client → Client
  /-- which of several ready cases the `select` after a pass takes -/
  pick : Nat → Nat

/-- The caller's context: its deadline, and when it is cancelled. -/
structure Caller where
  deadline : Option Int
  canceled : Option Int

/-- When and why the context ends. -/
def Caller.context : Caller → Context
  | ⟨none, none⟩ => ⟨none⟩
  | ⟨some d, none⟩ => ⟨some (d, .deadlineExceeded)⟩
  | ⟨none, some c⟩ => ⟨some (c, .canceled)⟩
  | ⟨some d, some c⟩ => if d ≤ c then ⟨some (d, .deadlineExceeded)⟩ else ⟨some (c, .canceled)⟩

def attemptTimeout : Int := 6 * second

def failoverBudget : Int := 10 * second

/-- The error of `connFor`. -/
def connError (addr cause : String) : CallError :=
  ⟨.unknown, "", (AttemptError.connect addr cause).error⟩

/-- `ctx.Err()`, which is not a gRPC status. -/
def ctxError (err : ContextErr) : CallError := ⟨.unknown, "", ctxErrText err⟩

/-- The address that the next iteration of a pass attempts. -/
def Pass.next (p : Pass) : Option String :=
  match p.queue with
  | [] => none
  | addr :: _ => if addr = "" ∨ 2 ≤ p.addressAttempts addr then none else some addr

namespace Client

/-! ## The code -/

section Code

variable {T : Type} (net : Network T) (ctx : Context)

/-- An attempt on a node. -/
def attempt (addr : String) (r : Reaction T) : InTime Client (Attempt T) :=
  match r.dialErr with
  | some cause => return .noConn (connError addr cause)
  | none => do
    let attemptCtx := ctx.withTimeout (← InTime.now) attemptTimeout
    match ← InTime.await (attemptCtx.call r.answer (.error ∘ ctxCallError)) with
    | .ok resp => return .answered resp
    | .error err => do
      let now ← InTime.now
      return .failed err (attemptCtx.err now ≠ none ∧ ctx.err now = none)

/-- What happens in the `k`th iteration of a pass. -/
def turn (pass k : Nat) (p : Pass) : InTime Client (Turn T) := do
  let now ← InTime.now
  match ctx.err now, p.next with
  | none, some addr => return ⟨none, ← attempt ctx addr (net.reaction pass k addr now)⟩
  -- no attempt is made, so its outcome is not looked at
  | err, _ => return ⟨err.map ctxError, .noConn allFailed⟩

/-- The loop of `tryCandidates`, for at most `fuel` iterations. -/
def passLoop (pass : Nat) : Nat → Nat → Pass → InTime Client (PassResult T)
  | 0, _, _ => fun _ => none
  | fuel + 1, k, p => do
    match p.iterate (← turn net ctx pass k p) with
    | .inl p' => passLoop pass fuel (k + 1) p'
    | .inr result => return result

def tryCandidates (fuel pass : Nat) : InTime Client (PassResult T) := do
  InTime.update (net.others pass)
  let r ← InTime.read (·.resolver)
  let result ← passLoop net ctx pass fuel 0 (.start r)
  updateResolver fun _ => result.pass.resolver
  return result

/-- The loop of `callWithFailover`, for at most `rounds` passes. -/
def failoverLoop (fuel : Nat) : Nat → Nat → Int → InTime Client (Except CallError T)
  | 0, _, _ => fun _ => none
  | rounds + 1, pass, backoff => do
    let result ← tryCandidates net ctx fuel pass
    if result.retry = false then return result.result
    else
      match ← ctx.sleep (net.pick pass) backoff with
      | some _ => return result.result
      | none => failoverLoop fuel rounds (pass + 1) (min (2 * backoff) (500 * millisecond))

end Code

/-- The context a call works with: without a deadline it gets one. -/
def budgeted (caller : Caller) (now : Int) : Context :=
  if caller.deadline.isSome then caller.context
  else caller.context.withTimeout now failoverBudget

def callWithFailover {T : Type} (net : Network T) (caller : Caller) (fuel rounds : Nat) :
    InTime Client (Except CallError T) := do
  let ctx := budgeted caller (← InTime.now)
  failoverLoop net ctx fuel rounds 0 (50 * millisecond)

/-- The time that a number of pauses take. -/
def waits : Nat → Int → Int
  | 0, _ => 0
  | rounds + 1, backoff => backoff + waits rounds (min (2 * backoff) (500 * millisecond))

/-- Twenty-three pauses take more than the budget. -/
example : failoverBudget < waits 23 (50 * millisecond) := by decide

/-! ## What a call does -/

/-- A call made these passes, from the moment `w` on, and returned the answer at `w'`. The first
number is that of the first pass, the second one the pause after it. -/
inductive Passes {T : Type} (net : Network T) (ctx : Context) (fuel : Nat) :
    Nat → Int → Moment Client → List (PassResult T) → Except CallError T → Moment Client →
    Prop where
  | last (pass : Nat) (backoff : Int) (w w' : Moment Client) (result : PassResult T)
      (hpass : tryCandidates net ctx fuel pass w = some (result, w'))
      (hretry : result.retry = false) : Passes net ctx fuel pass backoff w [result] result.result w'
  /-- The context has ended in the pause. -/
  | cut (pass : Nat) (backoff : Int) (w w₁ w' : Moment Client) (result : PassResult T)
      (cause : ContextErr) (hpass : tryCandidates net ctx fuel pass w = some (result, w₁))
      (hsleep : ctx.sleep (net.pick pass) backoff w₁ = some (some cause, w')) :
      Passes net ctx fuel pass backoff w [result] result.result w'
  | again (pass : Nat) (backoff : Int) (w w₁ w₂ w' : Moment Client) (result : PassResult T)
      (passes : List (PassResult T)) (answer : Except CallError T)
      (hpass : tryCandidates net ctx fuel pass w = some (result, w₁))
      (hretry : result.retry = true)
      (hsleep : ctx.sleep (net.pick pass) backoff w₁ = some (none, w₂))
      (hrest : Passes net ctx fuel (pass + 1) (min (2 * backoff) (500 * millisecond)) w₂ passes
        answer w') :
      Passes net ctx fuel pass backoff w (result :: passes) answer w'

/-- A pass calls each address twice at most, and there are pauses between the passes. -/
structure Paced {T : Type} (U : Finset String) (backoff : Int) (w w' : Moment Client)
    (passes : List (PassResult T)) : Prop where
  calls : ∀ result ∈ passes, result.pass.calls.length ≤ 2 * U.card
  pauses : waits (passes.length - 1) backoff ≤ w'.time - w.time

end Client

/-! ## What a pass can learn -/

/-- All addresses that the resolver knows are in `U`. -/
structure Resolver.KnownIn (U : Finset String) (r : Resolver) : Prop where
  seeds : ∀ a ∈ r.seedAddrs, a ∈ U
  current : r.currentAddr ≠ "" → r.currentAddr ∈ U

/-- The addresses that come up in a call are in `U`: the nodes give no other hints, and the other
goroutines learn no other addresses. -/
structure Network.Within {T : Type} (U : Finset String) (net : Network T) : Prop where
  hints : ∀ pass k addr now err, (net.reaction pass k addr now).answer.result = .error err →
    err.hint ≠ "" → err.hint ∈ U
  others : ∀ pass c, c.resolver.KnownIn U → (net.others pass c).resolver.KnownIn U

namespace Resolver

variable {U : Finset String} {r : Resolver}

theorem KnownIn.candidates (h : r.KnownIn U) : ∀ a ∈ r.candidateAddrs, a ∈ U := by
  intro a ha
  rcases mem_foldl_appendNew.mp ha with hcurrent | hseed
  · split at hcurrent
    · rename_i hne
      rw [List.mem_singleton.mp hcurrent]
      exact h.current hne
    · cases hcurrent
  · exact h.seeds a hseed

theorem KnownIn.rememberAddr (h : r.KnownIn U) {addr : String} (haddr : addr ∈ U) :
    (r.rememberAddr addr).KnownIn U where
  seeds := by
    intro a ha
    rcases mem_rememberAddr.mp ha with hold | ⟨rfl, -⟩
    · exact h.seeds a hold
    · exact haddr
  current := by
    unfold Resolver.rememberAddr
    split
    · exact h.current
    · exact fun _ => haddr

theorem mem_candidateAddrs_of_seed {a : String} (h : a ∈ r.seedAddrs) : a ∈ r.candidateAddrs :=
  mem_foldl_appendNew.mpr (Or.inr h)

end Resolver

namespace Pass

variable {T : Type} {U : Finset String} {r : Resolver}

/-- The hint of a failed attempt is in `U`. -/
def HintIn (U : Finset String) (turn : Turn T) : Prop :=
  ∀ err unresponsive, turn.attempt = .failed err unresponsive → err.hint ≠ "" → err.hint ∈ U

theorem inv_start_of_knownIn (h : r.KnownIn U) : Inv U r.candidateAddrs (start r) := by
  have hunion : U ∪ r.candidateAddrs.toFinset = U := by
    refine Finset.union_eq_left.mpr fun a ha => ?_
    exact h.candidates a (List.mem_toFinset.mp ha)
  exact hunion ▸ inv_start r U

/-- A pass has at most three iterations for each address, and one. -/
theorem rank_start_le (h : r.KnownIn U) : (start r).rank U ≤ 3 * U.card := by
  have hlength : r.candidateAddrs.length ≤ U.card := by
    rw [← List.toFinset_card_of_nodup r.nodup_candidateAddrs]
    exact Finset.card_le_card fun a ha => h.candidates a (List.mem_toFinset.mp ha)
  have hsum : ∑ a ∈ U, (2 - (start r).addressAttempts a) = U.card * 2 :=
    Finset.sum_const_nat fun _ _ => rfl
  show r.candidateAddrs.length + _ ≤ _
  omega

theorem Iterated.knownIn {C : List String} {p : Pass} {turn : Turn T} {out : Pass ⊕ PassResult T}
    (hit : Iterated p turn out) (hinv : Inv U C p) (h : p.resolver.KnownIn U)
    (hhint : HintIn U turn) : (resolverOf out).KnownIn U := by
  cases hit with
  | answered addr queue resp hqueue =>
    exact h.rememberAddr (hinv.queue_mem addr (hqueue ▸ List.mem_cons_self))
  | redirected addr queue err unresponsive hqueue hlt hattempt hne =>
    exact h.rememberAddr (hhint err unresponsive hattempt hne)
  | exhausted | ctxDone | skipped | noConn | refused | failed => exact h

end Pass

namespace Client

open InTime

section Returns

variable {T : Type} {net : Network T} {ctx : Context} {U : Finset String} {limit : Int}
  {w : Moment Client}

/-! ## When a call returns -/

/-- An attempt is over by the end of the context, and its hint is one of the node's. -/
theorem returns_attempt (hends : ctx.EndsBy limit) (hw : w.time ≤ limit) (addr : String)
    {r : Reaction T}
    (hhints : ∀ err, r.answer.result = .error err → err.hint ≠ "" → err.hint ∈ U) :
    (attempt ctx addr r).Returns (fun out w' => w'.state = w.state ∧ w.time ≤ w'.time ∧
      w'.time ≤ limit ∧
      ∀ err unresponsive, out = .failed err unresponsive → err.hint ≠ "" → err.hint ∈ U) w := by
  unfold attempt
  split
  · exact returns_pure.mpr ⟨rfl, le_rfl, hw, nofun⟩
  · rw [returns_now_bind]
    obtain ⟨e, he, hle, hlim⟩ := Context.exists_call (hends.withTimeout w.time attemptTimeout)
      r.answer (.error ∘ ctxCallError) hw
    refine Returns.bind (returns_await (Q := fun a w' => a = e.2 ∧ w' = { w with time := e.1 })
      he ⟨rfl, rfl⟩) ?_
    rintro a w' ⟨rfl, rfl⟩
    split
    · exact returns_pure.mpr ⟨rfl, hle, hlim, nofun⟩
    · rename_i err heq
      rw [returns_now_bind]
      refine returns_pure.mpr ⟨rfl, hle, hlim, ?_⟩
      rintro err' unresponsive hout hne
      cases hout
      rcases Context.call_cases he with hresult | ⟨cause, hcut⟩
      · exact hhints err (hresult.symm.trans heq) hne
      · -- the error of a cut call has no hint
        have hcause : ctxCallError cause = err := Except.error.inj (hcut.symm.trans heq)
        rw [← hcause] at hne
        cases cause <;> exact absurd rfl hne

theorem returns_turn (hnet : net.Within U) (hends : ctx.EndsBy limit) (hw : w.time ≤ limit)
    (pass k : Nat) (p : Pass) :
    (turn net ctx pass k p).Returns (fun out w' => w'.state = w.state ∧ w.time ≤ w'.time ∧
      w'.time ≤ limit ∧ Pass.HintIn U out) w := by
  unfold turn
  rw [returns_now_bind]
  split
  · refine Returns.bind (returns_attempt hends hw _ (hnet.hints pass k _ w.time)) ?_
    rintro out w' ⟨hstate, hle, hlim, hhint⟩
    exact returns_pure.mpr ⟨hstate, hle, hlim, hhint⟩
  · exact returns_pure.mpr ⟨rfl, le_rfl, hw, nofun⟩

/-- **A pass returns** by the end of its context. -/
theorem returns_passLoop (hnet : net.Within U) (hends : ctx.EndsBy limit) (hw : w.time ≤ limit)
    {C : List String} (pass fuel k : Nat) {p : Pass} (hinv : p.Inv U C)
    (hknown : p.resolver.KnownIn U) (hfuel : p.rank U < fuel) :
    (passLoop net ctx pass fuel k p).Returns (fun result w' => w'.state = w.state ∧
      w.time ≤ w'.time ∧ w'.time ≤ limit ∧ result.pass.resolver.KnownIn U ∧
      result.pass.calls.length ≤ 2 * U.card) w := by
  induction fuel generalizing k p w with
  | zero => omega
  | succ fuel ih =>
    refine Returns.bind (returns_turn hnet hends hw pass k p) ?_
    rintro out w' ⟨hstate, hle, hlim, hhint⟩
    have hresolver := (p.iterated out).knownIn hinv hknown hhint
    rcases (p.iterated out).ends (Finset.Subset.refl U) hinv hhint with
      ⟨p', hiter, hinv', hrank⟩ | ⟨result, hiter, hbounded, -⟩
    · rw [hiter] at hresolver ⊢
      refine (ih hlim (k + 1) hinv' hresolver (by omega)).imp ?_
      rintro result w'' ⟨hstate', hle', hlim', hknown', hcalls⟩
      exact ⟨hstate'.trans hstate, hle.trans hle', hlim', hknown', hcalls⟩
    · rw [hiter] at hresolver ⊢
      exact returns_pure.mpr ⟨hstate, hle, hlim, hresolver, hbounded.length_calls⟩

theorem returns_tryCandidates (hnet : net.Within U) (hends : ctx.EndsBy limit)
    (hw : w.time ≤ limit) (hknown : w.state.resolver.KnownIn U) (pass : Nat) {fuel : Nat}
    (hfuel : 3 * U.card < fuel) :
    (tryCandidates net ctx fuel pass).Returns (fun result w' => w.time ≤ w'.time ∧
      w'.time ≤ limit ∧ w'.state.resolver.KnownIn U ∧ result.pass.calls.length ≤ 2 * U.card) w := by
  unfold tryCandidates
  have hothers := hnet.others pass w.state hknown
  have hw' : ({ w with state := net.others pass w.state } : Moment Client).time ≤ limit := hw
  rw [returns_update_bind, returns_read_bind]
  refine Returns.bind (returns_passLoop hnet hends hw' pass fuel 0
    (Pass.inv_start_of_knownIn hothers) hothers
    (Nat.lt_of_le_of_lt (Pass.rank_start_le hothers) hfuel)) ?_
  rintro result w' ⟨-, hle, hlim, hknown', hcalls⟩
  exact returns_update_bind.mpr (returns_pure.mpr ⟨hle, hlim, hknown', hcalls⟩)

/-- **The passes and pauses of a call**: they are over by the end of the context, and there are no
more passes than pauses fit into the time. -/
theorem returns_failoverLoop (hnet : net.Within U) (hends : ctx.EndsBy limit)
    (hw : w.time ≤ limit) (hknown : w.state.resolver.KnownIn U) {fuel : Nat}
    (hfuel : 3 * U.card < fuel) (rounds pass : Nat) {backoff : Int} (hbackoff : 0 ≤ backoff)
    (hrounds : limit - w.time < waits rounds backoff) :
    (failoverLoop net ctx fuel rounds pass backoff).Returns (fun answer w' => w.time ≤ w'.time ∧
      w'.time ≤ limit ∧ w'.state.resolver.KnownIn U ∧
      ∃ passes, Passes net ctx fuel pass backoff w passes answer w' ∧
        Paced U backoff w w' passes) w := by
  induction rounds generalizing pass backoff w with
  | zero =>
    have hzero : limit - w.time < 0 := hrounds
    omega
  | succ rounds ih =>
    refine Returns.bind (returns_tryCandidates hnet hends hw hknown pass hfuel).and_eq ?_
    rintro result w₁ ⟨⟨hle₁, hlim₁, hknown₁, hcalls⟩, hpass⟩
    -- a pass with nothing after it
    have halone : ∀ w' : Moment Client, w.time ≤ w'.time → Paced U backoff w w' [result] := by
      intro w' hle
      refine ⟨fun result' hmem => List.mem_singleton.mp hmem ▸ hcalls, ?_⟩
      show 0 ≤ w'.time - w.time
      omega
    split
    · rename_i hretry
      exact returns_pure.mpr ⟨hle₁, hlim₁, hknown₁, _,
        .last pass backoff w w₁ result hpass hretry, halone w₁ hle₁⟩
    · rename_i hretry
      refine Returns.bind
        (Context.returns_sleep hends hlim₁ hbackoff (net.pick pass)).and_eq ?_
      rintro cause w₂ ⟨⟨hstate₂, hle₂, hlim₂, htime₂, -⟩, hsleep⟩
      cases cause with
      | some err =>
        have hle := hle₁.trans hle₂
        exact returns_pure.mpr ⟨hle, hlim₂, hstate₂ ▸ hknown₁, _,
          .cut pass backoff w w₁ w₂ result err hpass hsleep, halone w₂ hle⟩
      | none =>
        have htime := htime₂ rfl
        have hlt : limit - w.time
            < backoff + waits rounds (min (2 * backoff) (500 * millisecond)) := hrounds
        have hbackoff' : 0 ≤ min (2 * backoff) (500 * millisecond) := by
          have hmillisecond : (0 : Int) ≤ 500 * millisecond := by decide
          omega
        refine (ih hlim₂ (hstate₂ ▸ hknown₁) (pass + 1) hbackoff' ?_).imp ?_
        · omega
        · rintro answer w₃ ⟨hle₃, hlim₃, hknown₃, passes, hpasses, hpaced⟩
          refine ⟨hle₁.trans (hle₂.trans hle₃), hlim₃, hknown₃, _, .again pass backoff w w₁ w₂ w₃
            result passes answer hpass (eq_true_of_ne_false hretry) hsleep hpasses, ?_, ?_⟩
          · intro result' hmem
            rcases List.mem_cons.mp hmem with rfl | hold
            · exact hcalls
            · exact hpaced.calls result' hold
          · have hpauses := hpaced.pauses
            cases passes with
            | nil =>
              show 0 ≤ w₃.time - w.time
              omega
            | cons result' passes =>
              show backoff + waits passes.length _ ≤ _
              have hrest : waits passes.length (min (2 * backoff) (500 * millisecond))
                  ≤ w₃.time - w₂.time := hpauses
              omega

end Returns

/-- When the context of a call ends: by the deadline or the budget, and when it is cancelled. -/
theorem ends_budgeted (caller : Caller) (now : Int) :
    ∃ e ∈ (budgeted caller now).ends, e.1 ≤ caller.deadline.getD (now + failoverBudget) ∧
      ∀ c ∈ caller.canceled, e.1 ≤ c := by
  obtain ⟨_ | d, _ | c⟩ := caller
  · exact ⟨_, rfl, le_rfl, nofun⟩
  · show ∃ e ∈ (Context.withTimeout ⟨some (c, .canceled)⟩ now failoverBudget).ends, _
    unfold Context.withTimeout
    dsimp only
    split
    · rename_i hle
      refine ⟨_, rfl, hle, ?_⟩
      rintro c' ⟨⟩
      exact le_rfl
    · rename_i hlt
      refine ⟨_, rfl, le_rfl, ?_⟩
      rintro c' ⟨⟩
      exact (not_le.mp hlt).le
  · exact ⟨_, rfl, le_rfl, nofun⟩
  · show ∃ e ∈ (if d ≤ c then (⟨some (d, .deadlineExceeded)⟩ : Context)
      else ⟨some (c, .canceled)⟩).ends, _
    split
    · rename_i hle
      refine ⟨_, rfl, le_rfl, ?_⟩
      rintro c' ⟨⟩
      exact hle
    · rename_i hlt
      refine ⟨_, rfl, (not_le.mp hlt).le, ?_⟩
      rintro c' ⟨⟩
      exact le_rfl

/-- A call is over by the end of the context it works with. -/
theorem returns_callWithFailover {T : Type} {net : Network T} {U : Finset String}
    (hnet : net.Within U) {w : Moment Client} {caller : Caller} {limit : Int}
    (hends : (budgeted caller w.time).EndsBy limit) (hw : w.time ≤ limit)
    (hknown : w.state.resolver.KnownIn U) {fuel rounds : Nat} (hfuel : 3 * U.card < fuel)
    (hrounds : limit - w.time < waits rounds (50 * millisecond)) :
    (callWithFailover net caller fuel rounds).Returns (fun answer w' => w.time ≤ w'.time ∧
      w'.time ≤ limit ∧ w'.state.resolver.KnownIn U ∧
      ∃ passes, Passes net (budgeted caller w.time) fuel 0 (50 * millisecond) w passes answer w' ∧
        Paced U (50 * millisecond) w w' passes) w := by
  unfold callWithFailover
  rw [returns_now_bind]
  exact returns_failoverLoop hnet hends hw hknown hfuel rounds 0 (by decide) hrounds

/-- **A call returns**, whatever the nodes do: by its deadline, or its budget if it has none, and by
the time it is cancelled. It makes no more passes than pauses fit into that time. -/
theorem callWithFailover_returns {T : Type} {net : Network T} {U : Finset String}
    (hnet : net.Within U) {w : Moment Client} (hknown : w.state.resolver.KnownIn U)
    (caller : Caller) {fuel rounds : Nat} (hfuel : 3 * U.card < fuel)
    (hrounds : max 0 (caller.deadline.getD (w.time + failoverBudget) - w.time)
      < waits rounds (50 * millisecond)) :
    (callWithFailover net caller fuel rounds).Returns (fun _ w' => w.time ≤ w'.time ∧
      w'.time ≤ max w.time (caller.deadline.getD (w.time + failoverBudget)) ∧
      ∀ c ∈ caller.canceled, w'.time ≤ max w.time c) w := by
  obtain ⟨e, hmem, hdeadline, hcanceled⟩ := ends_budgeted caller w.time
  have hends : (budgeted caller w.time).EndsBy (max w.time e.1) := ⟨e, hmem, le_max_right _ _⟩
  refine (returns_callWithFailover hnet hends (le_max_left _ _) hknown hfuel ?_).imp ?_
  · omega
  · rintro _ w' ⟨hle, hlim, -⟩
    refine ⟨hle, hlim.trans (max_le_max le_rfl hdeadline), ?_⟩
    intro c hc
    exact hlim.trans (max_le_max le_rfl (hcanceled c hc))

/-- A client that knows two nodes. -/
def twoSeeds : Client := ⟨Session.new, newResolver ["alpha:9000", "beta:9000"]⟩

theorem knownIn_twoSeeds : twoSeeds.resolver.KnownIn {"alpha:9000", "beta:9000"} where
  seeds := by decide
  current := by decide

/-- Nodes that accept connections and never answer. -/
def silentNodes : Network Unit where
  reaction := fun _ _ _ _ => ⟨none, ⟨none, .ok ()⟩⟩
  others := fun _ c => c
  pick := id

/-- A call without a deadline gives up after ten seconds, and needs no more than 23 passes. -/
theorem callWithFailover_returns_silentNodes :
    (callWithFailover silentNodes ⟨none, none⟩ 7 23).Returns (fun _ w' => 0 ≤ w'.time ∧
      w'.time ≤ max 0 (0 + failoverBudget) ∧ ∀ c ∈ (none : Option Int), w'.time ≤ max 0 c)
      ⟨0, twoSeeds⟩ := by
  have hnet : silentNodes.Within {"alpha:9000", "beta:9000"} := ⟨nofun, fun _ _ h => h⟩
  exact callWithFailover_returns (w := ⟨0, twoSeeds⟩) hnet knownIn_twoSeeds ⟨none, none⟩
    (by decide) (by decide)

/-! ## Elections -/

/-- A network in which `leader` leads from `since` on. All nodes answer within `d`; a node that does
not serve the call says that it is unavailable, with any hint or none. -/
structure Election {T : Type} (net : Network T) (U : Finset String) (leader : String)
    (since : Int) (d : Nat) : Prop extends net.Within U where
  prompt : ∀ pass k addr now, ∃ δ ≤ d, (net.reaction pass k addr now).answer.after = some δ
  unavailable : ∀ pass k addr now err,
    (net.reaction pass k addr now).answer.result = .error err → err.code = .unavailable
  serves : ∀ pass k now, since ≤ now → (net.reaction pass k leader now).dialErr = none ∧
    ∃ resp, (net.reaction pass k leader now).answer.result = .ok resp
  leader_ne : leader ≠ ""
  known : ∀ pass c, leader ∈ c.resolver.seedAddrs →
    leader ∈ (net.others pass c).resolver.seedAddrs

end Client

/-- A call was made. -/
def Attempt.made {T : Type} : Attempt T → Bool
  | noConn _ => false
  | answered _ | failed _ _ => true

namespace Pass

variable {T : Type} {U : Finset String} {p : Pass}

theorem next_eq_some {addr : String} :
    p.next = some addr ↔ ∃ queue, p.queue = addr :: queue ∧ addr ≠ "" ∧
      p.addressAttempts addr < 2 := by
  unfold next
  cases p.queue with
  | nil => simp
  | cons addr' queue =>
    simp only [Option.ite_none_left_eq_some, Option.some.injEq, List.cons.injEq, not_or, not_le]
    constructor
    · rintro ⟨⟨hne, hlt⟩, rfl⟩
      exact ⟨queue, ⟨rfl, rfl⟩, hne, hlt⟩
    · rintro ⟨_, ⟨rfl, rfl⟩, hne, hlt⟩
      exact ⟨⟨hne, hlt⟩, rfl⟩

/-- A call can be made only while fewer than two for each address have been. -/
theorem Inv.calls_lt {C : List String} (h : Inv U C p) {addr : String}
    (hnext : p.next = some addr) : p.calls.length < 2 * U.card := by
  obtain ⟨queue, hqueue, -, hlt⟩ := next_eq_some.mp hnext
  have hmem : addr ∈ U := h.queue_mem addr (hqueue ▸ List.mem_cons_self)
  have hlength := (h.toBounded.called hlt hmem queue).length_calls
  have hcalls : ((p.attempt addr queue).called addr).calls.length = p.calls.length + 1 := by
    show (p.calls ++ [addr]).length = _
    rw [List.length_append, List.length_singleton]
  omega

/-- The calls after an iteration. -/
def callsOf : Pass ⊕ PassResult T → List String
  | .inl p => p.calls
  | .inr result => result.pass.calls

theorem Iterated.calls_le {turn : Turn T} {out : Pass ⊕ PassResult T} (hit : Iterated p turn out) :
    p.calls.length ≤ (callsOf out).length := by
  have happend : ∀ addr, p.calls.length ≤ (p.calls ++ [addr]).length := by simp
  cases hit with
  | answered addr | redirected addr | refused addr | failed addr => exact happend addr
  | exhausted | ctxDone | skipped | noConn => exact Nat.le_refl _

/-- An iteration in which a call is made counts it. -/
theorem Iterated.calls_lt {turn : Turn T} {out : Pass ⊕ PassResult T} (hit : Iterated p turn out)
    (hctx : turn.ctxErr = none) {addr : String} (hnext : p.next = some addr)
    (hmade : turn.attempt.made = true) : p.calls.length < (callsOf out).length := by
  have happend : ∀ addr, p.calls.length < (p.calls ++ [addr]).length := by simp
  obtain ⟨queue, hqueue, hne, hlt⟩ := next_eq_some.mp hnext
  cases hit with
  | answered addr | redirected addr | refused addr | failed addr => exact happend addr
  | exhausted hempty =>
    rw [hqueue] at hempty
    cases hempty
  | ctxDone addr' queue' err _ hdone =>
    rw [hctx] at hdone
    cases hdone
  | skipped addr' queue' hqueue' hskip =>
    rw [hqueue] at hqueue'
    cases hqueue'
    rcases hskip with hempty | htwice
    · exact absurd hempty hne
    · omega
  | noConn addr' queue' err _ _ hattempt =>
    rw [hattempt] at hmade
    cases hmade

/-- The nodes that do not serve a call are unavailable. -/
def AllUnavailable (turn : Turn T) : Prop :=
  ∀ err unresponsive, turn.attempt = .failed err unresponsive → err.code = .unavailable

/-- **A pass returns only with an answer, or to be retried**, as long as the context lasts and nodes
that fail are unavailable. -/
theorem result_of_unavailable {turn : Turn T} (hctx : turn.ctxErr = none)
    (hall : AllUnavailable turn) {result : PassResult T} (h : p.iterate turn = .inr result) :
    ((∃ resp, result.result = .ok resp) ∧ result.retry = false) ∨
      (p.queue = [] ∧ result.retry = true) := by
  unfold iterate at h
  cases hqueue : p.queue with
  | nil =>
    rw [hqueue] at h
    cases h
    exact Or.inr ⟨rfl, rfl⟩
  | cons addr queue =>
    rw [hqueue, hctx] at h
    dsimp only at h
    split at h
    · cases h
    · cases hattempt : turn.attempt with
      | noConn err =>
        rw [hattempt] at h
        cases h
      | answered resp =>
        rw [hattempt] at h
        cases h
        exact Or.inl ⟨⟨resp, rfl⟩, rfl⟩
      | failed err unresponsive =>
        rw [hattempt] at h
        dsimp only at h
        split at h
        · cases h
        · rw [if_neg fun hrefused => hrefused.1 (hall err unresponsive hattempt)] at h
          cases h

/-- The leader is still to be attempted. -/
structure Ahead (leader : String) (p : Pass) : Prop where
  queued : leader ∈ p.queue
  untried : p.addressAttempts leader = 0

/-- A pass that attempts the leader gets an answer; until then the leader stays ahead. -/
theorem Ahead.iterated {leader : String} (h : Ahead leader p) (hleader : leader ≠ "")
    {turn : Turn T}
    (hserved : p.next = some leader → ∃ resp, turn.attempt = .answered resp) {p' : Pass}
    (hit : Iterated p turn (.inl p')) : Ahead leader p' := by
  -- the head of the queue is another address, since the leader would have answered
  have hattempted : ∀ addr queue queue', p.queue = addr :: queue → (∀ a ∈ queue, a ∈ queue') →
      (∀ resp, turn.attempt ≠ .answered resp) →
      leader ∈ queue' ∧ (p.attempt addr queue').addressAttempts leader = 0 := by
    intro addr queue queue' hqueue hsub hnot
    have hne : leader ≠ addr := by
      rintro rfl
      have hlt : p.addressAttempts leader < 2 := by
        rw [h.untried]
        omega
      obtain ⟨resp, hresp⟩ := hserved (next_eq_some.mpr ⟨queue, hqueue, hleader, hlt⟩)
      exact hnot resp hresp
    refine ⟨hsub leader ?_, ?_⟩
    · exact List.mem_of_ne_of_mem hne (hqueue ▸ h.queued)
    · rw [attempt_attempts, if_neg hne]
      exact h.untried
  cases hit with
  | skipped addr queue hqueue hskip =>
    have hne : leader ≠ addr := by
      rintro rfl
      have huntried := h.untried
      rcases hskip with hempty | htwice
      · exact hleader hempty
      · omega
    exact ⟨List.mem_of_ne_of_mem hne (hqueue ▸ h.queued), h.untried⟩
  | noConn addr queue err hqueue hlt hattempt =>
    have hstill := hattempted addr queue queue hqueue (fun _ => id) (by rw [hattempt]; nofun)
    exact ⟨hstill.1, hstill.2⟩
  | redirected addr queue err unresponsive hqueue hlt hattempt =>
    have hstill := hattempted addr queue (err.hint :: queue) hqueue
      (fun _ => List.mem_cons_of_mem _) (by rw [hattempt]; nofun)
    exact ⟨hstill.1, hstill.2⟩
  | failed addr queue err unresponsive hqueue hlt hattempt =>
    have hstill := hattempted addr queue queue hqueue (fun _ => id) (by rw [hattempt]; nofun)
    exact ⟨hstill.1, hstill.2⟩

/-- A pass forgets no address. -/
theorem Iterated.mem_seedAddrs {turn : Turn T} {out : Pass ⊕ PassResult T}
    (hit : Iterated p turn out) {a : String} (h : a ∈ p.resolver.seedAddrs) :
    a ∈ (resolverOf out).seedAddrs := by
  cases hit with
  | answered addr => exact Resolver.mem_rememberAddr.mpr (Or.inl h)
  | redirected addr queue err => exact Resolver.mem_rememberAddr.mpr (Or.inl h)
  | exhausted | ctxDone | skipped | noConn | refused | failed => exact h

end Pass

namespace Client

open InTime

section Election

variable {T : Type} {net : Network T} {ctx : Context} {U : Finset String} {leader : String}
  {since t : Int} {d : Nat} {w : Moment Client}

/-- An attempt while the context lasts: it takes `d` at most, and no time if no call is made. -/
theorem Election.returns_attempt (he : Election net U leader since d)
    (hd : (d : Int) ≤ attemptTimeout) (hlasts : ctx.Lasts t) (pass k : Nat) (addr : String)
    (hw : w.time + d < t) :
    (attempt ctx addr (net.reaction pass k addr w.time)).Returns (fun out w' =>
      w'.state = w.state ∧ w.time ≤ w'.time ∧
      (w'.time = w.time ∨ out.made = true ∧ w'.time ≤ w.time + d) ∧
      (∀ err unresponsive, out = .failed err unresponsive →
        err.code = .unavailable ∧ (err.hint ≠ "" → err.hint ∈ U)) ∧
      (since ≤ w.time → addr = leader → ∃ resp, out = .answered resp)) w := by
  unfold attempt
  split
  · rename_i cause hdial
    refine returns_pure.mpr ⟨rfl, le_rfl, Or.inl rfl, nofun, ?_⟩
    rintro hsince rfl
    have hserves := (he.serves pass k w.time hsince).1
    rw [hdial] at hserves
    cases hserves
  · rw [returns_now_bind]
    obtain ⟨δ, hδ, hafter⟩ := he.prompt pass k addr w.time
    have hlasts' : (ctx.withTimeout w.time attemptTimeout).Lasts (w.time + δ) := by
      refine Context.Lasts.withTimeout (fun e hends => ?_) (by omega)
      have hle := hlasts e hends
      omega
    have hcall : (ctx.withTimeout w.time attemptTimeout).call
        (net.reaction pass k addr w.time).answer (.error ∘ ctxCallError) w.time
        = some (w.time + δ, (net.reaction pass k addr w.time).answer.result) :=
      Context.call_of_lasts (Context.err_withTimeout (Context.err_of_lasts hlasts (by omega))
        (by decide)) hlasts' hafter le_rfl
    refine Returns.bind (returns_await
      (Q := fun a w' => a = (net.reaction pass k addr w.time).answer.result ∧
        w' = { w with time := w.time + δ }) hcall ⟨rfl, rfl⟩) ?_
    rintro a w' ⟨rfl, rfl⟩
    have hle : w.time ≤ w.time + δ := by omega
    have hlim : w.time + δ ≤ w.time + d := by omega
    split
    · rename_i resp _
      exact returns_pure.mpr ⟨rfl, hle, Or.inr ⟨rfl, hlim⟩, nofun, fun _ _ => ⟨resp, rfl⟩⟩
    · rename_i err hresult
      rw [returns_now_bind]
      refine returns_pure.mpr ⟨rfl, hle, Or.inr ⟨rfl, hlim⟩, ?_, ?_⟩
      · rintro err' unresponsive hout
        cases hout
        exact ⟨he.unavailable pass k addr w.time err hresult,
          he.hints pass k addr w.time err hresult⟩
      · rintro hsince rfl
        obtain ⟨resp, hresp⟩ := (he.serves pass k w.time hsince).2
        rw [hresult] at hresp
        cases hresp

theorem Election.returns_turn (he : Election net U leader since d)
    (hd : (d : Int) ≤ attemptTimeout) (hlasts : ctx.Lasts t) (pass k : Nat) (p : Pass)
    (hw : w.time < t) (hcall : ∀ addr, p.next = some addr → w.time + d < t) :
    (turn net ctx pass k p).Returns (fun out w' => w'.state = w.state ∧ w.time ≤ w'.time ∧
      (w'.time = w.time ∨ (∃ addr, p.next = some addr) ∧ out.attempt.made = true ∧
        w'.time ≤ w.time + d) ∧
      out.ctxErr = none ∧ Pass.AllUnavailable out ∧ Pass.HintIn U out ∧
      (since ≤ w.time → p.next = some leader → ∃ resp, out.attempt = .answered resp)) w := by
  have hctx : ctx.err w.time = none := Context.err_of_lasts hlasts hw
  unfold turn
  rw [returns_now_bind, hctx]
  cases hnext : p.next with
  | none => exact returns_pure.mpr ⟨rfl, le_rfl, Or.inl rfl, rfl, nofun, nofun, nofun⟩
  | some addr =>
    refine Returns.bind (he.returns_attempt hd hlasts pass k addr (hcall addr hnext)) ?_
    rintro out w' ⟨hstate, hle, htime, hfailed, hserved⟩
    refine returns_pure.mpr ⟨hstate, hle, ?_, rfl, ?_, ?_, ?_⟩
    · rcases htime with hsame | ⟨hmade, hlim⟩
      · exact Or.inl hsame
      · exact Or.inr ⟨⟨addr, rfl⟩, hmade, hlim⟩
    · intro err unresponsive hout
      exact (hfailed err unresponsive hout).1
    · intro err unresponsive hout
      exact (hfailed err unresponsive hout).2
    · intro hsince heq
      exact hserved hsince (Option.some.inj heq)

/-- The time that a pass takes at most. -/
def passTime (U : Finset String) (d : Nat) : Nat := d * (2 * U.card)

/-- **A pass during an election**, begun at `start`: it gets an answer, unless the leader was not
elected yet when it began. -/
theorem Election.returns_passLoop (he : Election net U leader since d)
    (hd : (d : Int) ≤ attemptTimeout) (hlasts : ctx.Lasts t) {start : Int}
    (hstart : start + passTime U d < t) {C : List String} (pass fuel k : Nat) {p : Pass}
    (hinv : p.Inv U C) (hknown : p.resolver.KnownIn U) (hfuel : p.rank U < fuel)
    (hseed : leader ∈ p.resolver.seedAddrs) (hle : start ≤ w.time)
    (hspent : w.time ≤ start + (d * p.calls.length : Nat))
    (hahead : since ≤ start → p.Ahead leader) :
    (passLoop net ctx pass fuel k p).Returns (fun result w' => start ≤ w'.time ∧
      w'.time ≤ start + passTime U d ∧ result.pass.resolver.KnownIn U ∧
      leader ∈ result.pass.resolver.seedAddrs ∧
      (((∃ resp, result.result = .ok resp) ∧ result.retry = false) ∨
        (result.retry = true ∧ start < since))) w := by
  induction fuel generalizing k p w with
  | zero => omega
  | succ fuel ih =>
    have hwithin : ∀ n, n ≤ 2 * U.card → d * n ≤ passTime U d :=
      fun n hn => Nat.mul_le_mul_left d hn
    have hcalls := hwithin _ hinv.toBounded.length_calls
    have hroom : ∀ addr, p.next = some addr → w.time + d < t := by
      intro addr hnext
      have hnextCall := hwithin (p.calls.length + 1) (hinv.calls_lt hnext)
      rw [Nat.mul_add_one] at hnextCall
      omega
    refine Returns.bind (he.returns_turn hd hlasts pass k p (by omega) hroom) ?_
    rintro out w' ⟨-, hle', htime, hctx, hall, hhint, hserved⟩
    have hit := p.iterated out
    have hresolver := hit.knownIn hinv hknown hhint
    have hseed' := hit.mem_seedAddrs hseed
    -- the time is paid for by the calls
    have hspent' : w'.time ≤ start + (d * (Pass.callsOf (p.iterate out)).length : Nat) := by
      rcases htime with hsame | ⟨⟨addr, hnext⟩, hmade, hlim⟩
      · have hmono : d * p.calls.length ≤ d * (Pass.callsOf (p.iterate out)).length :=
          Nat.mul_le_mul_left d hit.calls_le
        omega
      · have hmono : d * (p.calls.length + 1) ≤ d * (Pass.callsOf (p.iterate out)).length :=
          Nat.mul_le_mul_left d (hit.calls_lt hctx hnext hmade)
        rw [Nat.mul_add_one] at hmono
        omega
    rcases hit.ends (Finset.Subset.refl U) hinv hhint with
      ⟨p', hiter, hinv', hrank⟩ | ⟨result, hiter, hbounded, -⟩
    · rw [hiter] at hresolver hseed' hspent' hit ⊢
      refine ih (k + 1) hinv' hresolver (by omega) hseed' (hle.trans hle') hspent' ?_
      intro hsince
      exact (hahead hsince).iterated he.leader_ne (hserved (hsince.trans hle)) hit
    · rw [hiter] at hresolver hseed' hspent' ⊢
      have hlength : d * result.pass.calls.length ≤ passTime U d :=
        hwithin _ hbounded.length_calls
      have hspent'' : w'.time ≤ start + (d * result.pass.calls.length : Nat) := hspent'
      refine returns_pure.mpr ⟨hle.trans hle', by omega, hresolver, hseed', ?_⟩
      rcases Pass.result_of_unavailable hctx hall hiter with hok | ⟨hempty, hretry⟩
      · exact Or.inl hok
      · refine Or.inr ⟨hretry, ?_⟩
        by_contra hsince
        have hqueued := (hahead (not_lt.mp hsince)).queued
        rw [hempty] at hqueued
        cases hqueued

theorem Election.returns_tryCandidates (he : Election net U leader since d)
    (hd : (d : Int) ≤ attemptTimeout) (hlasts : ctx.Lasts t) (hw : w.time + passTime U d < t)
    (hknown : w.state.resolver.KnownIn U) (hseed : leader ∈ w.state.resolver.seedAddrs)
    (pass : Nat) {fuel : Nat} (hfuel : 3 * U.card < fuel) :
    (tryCandidates net ctx fuel pass).Returns (fun result w' => w.time ≤ w'.time ∧
      w'.time ≤ w.time + passTime U d ∧ w'.state.resolver.KnownIn U ∧
      leader ∈ w'.state.resolver.seedAddrs ∧
      (((∃ resp, result.result = .ok resp) ∧ result.retry = false) ∨
        (result.retry = true ∧ w.time < since))) w := by
  unfold tryCandidates
  have hothers := he.others pass w.state hknown
  have hseed' := he.known pass w.state hseed
  rw [returns_update_bind, returns_read_bind]
  refine Returns.bind (he.returns_passLoop hd hlasts hw pass fuel 0
    (Pass.inv_start_of_knownIn hothers) hothers
    (Nat.lt_of_le_of_lt (Pass.rank_start_le hothers) hfuel) hseed' le_rfl
    (Int.le_add_of_nonneg_right (Int.natCast_nonneg _)) ?_) ?_
  · exact fun _ => ⟨Resolver.mem_candidateAddrs_of_seed hseed', rfl⟩
  · rintro result w' ⟨hle, hlim, hknown', hseed'', hresult⟩
    exact returns_update_bind.mpr (returns_pure.mpr ⟨hle, hlim, hknown', hseed'', hresult⟩)

/-- The passes of a call during an election: those that begin before it is over are retried, and the
next one gets an answer. -/
theorem Election.returns_failoverLoop (he : Election net U leader since d)
    (hd : (d : Int) ≤ attemptTimeout) (hlasts : ctx.Lasts t) {late : Int}
    (hsince : since + passTime U d + 500 * millisecond ≤ late) (hlate : late + passTime U d < t)
    (hw : w.time ≤ late) (hknown : w.state.resolver.KnownIn U)
    (hseed : leader ∈ w.state.resolver.seedAddrs) {fuel : Nat} (hfuel : 3 * U.card < fuel)
    (rounds pass : Nat) {backoff : Int} (hbackoff : 0 ≤ backoff ∧ backoff ≤ 500 * millisecond)
    (hrounds : since - w.time ≤ waits rounds backoff) :
    (failoverLoop net ctx fuel (rounds + 1) pass backoff).Returns
      (fun result w' => (∃ resp, result = .ok resp) ∧ w'.time ≤ late + passTime U d) w := by
  induction rounds generalizing pass backoff w with
  | zero =>
    refine Returns.bind (he.returns_tryCandidates hd hlasts (by omega) hknown hseed pass hfuel) ?_
    rintro result w₁ ⟨-, hlim, -, -, ⟨hok, hretry⟩ | ⟨-, hearly⟩⟩
    · rw [if_pos hretry]
      exact returns_pure.mpr ⟨hok, by omega⟩
    · have hover : since - w.time ≤ 0 := hrounds
      omega
  | succ rounds ih =>
    refine Returns.bind (he.returns_tryCandidates hd hlasts (by omega) hknown hseed pass hfuel) ?_
    rintro result w₁ ⟨hle₁, hlim₁, hknown₁, hseed₁, ⟨hok, hretry⟩ | ⟨hretry, hearly⟩⟩
    · rw [if_pos hretry]
      exact returns_pure.mpr ⟨hok, by omega⟩
    · rw [if_neg (by rw [hretry]; decide)]
      refine Returns.bind (Context.returns_sleep_of_lasts hlasts (by omega) (net.pick pass)) ?_
      rintro cause w₂ ⟨rfl, rfl⟩
      have hmore : since - w.time
          ≤ backoff + waits rounds (min (2 * backoff) (500 * millisecond)) := hrounds
      have hw₂ : ({ w₁ with time := w₁.time + backoff } : Moment Client).time ≤ late := by
        show w₁.time + backoff ≤ late
        omega
      refine ih hw₂ hknown₁ hseed₁ (pass + 1) ⟨?_, min_le_right _ _⟩ ?_
      · omega
      · show since - (w₁.time + backoff) ≤ _
        omega

end Election

/-- The context of a call lasts as long as its deadline, or its budget, and nobody cancels it. -/
theorem lasts_budgeted {caller : Caller} {now t : Int}
    (hdeadline : t ≤ caller.deadline.getD (now + failoverBudget))
    (hcanceled : ∀ c ∈ caller.canceled, t ≤ c) : (budgeted caller now).Lasts t := by
  obtain ⟨_ | d, _ | c⟩ := caller
  · rintro e ⟨⟩
    exact hdeadline
  · show (Context.withTimeout ⟨some (c, .canceled)⟩ now failoverBudget).Lasts t
    refine Context.Lasts.withTimeout ?_ hdeadline
    rintro e ⟨⟩
    exact hcanceled c rfl
  · rintro e ⟨⟩
    exact hdeadline
  · show Context.Lasts t (if d ≤ c then _ else _)
    split
    · rintro e ⟨⟩
      exact hdeadline
    · rintro e ⟨⟩
      exact hcanceled c rfl

/-- **A call survives an election.** If the nodes answer within `d` and the new leader, which the
client knows, is there long enough before the call has to be over, then the call is answered by it,
two passes and a pause after the election at the latest. -/
theorem callWithFailover_survives {T : Type} {net : Network T} {U : Finset String}
    {leader : String} {since : Int} {d : Nat} (he : Election net U leader since d)
    (hd : (d : Int) ≤ attemptTimeout) {w : Moment Client}
    (hknown : w.state.resolver.KnownIn U) (hseed : leader ∈ w.state.resolver.seedAddrs)
    {caller : Caller} {bound : Int}
    (hbound : bound = max w.time since + 2 * passTime U d + 500 * millisecond)
    (hdeadline : bound < caller.deadline.getD (w.time + failoverBudget))
    (hcanceled : ∀ c ∈ caller.canceled, bound < c) {fuel rounds : Nat}
    (hfuel : 3 * U.card < fuel) (hrounds : since - w.time ≤ waits rounds (50 * millisecond)) :
    (callWithFailover net caller fuel (rounds + 1)).Returns
      (fun result w' => (∃ resp, result = .ok resp) ∧ w'.time ≤ bound) w := by
  have hlasts : (budgeted caller w.time).Lasts (bound + 1) := lasts_budgeted hdeadline hcanceled
  have hpause : (0 : Int) ≤ 50 * millisecond ∧ 50 * millisecond ≤ 500 * millisecond := by decide
  have hmillisecond : (0 : Int) ≤ 500 * millisecond := by decide
  unfold callWithFailover
  rw [returns_now_bind]
  refine (he.returns_failoverLoop hd hlasts
    (show since + passTime U d + 500 * millisecond
      ≤ max w.time since + passTime U d + 500 * millisecond by omega)
    (by omega) (by omega) hknown hseed hfuel rounds 0 hpause hrounds).imp ?_
  rintro result w' ⟨hok, hlim⟩
  exact ⟨hok, by omega⟩

/-- Beta is elected three seconds after the call was made; alpha goes on to name itself. -/
def electedLate : Network Unit where
  reaction := fun _ _ addr now => ⟨none, ⟨some 20000000,
    if addr = "beta:9000" ∧ 3 * second ≤ now then .ok ()
    else .error ⟨.unavailable, "alpha:9000", "not leader"⟩⟩⟩
  others := fun _ c => c
  pick := id

theorem election_electedLate : Election electedLate {"alpha:9000", "beta:9000"} "beta:9000"
    (3 * second) 20000000 where
  hints := by
    intro pass k addr now err herr hne
    simp only [electedLate] at herr
    split at herr
    · cases herr
    · cases herr
      decide
  others := fun _ _ h => h
  prompt := fun _ _ _ _ => ⟨_, le_rfl, rfl⟩
  unavailable := by
    intro pass k addr now err herr
    simp only [electedLate] at herr
    split at herr
    · cases herr
    · cases herr
      rfl
  serves := fun _ _ _ hsince => ⟨rfl, (), if_pos ⟨rfl, hsince⟩⟩
  leader_ne := by decide
  known := fun _ _ h => h

/-- The call is answered after 3.66 seconds at the latest. -/
theorem callWithFailover_survives_electedLate :
    (callWithFailover electedLate ⟨none, none⟩ 7 (9 + 1)).Returns
      (fun result w' => (∃ resp, result = .ok resp) ∧ w'.time ≤ 3660000000) ⟨0, twoSeeds⟩ :=
  callWithFailover_survives (w := ⟨0, twoSeeds⟩) election_electedLate (by decide) knownIn_twoSeeds
    (by decide) (by decide) (by decide) (fun _ hc => by cases hc) (by decide) (by decide)

end Client

end Clavis
