import Clavis.State.LeaseLife

/-!
# Clavis — the specification of the linearizability test

`internal/service/porcupine_test.go` checks recorded histories against a sequential specification
of one lock: who holds it and the last fencing token (`LockState`), with a function that accepts or
rejects an observed result (`lockLinearizabilityModel.step`). The state machine is written
independently of it, with a map of locks and one counter for all of them. `Clients.Simulates` ties
the two, and `lockLinearizabilityModel_simulates` says that along every sequence of calls they
agree in both directions: the specification accepts what the state machine answers, and accepts no
other answer to an acquire.
-/

namespace Clavis

open Machine

/-! ## The specification -/

/-- The `Kind` of a `lockOp`. -/
inductive LockOpKind where
  | acquire
  | release
  | other (kind : String)
deriving DecidableEq

structure LockOp where
  kind : LockOpKind
  clientID : Int64
deriving DecidableEq

/-- The `Kind` of a `lockResult`. -/
inductive LockResultKind where
  | ok
  | busy
  | released
  | other (kind : String)
deriving DecidableEq

structure LockResult where
  kind : LockResultKind
  token : UInt64
deriving DecidableEq

structure LockState where
  held : Bool
  heldBy : Int64
  token : UInt64
deriving DecidableEq

namespace lockLinearizabilityModel

def init : LockState := ⟨false, -1, 0⟩

def step (s : LockState) (op : LockOp) (out : LockResult) : Bool × LockState :=
  match op.kind with
  | .acquire =>
    match out.kind with
    | .busy => (s.held && s.heldBy != op.clientID, s)
    | .ok =>
      if !s.held then
        if out.token ≠ s.token + 1 then (false, s)
        else (true, ⟨true, op.clientID, out.token⟩)
      else if s.heldBy = op.clientID ∧ out.token = s.token then (true, s)
      else (false, s)
    | _ => (false, s)
  | .release =>
    if out.kind ≠ .released then (false, s)
    else if !s.held || s.heldBy != op.clientID then (false, s)
    else (true, ⟨false, -1, s.token⟩)
  | .other _ => (false, s)

end lockLinearizabilityModel

open lockLinearizabilityModel

/-! ## The calls of the test -/

/-- The clients, each with its own lease. -/
structure Clients where
  ids : Finset Int64
  owners : Int64 → String
  leases : Int64 → UInt64
  leases_inj : ∀ c ∈ ids, ∀ c' ∈ ids, leases c = leases c' → c = c'

/-- A call of a client on the lock. -/
inductive LockCall where
  | acquire (clientID : Int64)
  | release (clientID : Int64)
deriving DecidableEq

namespace LockCall

def clientID : LockCall → Int64
  | acquire c => c
  | release c => c

/-- The input the test records for a call. -/
def input : LockCall → LockOp
  | acquire c => ⟨.acquire, c⟩
  | release c => ⟨.release, c⟩

/-- The command the call commits. -/
def command (cs : Clients) (L : String) : LockCall → CommandWrapper
  | acquire c => newAcquireLockCmd L (cs.owners c) (cs.leases c)
  | release c => newReleaseLockCmd L (cs.leases c)

/-- The output the test records for the reply to a call; any other reply fails the test. -/
def output : LockCall → Result → Option LockResult
  | acquire _, .ok (.acquireLock resp) => some ⟨.ok, resp.fencingToken⟩
  | acquire _, .error .lockAlreadyHeld => some ⟨.busy, 0⟩
  | release _, .ok .none => some ⟨.released, 0⟩
  | _, _ => none

end LockCall

/-- Two results say the same: a token is part of `ok` only. -/
def LockResult.Same (out out' : LockResult) : Prop :=
  out.kind = out'.kind ∧ (out.kind = .ok → out.token = out'.token)

/-- The specification's state after a call that the state machine answers with `r`. -/
def LockState.next (s : LockState) (call : LockCall) (r : Result) : LockState :=
  match call.output r with
  | some out => (step s call.input out).2
  | none => s

/-- The state machine and the specification along a sequence of calls. -/
def Clients.follow (cs : Clients) (L : String) :
    Machine × LockState → List LockCall → Machine × LockState
  | p, [] => p
  | (m, s), call :: calls =>
    cs.follow L (m.next (call.command cs L), s.next call (m.result (call.command cs L))) calls

/-! ## The simulation -/

namespace Clients

/-- Every client has its lease, under its own name. -/
def Leased (cs : Clients) (m : Machine) : Prop :=
  ∀ c ∈ cs.ids, ∃ lease, m.getLease (cs.leases c) = some lease ∧ lease.ownerID = cs.owners c

/-- **The simulation** for lock `L`. -/
structure Simulates (cs : Clients) (L : String) (m : Machine) (s : LockState) : Prop where
  leased : cs.Leased m
  token : m.fsm.fencingCounter = s.token
  free : s.held = false → m.getLock L = none ∧ s.heldBy = -1
  held : s.held = true → s.heldBy ∈ cs.ids ∧ ∃ lock, m.getLock L = some lock ∧
    lock.leaseID = cs.leases s.heldBy ∧ lock.fencingToken = s.token

/-- The call is a release by a client that does not hold the lock. -/
def ReleasedByOther (cs : Clients) (L : String) (m : Machine) (call : LockCall) : Prop :=
  ∃ c, call = .release c ∧ m.holder L ≠ some (cs.leases c)

/-- **The two agree on a call.** -/
structure Agrees (cs : Clients) (L : String) (m : Machine) (s : LockState) (call : LockCall) :
    Prop where
  accepts : ¬ cs.ReleasedByOther L m call →
    ∃ out, call.output (m.result (call.command cs L)) = some out ∧
      (step s call.input out).1 = true ∧
      cs.Simulates L (m.next (call.command cs L)) (step s call.input out).2 ∧
      ∀ c, call = .acquire c → ∀ out', (step s call.input out').1 = true → out'.Same out
  rejects : cs.ReleasedByOther L m call →
    (∃ e, m.result (call.command cs L) = .error e) ∧ m.next (call.command cs L) = m ∧
      ∀ out, step s call.input out = (false, s)

end Clients

/-! ### One call -/

namespace Clients

variable {cs : Clients} {L : String} {m : Machine} {s : LockState} {c : Int64}

/-- An acquire of the free lock is granted with the next token, and the specification accepts that
answer only. -/
theorem Simulates.acquire_free (h : cs.Simulates L m s) (hc : c ∈ cs.ids) (hs : s.held = false) :
    cs.Agrees L m s (.acquire c) := by
  obtain ⟨lease, hlease, howner⟩ := h.leased c hc
  have happ := apply_acquire_free hlease howner (h.free hs).1
  refine ⟨fun _ => ⟨⟨.ok, s.token + 1⟩, ?_, ?_, ?_, ?_⟩, ?_⟩
  · simp only [LockCall.command, result, happ, FSM.reply, LockCall.output, h.token]
  · simp [step, LockCall.input, hs]
  · have hstep : (step s (LockCall.acquire c).input ⟨.ok, s.token + 1⟩).2
        = ⟨true, c, s.token + 1⟩ := by simp [step, LockCall.input, hs]
    rw [hstep]
    constructor
    · intro c' hc'
      obtain ⟨lease', hlease', howner'⟩ := h.leased c' hc'
      refine ⟨lease', ?_, howner'⟩
      rw [next_getLease, LockCall.command, happ]
      exact hlease'
    · show (m.apply _).fsm.fencingCounter = _
      simp only [LockCall.command, happ, FSM.reply, withLock, h.token]
    · intro hheld
      cases hheld
    · intro _
      refine ⟨hc, m.grantedLock ⟨L, cs.owners c, cs.leases c, 0⟩, ?_, rfl, ?_⟩
      · rw [next_getLock, LockCall.command, happ]
        simp only [FSM.reply, withLock, join_lookup_insert, if_true]
      · simp only [grantedLock, h.token]
  · intro _ _ out' hout'
    obtain ⟨kind, token⟩ := out'
    cases kind with
    | ok =>
      refine ⟨rfl, fun _ => ?_⟩
      by_contra hne
      simp [step, LockCall.input, hs, hne] at hout'
    | _ => simp [step, LockCall.input, hs] at hout'
  · rintro ⟨c', hcall, -⟩
    cases hcall

/-- The lock is bound to a client's lease exactly when the specification says that the client holds
it. -/
theorem Simulates.holder_iff (h : cs.Simulates L m s) (hc : c ∈ cs.ids) :
    m.holder L = some (cs.leases c) ↔ s.held = true ∧ s.heldBy = c := by
  cases hs : s.held with
  | false => simp [holder, (h.free hs).1]
  | true =>
    obtain ⟨hby, lock, hlock, hid, -⟩ := h.held hs
    simp only [holder, hlock, Option.map_some, Option.some.injEq, hid, true_and]
    exact ⟨cs.leases_inj _ hby _ hc, fun heq => by rw [heq]⟩

/-- An acquire of the held lock changes nothing. -/
theorem Simulates.next_of_held (h : cs.Simulates L m s) (hc : c ∈ cs.ids) (hs : s.held = true) :
    m.next ((LockCall.acquire c).command cs L) = m := by
  obtain ⟨lease, hlease, howner⟩ := h.leased c hc
  obtain ⟨-, lock, hlock, -, -⟩ := h.held hs
  refine next_eq_self ?_
  rw [LockCall.command, apply_acquire_held hlease howner hlock]
  split <;> rfl

/-- The holder is told its token again, and the specification accepts that answer only. -/
theorem Simulates.acquire_own (h : cs.Simulates L m s) (hc : c ∈ cs.ids) (hs : s.held = true)
    (hby : s.heldBy = c) : cs.Agrees L m s (.acquire c) := by
  obtain ⟨lease, hlease, howner⟩ := h.leased c hc
  obtain ⟨-, lock, hlock, hid, htoken⟩ := h.held hs
  have happ := apply_acquire_held hlease howner hlock
  rw [if_pos (hid.trans (by rw [hby]))] at happ
  refine ⟨fun _ => ⟨⟨.ok, s.token⟩, ?_, ?_, ?_, ?_⟩, ?_⟩
  · simp only [LockCall.command, result, happ, FSM.reply, LockCall.output, htoken]
  · simp [step, LockCall.input, hs, hby]
  · rw [h.next_of_held hc hs]
    simpa [step, LockCall.input, hs, hby] using h
  · intro _ _ out' hout'
    obtain ⟨kind, token⟩ := out'
    cases kind with
    | ok =>
      refine ⟨rfl, fun _ => ?_⟩
      by_contra hne
      simp [step, LockCall.input, hs, hby, hne] at hout'
    | _ => simp [step, LockCall.input, hs, hby] at hout'
  · rintro ⟨c', hcall, -⟩
    cases hcall

/-- Anyone else is refused, and the specification accepts that answer only. -/
theorem Simulates.acquire_busy (h : cs.Simulates L m s) (hc : c ∈ cs.ids) (hs : s.held = true)
    (hby : s.heldBy ≠ c) : cs.Agrees L m s (.acquire c) := by
  obtain ⟨lease, hlease, howner⟩ := h.leased c hc
  obtain ⟨hmem, lock, hlock, hid, -⟩ := h.held hs
  have happ := apply_acquire_held hlease howner hlock
  -- the clients' leases differ
  have hne : lock.leaseID ≠ cs.leases c := by
    rw [hid]
    exact mt (cs.leases_inj _ hmem _ hc) hby
  rw [if_neg hne] at happ
  refine ⟨fun _ => ⟨⟨.busy, 0⟩, ?_, ?_, ?_, ?_⟩, ?_⟩
  · simp only [LockCall.command, result, happ, FSM.fail, LockCall.output]
  · simp [step, LockCall.input, hs, hby]
  · rw [h.next_of_held hc hs]
    simpa [step, LockCall.input] using h
  · intro _ _ out' hout'
    obtain ⟨kind, token⟩ := out'
    cases kind with
    | busy =>
      refine ⟨rfl, fun hok => ?_⟩
      cases hok
    | _ => simp [step, LockCall.input, hs, hby] at hout'
  · rintro ⟨c', hcall, -⟩
    cases hcall

theorem Simulates.release (h : cs.Simulates L m s) (hc : c ∈ cs.ids) :
    cs.Agrees L m s (.release c) := by
  refine ⟨fun hother => ?_, ?_⟩
  · have hholder : m.holder L = some (cs.leases c) := by
      by_contra hne
      exact hother ⟨c, rfl, hne⟩
    obtain ⟨lock, hlock, hid⟩ := holder_eq_some.mp hholder
    obtain ⟨hs, hby⟩ := (h.holder_iff hc).mp hholder
    have happ := apply_release_held hlock hid
    refine ⟨⟨.released, 0⟩, ?_, ?_, ?_, ?_⟩
    · simp only [LockCall.command, result, happ, LockCall.output]
    · simp [step, LockCall.input, hs, hby]
    · have hstep : (step s (LockCall.release c).input ⟨.released, 0⟩).2
          = ⟨false, -1, s.token⟩ := by simp [step, LockCall.input, hs, hby]
      rw [hstep]
      constructor
      · intro c' hc'
        obtain ⟨lease', hlease', howner'⟩ := h.leased c' hc'
        refine ⟨lease', ?_, howner'⟩
        rw [next_getLease, LockCall.command, happ]
        exact hlease'
      · show (m.apply _).fsm.fencingCounter = _
        simp only [LockCall.command, happ, h.token]
      · intro _
        refine ⟨?_, rfl⟩
        rw [next_getLock, LockCall.command, happ, join_lookup_erase, if_pos rfl]
      · intro hheld
        cases hheld
    · intro c' hcall
      cases hcall
  · rintro ⟨c', hcall, hother⟩
    cases hcall
    obtain ⟨e, happ⟩ := apply_release_other hother
    refine ⟨⟨e, ?_⟩, ?_, ?_⟩
    · rw [LockCall.command, result, happ, FSM.fail]
    · refine next_eq_self ?_
      rw [LockCall.command, happ, FSM.fail]
    · intro out
      have hnot : ¬ (s.held = true ∧ s.heldBy = c) := mt (h.holder_iff hc).mpr hother
      have hguard : (!s.held || s.heldBy != c) = true := by
        cases hs : s.held <;> simp_all
      simp [step, LockCall.input, hguard]

/-- **One call.** -/
theorem Simulates.agrees (h : cs.Simulates L m s) {call : LockCall} (hc : call.clientID ∈ cs.ids) :
    cs.Agrees L m s call := by
  cases call with
  | acquire c =>
    cases hs : s.held with
    | false => exact h.acquire_free hc hs
    | true =>
      by_cases hby : s.heldBy = c
      · exact h.acquire_own hc hs hby
      · exact h.acquire_busy hc hs hby
  | release c => exact h.release hc

theorem Simulates.next (h : cs.Simulates L m s) {call : LockCall} (hc : call.clientID ∈ cs.ids) :
    cs.Simulates L (m.next (call.command cs L))
      (s.next call (m.result (call.command cs L))) := by
  obtain ⟨haccepts, hrejects⟩ := h.agrees hc
  by_cases hother : cs.ReleasedByOther L m call
  · obtain ⟨⟨e, he⟩, hsame, -⟩ := hrejects hother
    obtain ⟨c, rfl, -⟩ := hother
    rw [hsame, he]
    exact h
  · obtain ⟨out, hout, -, hnext, -⟩ := haccepts hother
    rw [LockState.next, hout]
    exact hnext

/-! ### Sequences of calls -/

theorem Simulates.follow (h : cs.Simulates L m s) {calls : List LockCall}
    (hcalls : ∀ call ∈ calls, call.clientID ∈ cs.ids) :
    cs.Simulates L (cs.follow L (m, s) calls).1 (cs.follow L (m, s) calls).2 := by
  induction calls generalizing m s with
  | nil => exact h
  | cons call calls ih =>
    exact ih (h.next (hcalls call List.mem_cons_self))
      fun call' hcall' => hcalls call' (List.mem_cons_of_mem call hcall')

/-- The state machine's side of `follow` is the replay of the commands. -/
theorem follow_fst (cs : Clients) (L : String) (m : Machine) (s : LockState)
    (calls : List LockCall) :
    (cs.follow L (m, s) calls).1 = m.replay (calls.map (LockCall.command cs L)) := by
  induction calls generalizing m s with
  | nil => rfl
  | cons call calls ih => exact ih _ _

end Clients

/-- **The state machine is the sequential specification of the linearizability test.** A machine in
which the clients have their leases, the lock is free and no token was granted corresponds to the
specification's initial state; and along every sequence of calls, from any two corresponding
states, the states stay in correspondence and every call is agreed upon. -/
theorem lockLinearizabilityModel_simulates (cs : Clients) (L : String) :
    (∀ m, cs.Leased m → m.getLock L = none → m.fsm.fencingCounter = 0 →
      cs.Simulates L m lockLinearizabilityModel.init) ∧
    ∀ m s, cs.Simulates L m s →
      ∀ calls : List LockCall, (∀ call ∈ calls, call.clientID ∈ cs.ids) →
        ∀ i call, calls[i]? = some call →
          ∃ mᵢ sᵢ, cs.follow L (m, s) (calls.take i) = (mᵢ, sᵢ) ∧
            mᵢ = m.replay ((calls.take i).map (LockCall.command cs L)) ∧
            cs.Simulates L mᵢ sᵢ ∧ cs.Agrees L mᵢ sᵢ call := by
  constructor
  · intro m hleased hfree hcounter
    exact ⟨hleased, hcounter, fun _ => ⟨hfree, rfl⟩, fun hheld => nomatch hheld⟩
  · intro m s h calls hcalls i call hcall
    have hi : cs.Simulates L (cs.follow L (m, s) (calls.take i)).1
        (cs.follow L (m, s) (calls.take i)).2 :=
      h.follow fun call' hcall' => hcalls call' (List.mem_of_mem_take hcall')
    have hclient : call.clientID ∈ cs.ids := hcalls call (List.mem_of_getElem? hcall)
    exact ⟨_, _, rfl, cs.follow_fst L m s _, hi, hi.agrees hclient⟩

/-- Two clients with leases 1 and 2. -/
def twoClients : Clients where
  ids := {0, 1}
  owners c := if c = 0 then "client-0" else "client-1"
  leases c := if c = 0 then 1 else 2
  leases_inj := by
    intro c hc c' hc' heq
    rw [Finset.mem_insert, Finset.mem_singleton] at hc hc'
    rcases hc with rfl | rfl <;> rcases hc' with rfl | rfl
    · rfl
    · cases heq
    · cases heq
    · rfl

def twoClientLeases : Machine :=
  new.replay [newCreateLeaseCmd "client-0" 120 1, newCreateLeaseCmd "client-1" 120 1]

/-- Client 1 acquires the lock after client 0 has released it and has tried to release it again. -/
theorem lockLinearizabilityModel_simulates_handover :
    twoClients.Simulates "porcupine" twoClientLeases lockLinearizabilityModel.init ∧
    ∃ m s, twoClients.follow "porcupine" (twoClientLeases, lockLinearizabilityModel.init)
        [.acquire 0, .acquire 1, .release 0, .release 0] = (m, s) ∧
      s = ⟨false, -1, 1⟩ ∧ twoClients.Agrees "porcupine" m s (.acquire 1) := by
  obtain ⟨hinit, hcalls⟩ := lockLinearizabilityModel_simulates twoClients "porcupine"
  have hstart := hinit twoClientLeases
    (by
      intro c hc
      rcases Finset.mem_insert.mp hc with rfl | hc
      · exact ⟨⟨1, "client-0", 121, 120⟩, by decide, rfl⟩
      · cases Finset.mem_singleton.mp hc
        exact ⟨⟨2, "client-1", 121, 120⟩, by decide, rfl⟩)
    (by decide) (by decide)
  obtain ⟨m, s, hfollow, -, -, hagrees⟩ := hcalls _ _ hstart
    [.acquire 0, .acquire 1, .release 0, .release 0, .acquire 1] (by decide) 4 (.acquire 1) rfl
  refine ⟨hstart, m, s, hfollow, ?_, hagrees⟩
  have hs : s = (twoClients.follow "porcupine" (twoClientLeases, lockLinearizabilityModel.init)
      [.acquire 0, .acquire 1, .release 0, .release 0]).2 := (congrArg Prod.snd hfollow).symm
  rw [hs]
  decide

end Clavis
