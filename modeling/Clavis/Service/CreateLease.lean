import Clavis.State.LeaseLife
import Clavis.Service.Acquire

/-!
# Clavis — the TTL of a lease, end to end

A TTL comes in as a 64-bit number of seconds and is checked twice: by `leaseTTLDuration` on the
leader, against the leader's clock, and by the state machine when the entry is applied
(`leaseExpiryAt`). Both compute with wrapping 64-bit integers. `ttl_checks_agree` says that the two
checks draw the line at the same place, and that nothing wraps on the accepted side.

That nothing wraps is said by a second version of the path, whose arithmetic traps: an operation
with a result other than the one over the integers has no value (`Trap`). The `…Trapping` functions
are the functions of the source, line by line, with that arithmetic.
-/

namespace Clavis

open Machine

/-! ## The path of a request -/

/-- `time.Second`. -/
def Time.second : Duration := 1000000000

def maxLeaseTTLSeconds : Int64 := Int64.maxValue / Time.second

def leaseTTLDuration (ttlSeconds : Int64) (now : Int) : Except ServiceError Duration :=
  if ttlSeconds ≤ 0 then .error (.invalidArgument "ttl_seconds must be greater than 0")
  else if ttlSeconds > maxLeaseTTLSeconds then
    .error (.invalidArgument "ttl_seconds exceeds the maximum supported duration")
  else
    let ttl : Duration := ttlSeconds * Time.second
    let maxExpiryNanos : Int64 := Int64.maxValue - Time.unixNano now
    if maxExpiryNanos ≤ 0 ∨ ttl > maxExpiryNanos then
      .error (.invalidArgument "ttl_seconds exceeds the maximum supported expiry")
    else .ok ttl

/-- `as[state.CreateLeaseResponse]` of an applied command. -/
def asCreateLeaseResponse : Result → Except ServiceError CreateLeaseResponse
  | .error e => .error (.domain e)
  | .ok (.createLease resp) => .ok resp
  | .ok _ => .error .unexpectedResponse

/-- `Service.CreateLease` on a node whose clock reads `now`. `m` is the state machine to which the
entry is applied; that `Apply` may fail before is not modelled. -/
def Service.createLease (isLeader : Bool) (now : Int) (m : Machine) (ownerID : String)
    (ttlSeconds : Int64) : Except ServiceError CreateLeaseResponse :=
  if !isLeader then .error .notLeader
  else if ownerID = "" then .error (.invalidArgument "owner_id required")
  else match leaseTTLDuration ttlSeconds now with
    | .error e => .error e
    | .ok ttl => asCreateLeaseResponse (m.result (newCreateLeaseCmd ownerID ttl now))

/-- `pb.CreateLeaseResponse`. -/
structure CreateLeaseReply where
  leaseId : UInt64
  ttlSeconds : Int64
deriving DecidableEq

/-- `Server.CreateLease`, before `toGRPCError`. -/
def Server.createLease (isLeader : Bool) (now : Int) (m : Machine) (ownerID : String)
    (ttlSeconds : Int64) : Except ServiceError CreateLeaseReply :=
  match Service.createLease isLeader now m ownerID ttlSeconds with
  | .error e => .error e
  | .ok resp => .ok ⟨resp.leaseID, resp.ttl / Time.second⟩

/-! ## The same path on integers that trap -/

namespace Trap

/-- The result `r` of an operation whose value over the integers is `v`. -/
def exact (r : Int64) (v : Int) : Option Int64 := if r.toInt = v then some r else none

theorem exact_eq_some {r : Int64} {v : Int} (h : r.toInt = v) : exact r v = some r := if_pos h

def mul (a b : Int64) : Option Int64 := exact (a * b) (a.toInt * b.toInt)

def sub (a b : Int64) : Option Int64 := exact (a - b) (a.toInt - b.toInt)

def div (a b : Int64) : Option Int64 := exact (a / b) (a.toInt.tdiv b.toInt)

def unixNano (t : Int) : Option Int64 := exact (Time.unixNano t) t

end Trap

def leaseTTLDurationTrapping (ttlSeconds : Int64) (now : Int) :
    Option (Except ServiceError Duration) :=
  if ttlSeconds ≤ 0 then some (.error (.invalidArgument "ttl_seconds must be greater than 0"))
  else if ttlSeconds > maxLeaseTTLSeconds then
    some (.error (.invalidArgument "ttl_seconds exceeds the maximum supported duration"))
  else do
    let ttl ← Trap.mul ttlSeconds Time.second
    let nanos ← Trap.unixNano now
    let maxExpiryNanos ← Trap.sub Int64.maxValue nanos
    if maxExpiryNanos ≤ 0 ∨ ttl > maxExpiryNanos then
      some (.error (.invalidArgument "ttl_seconds exceeds the maximum supported expiry"))
    else some (.ok ttl)

def newCreateLeaseCmdTrapping (ownerID : String) (ttl : Duration) (now : Int) :
    Option CommandWrapper := do
  let nanos ← Trap.unixNano now
  some ⟨.createLease, some (.createLease ⟨ownerID, ttl, nanos⟩)⟩

def leaseExpiryAtTrapping (start : Int) (ttl : Duration) : Option (Except DomainError Int) := do
  let nanos ← Trap.unixNano start
  let maxExpiryNanos ← Trap.sub Int64.maxValue nanos
  if ttl ≤ 0 ∨ maxExpiryNanos ≤ 0 ∨ ttl > maxExpiryNanos then some (.error .invalidLeaseTTL)
  else some (.ok (Time.add start ttl))

def FSM.applyCreateLeaseTrapping (f : FSM) (cmd : CreateLeaseCommand) : Option Applied :=
  let ttl : Duration := cmd.ttlNanos
  if ttl ≤ 0 then some (f.fail .invalidLeaseTTL)
  else match commandTime cmd.createAtUnixNano with
    | .error e => some (f.fail e)
    | .ok createdAt => do
      match ← leaseExpiryAtTrapping createdAt ttl with
      | .error e => some (f.fail e)
      | .ok expiresAt => do
        let expiresAtUnixNano ← Trap.unixNano expiresAt
        let leaseID := f.nextLeaseID
        let lease : Lease := ⟨leaseID, cmd.ownerId, expiresAtUnixNano, ttl⟩
        some ({ f with
          nextLeaseID := f.nextLeaseID + 1
          leases := f.leases.insert leaseID (some lease) }.reply
            (.createLease ⟨leaseID, expiresAt, ttl⟩))

/-- The whole path, from the request's seconds to the applied entry and the seconds of the reply. -/
def createLeaseTrapping (f : FSM) (ownerID : String) (ttlSeconds : Int64) (now : Int) :
    Option (Except ServiceError (Applied × Int64)) := do
  match ← leaseTTLDurationTrapping ttlSeconds now with
  | .error e => some (.error e)
  | .ok ttl =>
    let cmd ← newCreateLeaseCmdTrapping ownerID ttl now
    let applied ← f.applyCreateLeaseTrapping cmd.getCreateLease
    let seconds ← Trap.div ttl Time.second
    some (.ok (applied, seconds))

/-! ## The arithmetic -/

section Arithmetic

variable {ttlSeconds : Int64} {now : Int}

theorem unixNano_toInt (hnow : 1 ≤ now) (hmax : now ≤ 2 ^ 63 - 1) :
    (Time.unixNano now).toInt = now :=
  Int64.toInt_ofInt_of_le (by omega) (by omega)

/-- What is left of the 63 bits after a clock reading. -/
theorem maxExpiryNanos_toInt (hnow : 1 ≤ now) (hmax : now ≤ 2 ^ 63 - 1) :
    (Int64.maxValue - Time.unixNano now).toInt = 2 ^ 63 - 1 - now := by
  rw [Int64.toInt_sub, Int64.toInt_maxValue, unixNano_toInt hnow hmax]
  exact Int.bmod_eq_of_le (by omega) (by omega)

theorem second_toInt : Time.second.toInt = 10 ^ 9 := by decide

theorem maxLeaseTTLSeconds_toInt : maxLeaseTTLSeconds.toInt = 9223372036 := by decide

/-- The bound in seconds is what keeps the multiplication exact. -/
theorem mul_second_toInt (hpos : 0 < ttlSeconds.toInt) (hle : ttlSeconds.toInt ≤ 9223372036) :
    (ttlSeconds * Time.second).toInt = ttlSeconds.toInt * 10 ^ 9 := by
  rw [Int64.toInt_mul, second_toInt]
  exact Int.bmod_eq_of_le (by omega) (by omega)

/-- **`leaseTTLDuration` is exact.** -/
theorem leaseTTLDuration_eq_ok (hnow : 1 ≤ now) (hmax : now ≤ 2 ^ 63 - 1) {ttl : Duration} :
    leaseTTLDuration ttlSeconds now = .ok ttl ↔
      0 < ttlSeconds.toInt ∧ now + ttlSeconds.toInt * 10 ^ 9 ≤ 2 ^ 63 - 1 ∧
        ttl = ttlSeconds * Time.second := by
  have hroom := maxExpiryNanos_toInt hnow hmax
  simp only [leaseTTLDuration, gt_iff_lt, Int64.le_iff_toInt_le, Int64.lt_iff_toInt_lt, hroom,
    maxLeaseTTLSeconds_toInt, Int64.toInt_zero]
  split
  · exact ⟨nofun, fun ⟨hpos, _⟩ => by omega⟩
  · rename_i hpos
    split
    · exact ⟨nofun, fun ⟨_, hfits, _⟩ => by omega⟩
    · rename_i hle
      rw [mul_second_toInt (by omega) (by omega)]
      split
      · exact ⟨nofun, fun ⟨_, hfits, _⟩ => by omega⟩
      · rename_i hroom'
        constructor
        · intro h
          cases h
          exact ⟨by omega, by omega, rfl⟩
        · rintro ⟨-, -, rfl⟩
          rfl

end Arithmetic

/-! ## The accepted side -/

/-- What an accepted `CreateLease` does. -/
def FSM.withNewLease (f : FSM) (ownerID : String) (expiresAt : Int) (ttl : Duration) : Applied :=
  { f with
    nextLeaseID := f.nextLeaseID + 1
    leases := f.leases.insert f.nextLeaseID
      (some ⟨f.nextLeaseID, ownerID, Time.unixNano expiresAt, ttl⟩) }.reply
    (.createLease ⟨f.nextLeaseID, expiresAt, ttl⟩)

theorem Machine.apply_newCreateLeaseCmd (m : Machine) {ownerID : String} {ttl : Duration}
    {now expiresAt : Int} (httl : ¬ ttl ≤ 0)
    (hnow : FSM.commandTime (Time.unixNano now) = .ok now)
    (hexpiry : FSM.leaseExpiryAt now ttl = .ok expiresAt) :
    m.apply (newCreateLeaseCmd ownerID ttl now) = m.fsm.withNewLease ownerID expiresAt ttl := by
  have happ : m.fsm.apply (newCreateLeaseCmd ownerID ttl now)
      = some (m.fsm.applyCreateLease ⟨ownerID, ttl, Time.unixNano now⟩) := rfl
  rw [m.fsm_apply] at happ
  rw [Option.some.inj happ, FSM.applyCreateLease]
  simp only [if_neg httl, hnow, hexpiry, FSM.withNewLease]

theorem FSM.applyCreateLeaseTrapping_eq (f : FSM) {cmd : CreateLeaseCommand} {now expiresAt : Int}
    (httl : ¬ cmd.ttlNanos ≤ 0) (hnow : commandTime cmd.createAtUnixNano = .ok now)
    (hexpiry : leaseExpiryAtTrapping now cmd.ttlNanos = some (.ok expiresAt))
    (hnanos : Trap.unixNano expiresAt = some (Time.unixNano expiresAt)) :
    f.applyCreateLeaseTrapping cmd = some (f.withNewLease cmd.ownerId expiresAt cmd.ttlNanos) := by
  simp only [applyCreateLeaseTrapping, if_neg httl, hnow, hexpiry, hnanos, Option.bind_eq_bind,
    Option.bind_some, withNewLease]

theorem createLeaseTrapping_of {f : FSM} {ownerID : String} {ttlSeconds seconds : Int64}
    {now : Int} {ttl : Duration} {cmd : CommandWrapper} {applied : Applied}
    (httl : leaseTTLDurationTrapping ttlSeconds now = some (.ok ttl))
    (hcmd : newCreateLeaseCmdTrapping ownerID ttl now = some cmd)
    (happ : f.applyCreateLeaseTrapping cmd.getCreateLease = some applied)
    (hdiv : Trap.div ttl Time.second = some seconds) :
    createLeaseTrapping f ownerID ttlSeconds now = some (.ok (applied, seconds)) := by
  simp only [createLeaseTrapping, httl, hcmd, happ, hdiv, Option.bind_eq_bind, Option.bind_some]

theorem getLease_withNewLease (f : FSM) (ownerID : String) (expiresAt : Int) (ttl : Duration) :
    ((f.withNewLease ownerID expiresAt ttl).fsm.leases.lookup f.nextLeaseID).join
      = some ⟨f.nextLeaseID, ownerID, Time.unixNano expiresAt, ttl⟩ := by
  rw [FSM.withNewLease, FSM.reply, join_lookup_insert, if_pos rfl]

theorem Server.createLease_eq_ok {now : Int} {m : Machine} {ownerID : String} {ttlSeconds : Int64}
    {ttl : Duration} {resp : CreateLeaseResponse} (howner : ownerID ≠ "")
    (httl : leaseTTLDuration ttlSeconds now = .ok ttl)
    (hresult : m.result (newCreateLeaseCmd ownerID ttl now) = .ok (.createLease resp)) :
    Server.createLease true now m ownerID ttlSeconds
      = .ok ⟨resp.leaseID, resp.ttl / Time.second⟩ := by
  simp only [Server.createLease, Service.createLease, Bool.not_true, Bool.false_eq_true, if_false,
    if_neg howner, httl, hresult, asCreateLeaseResponse]

section Accepted

variable {ttlSeconds : Int64} {now : Int} (hnow : 1 ≤ now) (hpos : 0 < ttlSeconds.toInt)
  (hfits : now + ttlSeconds.toInt * 10 ^ 9 ≤ 2 ^ 63 - 1)

include hnow hpos hfits

theorem ttl_toInt : (ttlSeconds * Time.second).toInt = ttlSeconds.toInt * 10 ^ 9 :=
  mul_second_toInt hpos (by omega)

theorem expiry_toInt :
    (Time.unixNano (now + ttlSeconds.toInt * 10 ^ 9)).toInt
      = now + ttlSeconds.toInt * 10 ^ 9 :=
  unixNano_toInt (by omega) hfits

/-- The seconds come back. -/
theorem ttl_div_second : ttlSeconds * Time.second / Time.second = ttlSeconds := by
  have httl := ttl_toInt hnow hpos hfits
  refine Int64.toInt_inj.mp ?_
  rw [Int64.toInt_div, httl, second_toInt, Int.mul_tdiv_cancel _ (by decide)]
  exact Int.bmod_eq_of_le (by omega) (by omega)

/-- The check of `leaseExpiryAt` lets the TTL pass that `leaseTTLDuration` has let pass. -/
theorem leaseExpiryAt_accepts :
    FSM.leaseExpiryAt now (ttlSeconds * Time.second) = .ok (now + ttlSeconds.toInt * 10 ^ 9) := by
  have httl := ttl_toInt hnow hpos hfits
  have hroom := maxExpiryNanos_toInt hnow (by omega)
  unfold FSM.leaseExpiryAt
  simp only [gt_iff_lt, Int64.le_iff_toInt_le, Int64.lt_iff_toInt_lt, hroom, httl,
    Int64.toInt_zero]
  rw [if_neg (by omega), Time.add, httl]

theorem commandTime_accepts : FSM.commandTime (Time.unixNano now) = .ok now := by
  have hnano := unixNano_toInt hnow (by omega)
  unfold FSM.commandTime
  rw [if_neg, hnano]
  rw [Int64.le_iff_toInt_le, hnano]
  simp only [Int64.toInt_zero]
  omega

theorem ttl_not_le_zero : ¬ ttlSeconds * Time.second ≤ 0 := by
  rw [Int64.le_iff_toInt_le, ttl_toInt hnow hpos hfits, Int64.toInt_zero]
  omega

/-- **Every state machine accepts the command.** -/
theorem apply_createLease (m : Machine) (ownerID : String) :
    m.apply (newCreateLeaseCmd ownerID (ttlSeconds * Time.second) now)
      = m.fsm.withNewLease ownerID (now + ttlSeconds.toInt * 10 ^ 9)
          (ttlSeconds * Time.second) := by
  refine m.apply_newCreateLeaseCmd (ttl_not_le_zero hnow hpos hfits) ?_
    (leaseExpiryAt_accepts hnow hpos hfits)
  exact commandTime_accepts hnow hpos hfits

/-! ### No operation traps -/

theorem trap_unixNano_now : Trap.unixNano now = some (Time.unixNano now) :=
  Trap.exact_eq_some (unixNano_toInt hnow (by omega))

theorem trap_maxExpiryNanos :
    Trap.sub Int64.maxValue (Time.unixNano now) = some (Int64.maxValue - Time.unixNano now) := by
  refine Trap.exact_eq_some ?_
  rw [maxExpiryNanos_toInt hnow (by omega), Int64.toInt_maxValue, unixNano_toInt hnow (by omega)]

theorem leaseTTLDurationTrapping_eq :
    leaseTTLDurationTrapping ttlSeconds now = some (.ok (ttlSeconds * Time.second)) := by
  have httl := ttl_toInt hnow hpos hfits
  have hmul : Trap.mul ttlSeconds Time.second = some (ttlSeconds * Time.second) := by
    rw [Trap.mul]
    refine Trap.exact_eq_some ?_
    rw [httl, second_toInt]
  have hpositive : ¬ ttlSeconds ≤ 0 := by
    rw [Int64.le_iff_toInt_le, Int64.toInt_zero]
    omega
  have hseconds : ¬ ttlSeconds > maxLeaseTTLSeconds := by
    rw [gt_iff_lt, Int64.lt_iff_toInt_lt, maxLeaseTTLSeconds_toInt]
    omega
  have hroom : ¬ (Int64.maxValue - Time.unixNano now ≤ 0 ∨
      ttlSeconds * Time.second > Int64.maxValue - Time.unixNano now) := by
    rw [gt_iff_lt, Int64.le_iff_toInt_le, Int64.lt_iff_toInt_lt,
      maxExpiryNanos_toInt hnow (by omega), httl, Int64.toInt_zero]
    omega
  rw [leaseTTLDurationTrapping, if_neg hpositive, if_neg hseconds, hmul,
    trap_unixNano_now hnow hpos hfits, Option.bind_eq_bind, Option.bind_some, Option.bind_some,
    trap_maxExpiryNanos hnow hpos hfits, Option.bind_some, if_neg hroom]

theorem leaseExpiryAtTrapping_eq :
    leaseExpiryAtTrapping now (ttlSeconds * Time.second)
      = some (.ok (now + ttlSeconds.toInt * 10 ^ 9)) := by
  have httl := ttl_toInt hnow hpos hfits
  have hroom : ¬ (ttlSeconds * Time.second ≤ 0 ∨ Int64.maxValue - Time.unixNano now ≤ 0 ∨
      ttlSeconds * Time.second > Int64.maxValue - Time.unixNano now) := by
    rw [gt_iff_lt, Int64.le_iff_toInt_le, Int64.le_iff_toInt_le, Int64.lt_iff_toInt_lt,
      maxExpiryNanos_toInt hnow (by omega), httl, Int64.toInt_zero]
    omega
  rw [leaseExpiryAtTrapping, trap_unixNano_now hnow hpos hfits, Option.bind_eq_bind,
    Option.bind_some, trap_maxExpiryNanos hnow hpos hfits, Option.bind_some, if_neg hroom,
    Time.add, httl]

theorem createLeaseTrapping_eq (m : Machine) (ownerID : String) :
    createLeaseTrapping m.fsm ownerID ttlSeconds now
      = some (.ok (m.apply (newCreateLeaseCmd ownerID (ttlSeconds * Time.second) now),
          ttlSeconds)) := by
  have hexpiry : Trap.unixNano (now + ttlSeconds.toInt * 10 ^ 9)
      = some (Time.unixNano (now + ttlSeconds.toInt * 10 ^ 9)) :=
    Trap.exact_eq_some (expiry_toInt hnow hpos hfits)
  have hdiv : Trap.div (ttlSeconds * Time.second) Time.second = some ttlSeconds := by
    have hback := ttl_div_second hnow hpos hfits
    rw [Trap.div, hback]
    refine Trap.exact_eq_some ?_
    rw [ttl_toInt hnow hpos hfits, second_toInt, Int.mul_tdiv_cancel _ (by decide)]
  have happ : m.fsm.applyCreateLeaseTrapping
      (newCreateLeaseCmd ownerID (ttlSeconds * Time.second) now).getCreateLease
        = some (m.apply (newCreateLeaseCmd ownerID (ttlSeconds * Time.second) now)) := by
    rw [apply_createLease hnow hpos hfits]
    exact m.fsm.applyCreateLeaseTrapping_eq (ttl_not_le_zero hnow hpos hfits)
      (commandTime_accepts hnow hpos hfits) (leaseExpiryAtTrapping_eq hnow hpos hfits) hexpiry
  have hcmd : newCreateLeaseCmdTrapping ownerID (ttlSeconds * Time.second) now
      = some (newCreateLeaseCmd ownerID (ttlSeconds * Time.second) now) := by
    rw [newCreateLeaseCmdTrapping, trap_unixNano_now hnow hpos hfits]
    rfl
  exact createLeaseTrapping_of (leaseTTLDurationTrapping_eq hnow hpos hfits) hcmd happ hdiv

end Accepted

/-- **The TTL checks agree end to end.** `leaseTTLDuration` accepts exactly the TTLs whose expiry
fits into 63 bits. For an accepted TTL no operation of the path wraps, every state machine accepts
the command and stores the exact expiry, and the client is told the seconds it asked for. -/
theorem ttl_checks_agree (ttlSeconds : Int64) (now : Int) (hnow : 1 ≤ now)
    (hmax : now ≤ 2 ^ 63 - 1) :
    ((∃ ttl, leaseTTLDuration ttlSeconds now = .ok ttl) ↔
      0 < ttlSeconds.toInt ∧ now + ttlSeconds.toInt * 10 ^ 9 ≤ 2 ^ 63 - 1) ∧
    ∀ ttl, leaseTTLDuration ttlSeconds now = .ok ttl → ∀ (m : Machine) (ownerID : String),
      createLeaseTrapping m.fsm ownerID ttlSeconds now
        = some (.ok (m.apply (newCreateLeaseCmd ownerID ttl now), ttl / Time.second)) ∧
      ∃ resp lease, m.result (newCreateLeaseCmd ownerID ttl now) = .ok (.createLease resp) ∧
        resp.expiresAt = now + ttlSeconds.toInt * 10 ^ 9 ∧
        (m.next (newCreateLeaseCmd ownerID ttl now)).getLease resp.leaseID = some lease ∧
        lease.expiresAtUnixNano.toInt = now + ttlSeconds.toInt * 10 ^ 9 ∧
        lease.ttl = ttl ∧ resp.ttl / Time.second = ttlSeconds ∧
        (ownerID ≠ "" →
          Server.createLease true now m ownerID ttlSeconds = .ok ⟨resp.leaseID, ttlSeconds⟩) := by
  constructor
  · constructor
    · rintro ⟨ttl, httl⟩
      obtain ⟨hpos, hfits, -⟩ := (leaseTTLDuration_eq_ok hnow hmax).mp httl
      exact ⟨hpos, hfits⟩
    · rintro ⟨hpos, hfits⟩
      exact ⟨_, (leaseTTLDuration_eq_ok hnow hmax).mpr ⟨hpos, hfits, rfl⟩⟩
  · intro ttl httl m ownerID
    obtain ⟨hpos, hfits, rfl⟩ := (leaseTTLDuration_eq_ok hnow hmax).mp httl
    have happ := apply_createLease hnow hpos hfits m ownerID
    have hback := ttl_div_second hnow hpos hfits
    have hresult : m.result (newCreateLeaseCmd ownerID (ttlSeconds * Time.second) now)
        = .ok (.createLease ⟨m.fsm.nextLeaseID, now + ttlSeconds.toInt * 10 ^ 9,
          ttlSeconds * Time.second⟩) := by
      rw [result, happ]
      rfl
    refine ⟨?_, _, ⟨m.fsm.nextLeaseID, ownerID, Time.unixNano (now + ttlSeconds.toInt * 10 ^ 9),
      ttlSeconds * Time.second⟩, hresult, rfl, ?_, expiry_toInt hnow hpos hfits, rfl, hback, ?_⟩
    · rw [createLeaseTrapping_eq hnow hpos hfits, hback]
    · rw [next_getLease, happ]
      exact getLease_withNewLease ..
    · intro howner
      have hreply := Server.createLease_eq_ok howner httl hresult
      rw [hback] at hreply
      exact hreply

/-- The longest TTL at the first nanosecond, and one second more. -/
theorem ttl_checks_agree_longest :
    (∃ ttl, leaseTTLDuration 9223372036 1 = .ok ttl) ∧
      ¬ ∃ ttl, leaseTTLDuration 9223372037 1 = .ok ttl := by
  have hlast : (9223372036 : Int64).toInt = 9223372036 := by decide
  have hnext : (9223372037 : Int64).toInt = 9223372037 := by decide
  refine ⟨(ttl_checks_agree 9223372036 1 (by omega) (by omega)).1.mpr ?_, ?_⟩
  · rw [hlast]
    omega
  · intro h
    obtain ⟨-, hfits⟩ := (ttl_checks_agree 9223372037 1 (by omega) (by omega)).1.mp h
    rw [hnext] at hfits
    omega

end Clavis
