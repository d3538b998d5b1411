import Clavis.Lib.Unwinding
import Clavis.State.Fencing
import Clavis.State.Restore

/-!
# Clavis — locks do not interfere

All locks share one fencing counter, one lease table and the cascade of an expiry, and still the
commands on one lock name are no business of the users of another. `FSM.view L` is what the users
of lock `L` can see of a state: the leases, the ID the next lease will get and the lease that holds
`L`. Commands on `L`, and those on no lock, depend on the view only and answer alike up to tokens
and counts (`Machine.apply_view`); an acquire or release of another name leaves the view as it is
(`Machine.view_next_of_dropped`). Unwinding compares a log with what is left of it after deleting
the commands on other names.

Tokens come from the shared counter, so the two runs hand out different ones. As long as the counter
does not wrap, the tenures of the lock decide which tokens are equal and which increase
(`same_lock_tokens`), and tenures are part of the view, so the tokens of the two runs correspond. A
log that grants `2^64` times breaks this: a later tenure can get the token of an earlier one again,
in one of the runs only.
-/

namespace Clavis

open Lib Machine

/-! ## Deleting the commands on other names -/

/-- The command is not an acquire or a release of another lock. -/
def keeps (L : String) (c : CommandWrapper) : Bool :=
  match c.type with
  | .acquireLock => decide (c.getAcquireLock.lockName = L)
  | .releaseLock => decide (c.getReleaseLock.lockName = L)
  | _ => true

/-- The log without the acquires and releases of other locks. -/
def project (L : String) (log : List CommandWrapper) : List CommandWrapper := log.filter (keeps L)

/-- A result less its token and its count of released locks. -/
def Result.masked : Result → Result
  | .ok (.acquireLock resp) => .ok (.acquireLock ⟨0, resp.leaseTTL⟩)
  | .ok (.expireLease _) => .ok (.expireLease ⟨0⟩)
  | r => r

theorem Result.token_masked (r : Result) : r.masked.token = r.token.map fun _ => 0 := by
  rcases r with e | resp
  · rfl
  · cases resp <;> rfl

/-! ## What the users of one lock see -/

/-- The leases, the ID of the next one and the holder of one lock. -/
structure LockView where
  leases : UInt64 → Option Lease
  nextLeaseID : UInt64
  holder : Option UInt64

def FSM.view (L : String) (f : FSM) : LockView where
  leases id := (f.leases.lookup id).join
  nextLeaseID := f.nextLeaseID
  holder := (f.locks.lookup L).join.map Lock.leaseID

/-- What the users of a lock see of one `Apply`. -/
def Applied.view (L : String) (a : Applied) : LockView × Result := (a.fsm.view L, a.result.masked)

namespace LockView

/-- The expiry a `CreateLease` computes, or the error of its checks. -/
def expiry (cmd : CreateLeaseCommand) : Except DomainError Int :=
  if cmd.ttlNanos ≤ 0 then .error .invalidLeaseTTL
  else (FSM.commandTime cmd.createAtUnixNano).bind fun createdAt =>
    FSM.leaseExpiryAt createdAt cmd.ttlNanos

def createLease (v : LockView) (cmd : CreateLeaseCommand) : LockView × Result :=
  match expiry cmd with
  | .error e => (v, .error e)
  | .ok expiresAt =>
    ({ v with
        leases := fun id =>
          if id = v.nextLeaseID then
            some ⟨v.nextLeaseID, cmd.ownerId, Time.unixNano expiresAt, cmd.ttlNanos⟩
          else v.leases id
        nextLeaseID := v.nextLeaseID + 1 },
      .ok (.createLease ⟨v.nextLeaseID, expiresAt, cmd.ttlNanos⟩))

def acquireLock (v : LockView) (cmd : AcquireLockCommand) : LockView × Result :=
  match v.leases cmd.leaseId with
  | none => (v, .error .leaseNotFound)
  | some lease =>
    if lease.ownerID ≠ cmd.ownerId then (v, .error .notLockOwner)
    else match v.holder with
      | some l =>
        if l = cmd.leaseId then (v, .ok (.acquireLock ⟨0, lease.ttl⟩))
        else (v, .error .lockAlreadyHeld)
      | none => ({ v with holder := some cmd.leaseId }, .ok (.acquireLock ⟨0, lease.ttl⟩))

def releaseLock (v : LockView) (cmd : ReleaseLockCommand) : LockView × Result :=
  match v.holder with
  | none => (v, .error .lockNotFound)
  | some l =>
    if l ≠ cmd.leaseId then (v, .error .notLockOwner)
    else ({ v with holder := none }, .ok .none)

def expireLease (v : LockView) (cmd : ExpireLeaseCommand) : LockView × Result :=
  match v.leases cmd.leaseId with
  | none => (v, .ok (.expireLease ⟨0⟩))
  | some lease =>
    ({ v with
        leases := fun id => if id = lease.leaseID then none else v.leases id
        holder := v.holder.filter fun l => decide (l ≠ lease.leaseID) },
      .ok (.expireLease ⟨0⟩))

/-- What a command on the lock, or on no lock, does to the view and answers. -/
def apply (v : LockView) (c : CommandWrapper) : LockView × Result :=
  match c.type with
  | .createLease => v.createLease c.getCreateLease
  | .renewLease => (v, .ok .none)
  | .acquireLock => v.acquireLock c.getAcquireLock
  | .releaseLock => v.releaseLock c.getReleaseLock
  | .expireLease => v.expireLease c.getExpireLease
  | .upsertEndpoint =>
    if c.getUpsertEndpoint.nodeId = "" ∨ c.getUpsertEndpoint.grpcAddress = "" then
      (v, .error .invalidClusterNode)
    else (v, .ok .none)
  | .removeEndpoint =>
    if c.getRemoveEndpoint.nodeId = "" then (v, .error .invalidClusterNode) else (v, .ok .none)
  | t => (v, .error (.unknownCommand t.string))

end LockView

namespace Machine

theorem applyCreateLease_view (m : Machine) (L : String) (cmd : CreateLeaseCommand) :
    (m.fsm.applyCreateLease cmd).view L = (m.fsm.view L).createLease cmd := by
  unfold FSM.applyCreateLease LockView.createLease LockView.expiry
  dsimp only
  split
  · rfl
  · cases FSM.commandTime cmd.createAtUnixNano with
    | error e => rfl
    | ok createdAt =>
      simp only [Except.bind]
      cases FSM.leaseExpiryAt createdAt cmd.ttlNanos with
      | error e => rfl
      | ok expiresAt =>
        simp only [Applied.view, FSM.view, FSM.reply, join_lookup_insert, Result.masked]
        rfl

theorem applyAcquireLock_view (m : Machine) (cmd : AcquireLockCommand) :
    (m.fsm.applyAcquireLock cmd).map (Applied.view cmd.lockName)
      = some ((m.fsm.view cmd.lockName).acquireLock cmd) := by
  have hleases : (m.fsm.view cmd.lockName).leases cmd.leaseId = m.getLease cmd.leaseId := rfl
  have hholder : (m.fsm.view cmd.lockName).holder = m.holder cmd.lockName := rfl
  unfold FSM.applyAcquireLock LockView.acquireLock
  rw [hleases, hholder, holder]
  cases hlease : m.getLease cmd.leaseId with
  | none =>
    rw [getLease_eq_none.mp hlease]
    rfl
  | some lease =>
    rw [getLease_eq_some.mp hlease]
    simp only [Option.bind_eq_bind, Option.bind_some]
    split
    · rfl
    · cases hlock : m.getLock cmd.lockName with
      | none =>
        rw [getLock_eq_none.mp hlock]
        simp only [Option.map_none, Option.map_some, Applied.view, FSM.view, FSM.reply,
          join_lookup_insert, Result.masked, if_true]
      | some lock =>
        rw [getLock_eq_some.mp hlock]
        simp only [Option.bind_some, Option.map_some]
        split <;> rfl

theorem applyReleaseLock_view (m : Machine) (cmd : ReleaseLockCommand) :
    (m.fsm.applyReleaseLock cmd).map (Applied.view cmd.lockName)
      = some ((m.fsm.view cmd.lockName).releaseLock cmd) := by
  have hholder : (m.fsm.view cmd.lockName).holder = m.holder cmd.lockName := rfl
  unfold FSM.applyReleaseLock LockView.releaseLock
  rw [hholder, holder]
  cases hlock : m.getLock cmd.lockName with
  | none =>
    rw [getLock_eq_none.mp hlock]
    rfl
  | some lock =>
    rw [getLock_eq_some.mp hlock]
    simp only [Option.bind_eq_bind, Option.bind_some, Option.map_some]
    split
    · rfl
    · simp only [Option.map_some, Applied.view, FSM.view, join_lookup_erase, Result.masked,
        if_true, Option.map_none]

theorem applyExpireLease_view (m : Machine) (L : String) (cmd : ExpireLeaseCommand) :
    (m.fsm.applyExpireLease cmd).map (Applied.view L)
      = some ((m.fsm.view L).expireLease cmd) := by
  have hleases : (m.fsm.view L).leases cmd.leaseId = m.getLease cmd.leaseId := rfl
  unfold FSM.applyExpireLease LockView.expireLease
  rw [hleases]
  cases hlease : m.getLease cmd.leaseId with
  | none =>
    rw [getLease_eq_none.mp hlease]
    rfl
  | some lease =>
    rw [getLease_eq_some.mp hlease]
    obtain ⟨loop, hloop, hmap, -, -⟩ := rangeDelete_spec (m.boundTo_eq_some lease.leaseID)
    have hfilter : (loop.map.lookup L).join.map Lock.leaseID
        = ((m.fsm.locks.lookup L).join.map Lock.leaseID).filter
            fun l => decide (l ≠ lease.leaseID) := by
      rw [hmap, join_filter_isBoundTo, Option.filter_map]
      rfl
    simp only [Option.bind_eq_bind, Option.bind_some, hloop, Option.map_some, Applied.view,
      FSM.view, join_lookup_erase, Result.masked, hfilter]

/-- **The view determines what a kept command does**, to the view and in its reply. -/
theorem apply_view (m : Machine) {L : String} {c : CommandWrapper} (hkeep : keeps L c = true) :
    (m.apply c).view L = (m.fsm.view L).apply c := by
  have hsome : (m.fsm.apply c).map (Applied.view L) = some ((m.fsm.view L).apply c) := by
    unfold FSM.apply LockView.apply
    unfold keeps at hkeep
    cases htype : c.type with
    | createLease => exact congrArg some (m.applyCreateLease_view L _)
    | acquireLock =>
      simp only [htype, decide_eq_true_eq] at hkeep
      subst hkeep
      exact m.applyAcquireLock_view _
    | releaseLock =>
      simp only [htype, decide_eq_true_eq] at hkeep
      subst hkeep
      exact m.applyReleaseLock_view _
    | expireLease => exact m.applyExpireLease_view L _
    | upsertEndpoint =>
      simp only [FSM.applyUpsertEndpoint, Option.map_some]
      split <;> rfl
    | removeEndpoint =>
      simp only [FSM.applyRemoveEndpoint, Option.map_some]
      split <;> rfl
    | renewLease | unspecified | unrecognized => rfl
  rw [m.fsm_apply c, Option.map_some] at hsome
  exact Option.some.inj hsome

/-- An acquire or release of another lock cannot be seen. -/
theorem view_next_of_dropped (m : Machine) {L : String} {c : CommandWrapper}
    (hdrop : keeps L c = false) : (m.next c).fsm.view L = m.fsm.view L := by
  show (m.apply c).fsm.view L = m.fsm.view L
  unfold keeps at hdrop
  have h := m.outcome c
  generalize m.apply c = a at h
  cases h with
  | rejected | ignored | reacquired | upserted | removed => rfl
  | created htype => simp [htype] at hdrop
  | expired htype => simp [htype] at hdrop
  | granted htype lease hlease howner hfree =>
    simp only [htype, decide_eq_false_iff_not] at hdrop
    simp only [FSM.view, FSM.reply, withLock, join_lookup_insert, if_neg (Ne.symm hdrop)]
  | released htype lock hlock hheld =>
    simp only [htype, decide_eq_false_iff_not] at hdrop
    simp only [FSM.view, join_lookup_erase, if_neg (Ne.symm hdrop)]

/-- The state machine unwinds for the users of one lock. -/
theorem unwinding (L : String) :
    Unwinding next (fun m c => (m.result c).masked) (fun m => m.fsm.view L) (keeps L) where
  next_view {m m' c} hkeep hview := by
    show ((m.apply c).view L).1 = ((m'.apply c).view L).1
    rw [m.apply_view hkeep, m'.apply_view hkeep, hview]
  out_view {m m' c} hkeep hview := by
    show ((m.apply c).view L).2 = ((m'.apply c).view L).2
    rw [m.apply_view hkeep, m'.apply_view hkeep, hview]
  respects {m _} hdrop := m.view_next_of_dropped hdrop

end Machine

/-! ## The two runs -/

/-- The two runs agree on the holder of the lock and on the leases at every position. -/
def SameView (L : String) (log : List CommandWrapper) : Prop :=
  ∀ i, (stateAt (project L log) (position (keeps L) log i)).holder L = (stateAt log i).holder L ∧
    ∀ id, (stateAt (project L log) (position (keeps L) log i)).getLease id
      = (stateAt log i).getLease id

/-- Every remaining command is answered alike, tokens and counts of released locks aside. -/
def SameReplies (L : String) (log : List CommandWrapper) : Prop :=
  ∀ i c, log[i]? = some c → keeps L c = true →
    (project L log)[position (keeps L) log i]? = some c ∧
      ((stateAt (project L log) (position (keeps L) log i)).result c).masked
        = ((stateAt log i).result c).masked

/-- The tokens of the lock in the two runs correspond by a strictly increasing map. -/
def TokensCorrespond (L : String) (log : List CommandWrapper) : Prop :=
  ∃ f : UInt64 → UInt64, IncreasingOn f {t | ∃ i l, AcquiredAt log i L l t} ∧
    ∀ i c, log[i]? = some c → keeps L c = true →
      ((stateAt (project L log) (position (keeps L) log i)).result c).token
        = ((stateAt log i).result c).token.map f

/-- The users of a lock cannot tell the log from the one without the other locks' commands. -/
def Isolated (L : String) (log : List CommandWrapper) : Prop :=
  SameView L log ∧ SameReplies L log ∧ TokensCorrespond L log

theorem view_stateAt_project (L : String) (log : List CommandWrapper) (i : Nat) :
    (stateAt (project L log) (position (keeps L) log i)).fsm.view L
      = (stateAt log i).fsm.view L := by
  rw [stateAt, project, take_position]
  exact (unwinding L).view_filter rfl (log.take i)

theorem sameView (L : String) (log : List CommandWrapper) : SameView L log := by
  intro i
  have hview := view_stateAt_project L log i
  exact ⟨congrArg LockView.holder hview, fun id => congrFun (congrArg LockView.leases hview) id⟩

theorem sameReplies (L : String) (log : List CommandWrapper) : SameReplies L log :=
  fun i _ hc hkeep => ⟨getElem?_position hc hkeep,
    (unwinding L).out_view hkeep (view_stateAt_project L log i)⟩

/-! ## Tokens -/

/-- Only an acquire is answered with a token. -/
theorem Machine.type_of_token {m : Machine} {c : CommandWrapper} {t : UInt64}
    (ht : (m.result c).token = some t) : c.type = .acquireLock := by
  rw [result] at ht
  have hout := m.outcome c
  generalize m.apply c = a at hout ht
  cases hout with
  | reacquired htype | granted htype => exact htype
  | ignored r hcmd => rcases hcmd with ⟨-, rfl⟩ | ⟨-, -, rfl⟩ <;> cases ht
  | rejected | created | released | expired | upserted | removed => cases ht

/-- A kept command is a fresh grant for one machine if it is for another with the same view. -/
theorem Machine.grants_of_view {m m' : Machine} {L : String} {c : CommandWrapper}
    (hkeep : keeps L c = true) (hview : m'.fsm.view L = m.fsm.view L) (hgr : m'.Grants c) :
    m.Grants c := by
  obtain ⟨htype, hfree, hsome⟩ := hgr
  have hL : c.getAcquireLock.lockName = L := by simpa [keeps, htype] using hkeep
  refine ⟨htype, ?_, ?_⟩
  · have hholder : m'.holder L = m.holder L := congrArg LockView.holder hview
    rw [hL] at hfree ⊢
    rw [holder, hfree, Option.map_none, holder] at hholder
    exact Option.map_eq_none_iff.mp hholder.symm
  · have hout : (m'.result c).masked = (m.result c).masked := (unwinding L).out_view hkeep hview
    have htok := congrArg Result.token hout
    rw [Result.token_masked, Result.token_masked] at htok
    rw [← Option.isSome_map (f := fun _ : UInt64 => (0 : UInt64)), ← htok, Option.isSome_map]
    exact hsome

/-- The projected run grants no more often than the full one. -/
theorem grantCount_project_le {m m' : Machine} {L : String}
    (hview : m'.fsm.view L = m.fsm.view L) (log : List CommandWrapper) :
    m'.grantCount (project L log) ≤ m.grantCount log := by
  induction log generalizing m m' with
  | nil => exact le_rfl
  | cons c log ih =>
    cases hkeep : keeps L c with
    | true =>
      have hle := ih ((unwinding L).next_view hkeep hview)
      rw [project, List.filter_cons_of_pos hkeep, grantCount, grantCount]
      have hone : (if m'.Grants c then 1 else 0) ≤ if m.Grants c then 1 else 0 := by
        by_cases hgr : m'.Grants c
        · rw [if_pos hgr, if_pos (grants_of_view hkeep hview hgr)]
        · rw [if_neg hgr]
          exact Nat.zero_le _
      exact Nat.add_le_add hone hle
    | false =>
      have hle := ih (hview.trans (m.view_next_of_dropped hkeep).symm)
      rw [project, List.filter_cons_of_neg (by simp [hkeep]), grantCount]
      exact hle.trans (Nat.le_add_left _ _)

section Tokens

variable {L : String} {log : List CommandWrapper} {i j : Nat} {l l' t t' s s' : UInt64}

theorem AcquiredAt.keeps (h : AcquiredAt log i L l t) :
    ∃ c, log[i]? = some c ∧ keeps L c = true := by
  obtain ⟨c, hc, htype, hL, -, -⟩ := h
  exact ⟨c, hc, by simp [Clavis.keeps, htype, hL]⟩

/-- The projected run answers the same acquire, with some token. -/
theorem AcquiredAt.project (h : AcquiredAt log i L l t) :
    ∃ t', AcquiredAt (project L log) (position (Clavis.keeps L) log i) L l t' := by
  obtain ⟨c, hc, htype, hL, hl, htok⟩ := h
  have hkeep : Clavis.keeps L c = true := by simp [Clavis.keeps, htype, hL]
  obtain ⟨hc', hmasked⟩ := sameReplies L log i c hc hkeep
  have htok' := congrArg Result.token hmasked
  rw [Result.token_masked, Result.token_masked, htok, Option.map_some,
    Option.map_eq_some_iff] at htok'
  obtain ⟨t', ht', -⟩ := htok'
  exact ⟨t', c, hc', htype, hL, hl, ht'⟩

theorem AcquiredAt.unique (h : AcquiredAt log i L l t) (h' : AcquiredAt log i L l' t') :
    l = l' ∧ t = t' := by
  obtain ⟨c, hc, -, -, rfl, htok⟩ := h
  obtain ⟨c', hc', -, -, rfl, htok'⟩ := h'
  rw [hc] at hc'
  cases hc'
  rw [htok] at htok'
  cases htok'
  exact ⟨rfl, rfl⟩

/-- A tenure of the lock is one in both runs. -/
theorem heldThroughout_project (h : AcquiredAt log i L l t) (hij : i < j) :
    HeldThroughout (project L log) L l' (position (keeps L) log i) (position (keeps L) log j)
      ↔ HeldThroughout log L l' i j := by
  obtain ⟨c, hc, hkeep⟩ := h.keeps
  have hsucc : position (keeps L) log (i + 1) = position (keeps L) log i + 1 := by
    rw [position_succ hc, if_pos hkeep]
  constructor
  · intro hheld k hik hkj
    have hlt := position_mono (keeps L) log (show i + 1 ≤ k from hik)
    rw [← (sameView L log k).1]
    exact hheld _ (by omega) (position_mono (keeps L) log hkj)
  · intro hheld k hik hkj
    obtain ⟨k', hik', hkj', rfl⟩ := exists_position (Nat.le_of_lt hij) hik hkj
    rw [(sameView L log k').1]
    exact hheld k' hik' hkj'

/-- Along both runs tokens never decrease, and they are equal for the same pairs of replies. -/
theorem tokens_project (hgrants : new.grantCount log < 2 ^ 64) (hij : i < j)
    (h : AcquiredAt log i L l t) (h' : AcquiredAt log j L l' t')
    (hp : AcquiredAt (project L log) (position (keeps L) log i) L l s)
    (hp' : AcquiredAt (project L log) (position (keeps L) log j) L l' s') :
    t ≤ t' ∧ s ≤ s' ∧ (t = t' ↔ s = s') := by
  have hgrants' : new.grantCount (project L log) < 2 ^ 64 :=
    (grantCount_project_le rfl log).trans_lt hgrants
  obtain ⟨c, hc, hkeep⟩ := h.keeps
  have hpos : position (keeps L) log i < position (keeps L) log j := by
    have hmono := position_mono (keeps L) log (show i + 1 ≤ j from hij)
    rw [position_succ hc, if_pos hkeep] at hmono
    exact hmono
  obtain ⟨hle, hiff⟩ := same_lock_tokens hgrants hij h h'
  obtain ⟨hle', hiff'⟩ := same_lock_tokens hgrants' hpos hp hp'
  refine ⟨hle, hle', ?_⟩
  rw [hiff, hiff', heldThroughout_project h hij]

/-- Some reply carries token `t` in the full run and token `s` in the projected one. -/
def Corresponding (L : String) (log : List CommandWrapper) (t s : UInt64) : Prop :=
  ∃ i l, AcquiredAt log i L l t ∧
    AcquiredAt (project L log) (position (keeps L) log i) L l s

theorem Corresponding.order (hgrants : new.grantCount log < 2 ^ 64)
    (h : Corresponding L log t s) (h' : Corresponding L log t' s') :
    (t < t' → s < s') ∧ (t = t' → s = s') := by
  obtain ⟨i, l, hi, hpi⟩ := h
  obtain ⟨j, l', hj, hpj⟩ := h'
  rcases Nat.lt_trichotomy i j with hij | rfl | hji
  · obtain ⟨-, hle, hiff⟩ := tokens_project hgrants hij hi hj hpi hpj
    refine ⟨?_, hiff.mp⟩
    intro hlt
    exact UInt64.lt_of_le_of_ne hle fun heq => UInt64.ne_of_lt hlt (hiff.mpr heq)
  · obtain ⟨rfl, rfl⟩ := hi.unique hj
    obtain ⟨-, rfl⟩ := hpi.unique hpj
    exact ⟨fun hlt => absurd hlt (UInt64.lt_irrefl t), fun _ => rfl⟩
  · obtain ⟨hle, -, hiff⟩ := tokens_project hgrants hji hj hi hpj hpi
    refine ⟨?_, fun heq => (hiff.mp heq.symm).symm⟩
    intro hlt
    exact absurd hle (UInt64.not_le.mpr hlt)

theorem tokensCorrespond (hgrants : new.grantCount log < 2 ^ 64) : TokensCorrespond L log := by
  obtain ⟨f, hmono, hf⟩ :=
    exists_increasingOn fun _ _ _ _ h h' => Corresponding.order (L := L) hgrants h h'
  refine ⟨f, ?_, ?_⟩
  · rintro t ⟨i, l, h⟩ t' ⟨j, l', h'⟩ hlt
    obtain ⟨s, hs⟩ := h.project
    obtain ⟨s', hs'⟩ := h'.project
    exact hmono t ⟨s, i, l, h, hs⟩ t' ⟨s', j, l', h', hs'⟩ hlt
  · intro i c hc hkeep
    obtain ⟨hc', hmasked⟩ := sameReplies L log i c hc hkeep
    cases htok : ((stateAt log i).result c).token with
    | none =>
      have hnone := congrArg Result.token hmasked
      rw [Result.token_masked, Result.token_masked, htok] at hnone
      exact Option.map_eq_none_iff.mp hnone
    | some t =>
      have htype := type_of_token htok
      have hL : c.getAcquireLock.lockName = L := by simpa [keeps, htype] using hkeep
      have hat : AcquiredAt log i L _ t := ⟨c, hc, htype, hL, rfl, htok⟩
      obtain ⟨s, hs⟩ := hat.project
      rw [Option.map_some, hf t s ⟨i, _, hat, hs⟩]
      obtain ⟨c'', hc'', -, -, -, hs⟩ := hs
      rw [hc'] at hc''
      cases hc''
      exact hs

end Tokens

/-- **Lock isolation.** Deleting the acquires and releases of all other locks from a log changes
neither the holder of the lock nor the leases at any position, nor the reply to any remaining
command, tokens and counts of released locks aside; and the lock's tokens in the two runs correspond
by a strictly increasing map as long as the full log does not wrap the fencing counter. -/
theorem lock_isolation (L : String) (log : List CommandWrapper) :
    SameView L log ∧ SameReplies L log ∧
      (new.grantCount log < 2 ^ 64 → TokensCorrespond L log) :=
  ⟨sameView L log, sameReplies L log, fun hgrants => tokensCorrespond hgrants⟩

theorem lock_isolation_tenureLog :
    new.grantCount tenureLog < 2 ^ 64 ∧ SameReplies "alpha" tenureLog ∧
      TokensCorrespond "alpha" tenureLog :=
  have h := lock_isolation "alpha" tenureLog
  have hgrants : new.grantCount tenureLog < 2 ^ 64 := by decide
  ⟨hgrants, h.2.1, h.2.2 hgrants⟩

/-! ## A log that wraps the counter -/

/-- A lease takes `alpha` and holds it while it takes and releases `beta` over and over; then it
gives `alpha` up. -/
def roundsHead (n : Nat) : List CommandWrapper :=
  [createOne, newAcquireLockCmd "alpha" "client-1" 1] ++
    (FSM.toggles "beta" "client-1" 1 n ++ [newReleaseLockCmd "alpha" 1])

/-- It takes `alpha` once more. -/
def roundsLog (n : Nat) : List CommandWrapper :=
  roundsHead n ++ [newAcquireLockCmd "alpha" "client-1" 1]

theorem project_toggles {L L' : String} (hne : L' ≠ L) (ownerID : String) (l : UInt64) (n : Nat) :
    project L (FSM.toggles L' ownerID l n) = [] := by
  induction n with
  | zero => rfl
  | succ n ih =>
    rw [FSM.toggles, project, List.filter_cons_of_neg, List.filter_cons_of_neg]
    · exact ih
    · exact fun h => hne (of_decide_eq_true h)
    · exact fun h => hne (of_decide_eq_true h)

theorem project_roundsHead (n : Nat) : project "alpha" (roundsHead n)
    = [createOne, newAcquireLockCmd "alpha" "client-1" 1, newReleaseLockCmd "alpha" 1] := by
  have htoggles := project_toggles (show "beta" ≠ "alpha" by decide) "client-1" 1 n
  rw [project] at htoggles
  rw [project, roundsHead, List.filter_append, List.filter_append, htoggles]
  rfl

/-- The last acquire gets the token after those of all the rounds. -/
theorem token_roundsHead (n : Nat) : ((new.replay (roundsHead n)).result
    (newAcquireLockCmd "alpha" "client-1" 1)).token = some (1 + UInt64.ofNat n + 1) := by
  let f := newFSM.withOne
  let m := new.replay [createOne, newAcquireLockCmd "alpha" "client-1" 1]
  have hm : m.fsm = f.granting "alpha" "client-1" 1 := rfl
  have hlease : m.fsm.leases.lookup 1 = some (some ⟨1, "client-1", 2, 1⟩) := rfl
  have hbeta : m.fsm.locks.lookup "beta" = none := rfl
  have hrounds := (FSM.run_toggles hlease hbeta n).1
  have hrelease := FSM.next_release_granting (f := f) (L := "alpha") (l := 1) rfl "client-1"
    (UInt64.ofNat n)
  have hrun : run FSM.next newFSM (roundsHead n)
      = some ((f.advanced 1).advanced (UInt64.ofNat n)) := by
    rw [roundsHead, run_append, show newFSM = new.fsm from rfl, new.run_next, Option.bind_some,
      run_append, hrounds, Option.bind_some, hm, run, hrelease]
    rfl
  have hreplay : (new.replay (roundsHead n)).fsm = (f.advanced 1).advanced (UInt64.ofNat n) :=
    Option.some.inj ((new.run_next (roundsHead n)).symm.trans hrun)
  have happ := (new.replay (roundsHead n)).fsm_apply (newAcquireLockCmd "alpha" "client-1" 1)
  have hlease' : ((f.advanced 1).advanced (UInt64.ofNat n)).leases.lookup 1
      = some (some ⟨1, "client-1", 2, 1⟩) := rfl
  have halpha : ((f.advanced 1).advanced (UInt64.ofNat n)).locks.lookup "alpha" = none := rfl
  obtain ⟨a, ha, -, htok⟩ := FSM.apply_acquire_of_free hlease' halpha
  rw [hreplay, ha] at happ
  rw [result, ← Option.some.inj happ, htok]
  rfl

/-- The map would have to send the two tokens of `alpha` to 1 and 2. -/
theorem map_of_roundsLog {n : Nat} {f : UInt64 → UInt64}
    (hf : ∀ i c, (roundsLog n)[i]? = some c → keeps "alpha" c = true →
      ((stateAt (project "alpha" (roundsLog n)) (position (keeps "alpha") (roundsLog n) i)).result
        c).token = ((stateAt (roundsLog n) i).result c).token.map f) :
    f 1 = 1 ∧ f (1 + UInt64.ofNat n + 1) = 2 := by
  constructor
  · have h := hf 1 (newAcquireLockCmd "alpha" "client-1" 1) rfl rfl
    rw [stateAt, project, take_position] at h
    exact (Option.some.inj h).symm
  · have hget : (roundsLog n)[(roundsHead n).length]?
        = some (newAcquireLockCmd "alpha" "client-1" 1) := List.getElem?_concat_length
    have h := hf (roundsHead n).length _ hget rfl
    have hfull : stateAt (roundsLog n) (roundsHead n).length = new.replay (roundsHead n) := by
      rw [stateAt, roundsLog, List.take_left]
    have hprojected : stateAt (project "alpha" (roundsLog n))
        (position (keeps "alpha") (roundsLog n) (roundsHead n).length)
        = new.replay (project "alpha" (roundsHead n)) := by
      rw [stateAt, project, take_position, roundsLog, List.take_left]
      rfl
    rw [hfull, hprojected, project_roundsHead, token_roundsHead] at h
    exact (Option.some.inj h).symm

/-- After `2^64` grants a second tenure of `alpha` has the token of the first, which it does not
have once the commands on the other lock are deleted. -/
theorem not_isolated_roundsLog : ¬ Isolated "alpha" (roundsLog (2 ^ 64 - 1)) := by
  rintro ⟨-, -, f, -, hf⟩
  obtain ⟨hfirst, hsecond⟩ := map_of_roundsLog hf
  have hwrap : (1 : UInt64) + UInt64.ofNat (2 ^ 64 - 1) + 1 = 1 := by decide
  rw [hwrap, hfirst] at hsecond
  exact absurd hsecond (by decide)

end Clavis
