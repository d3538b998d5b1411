import Clavis.Lib.Trace
import Clavis.State.Fencing

/-!
# Clavis — what a fencing token protects

The lock service cannot stop a client that stalls, loses its lock and wakes up in the middle of a
write. The resource behind the lock can, if it remembers the highest token it has accepted. Three
such resources are part of the repository: the account row of `examples/fencing.go`, the controller
table of `examples/failover.go` and the registers of the Jepsen test. This module composes them with
the state machine: any log, any number of clients, and writes that arrive at any time after the
acquire they belong to, any number of times.

* `Guard` — a resource that refuses tokens below the one it has stored; `AccountRow.guard`,
  `ControllerTable.guard` and `Register.guard` are those of the repository.
* `Downstream.step` — a command is committed, or a write reaches the resource of a lock, with the
  token that some successful acquire of the lock has been answered with.
* `writes_in_order` — accepted writes come in the order of the tenures they were made under.
* `one_write_per_tenure` — what the strict comparison of `accept-write!` adds.
-/

namespace Clavis

open Lib

/-! ## The resources -/

/-- A resource that a token guards: the resource after a write, and whether it took the write. -/
structure Guard (R V : Type) where
  initial : R
  /-- The token the resource compares with. -/
  stamp : R → UInt64
  write : R → UInt64 → V → R × Bool
  /-- A write is taken and stores its token, which is no lower; or it is refused. -/
  write_cases : ∀ r t v,
    ((write r t v).2 = true ∧ stamp r ≤ t ∧ stamp (write r t v).1 = t) ∨
      ((write r t v).2 = false ∧ stamp (write r t v).1 = stamp r)

section Guard

variable {R V : Type} (g : Guard R V) {r : R} {t : UInt64} {v : V}

theorem Guard.of_accepted (h : (g.write r t v).2 = true) :
    g.stamp r ≤ t ∧ g.stamp (g.write r t v).1 = t := by
  rcases g.write_cases r t v with ⟨-, haccepted⟩ | ⟨hrefused, -⟩
  · exact haccepted
  · rw [h] at hrefused
    cases hrefused

/-- The stamp of a resource never decreases, whether it takes a write or not. -/
theorem Guard.stamp_le_write : g.stamp r ≤ g.stamp (g.write r t v).1 := by
  rcases g.write_cases r t v with ⟨-, hle, hstamp⟩ | ⟨-, hstamp⟩
  · rw [hstamp]
    exact hle
  · rw [hstamp]
    exact UInt64.le_refl _

end Guard

/-- `accountRow`, less its mutex. -/
structure AccountRow where
  balance : Int
  token : UInt64
  writer : String
deriving DecidableEq

def AccountRow.write (r : AccountRow) (writer : String) (token : UInt64) (balance : Int) :
    AccountRow × Bool :=
  if ¬ token < r.token then (⟨balance, token, writer⟩, true) else (r, false)

/-- The row takes a token again: one holder may write several times. -/
def AccountRow.guard : Guard AccountRow (String × Int) where
  initial := ⟨0, 0, ""⟩
  stamp := AccountRow.token
  write r t v := r.write v.1 t v.2
  write_cases := by
    intro r t v
    unfold AccountRow.write
    split
    · rename_i h
      exact Or.inl ⟨rfl, UInt64.not_lt.mp h, rfl⟩
    · exact Or.inr ⟨rfl, rfl⟩

/-- `controllerTable`, less its mutex. -/
structure ControllerTable where
  token : UInt64
  writer : String
  writtenAt : Int
  accepted : List (String × UInt64)
  rejected : Nat
deriving DecidableEq

def ControllerTable.write (r : ControllerTable) (writer : String) (token : UInt64) (now : Int) :
    ControllerTable × Bool :=
  if ¬ token < r.token then
    (⟨token, writer, now, r.accepted ++ [(writer, token)], r.rejected⟩, true)
  else ({ r with rejected := r.rejected + 1 }, false)

/-- The table changes on a refused write too, but not its token. -/
def ControllerTable.guard : Guard ControllerTable (String × Int) where
  initial := ⟨0, "", 0, [], 0⟩
  stamp := ControllerTable.token
  write r t v := r.write v.1 t v.2
  write_cases := by
    intro r t v
    unfold ControllerTable.write
    split
    · rename_i h
      exact Or.inl ⟨rfl, UInt64.not_lt.mp h, rfl⟩
    · exact Or.inr ⟨rfl, rfl⟩

/-- An entry of `registers`. -/
structure Register where
  token : UInt64
  value : String
deriving DecidableEq

/-- `accept-write!` on the entry of one resource, which is absent at first. -/
def acceptWrite (r : Option Register) (token : UInt64) (value : String) : Option Register × Bool :=
  if (r.map Register.token).getD 0 < token then (some ⟨token, value⟩, true) else (r, false)

/-- A register takes a token once. -/
def Register.guard : Guard (Option Register) String where
  initial := none
  stamp r := (r.map Register.token).getD 0
  write := acceptWrite
  write_cases := by
    intro r t v
    unfold acceptWrite
    split
    · rename_i h
      exact Or.inl ⟨rfl, UInt64.le_of_lt h, rfl⟩
    · exact Or.inr ⟨rfl, rfl⟩

/-- The guard refuses the token it has stored. -/
def Guard.Strict {R V : Type} (g : Guard R V) : Prop :=
  ∀ r t v, (g.write r t v).2 = true → g.stamp r < t

theorem Register.strict_guard : Register.guard.Strict := by
  intro r t v h
  by_contra hlt
  have hrefused : acceptWrite r t v = (r, false) := if_neg hlt
  have htaken : (acceptWrite r t v).2 = true := h
  rw [hrefused] at htaken
  cases htaken

/-! ## The lock service and its resources -/

/-- A write that a resource has accepted: the lock, the position in the log of the acquire it was
made under, the lease and the token. -/
structure Accepted where
  lockName : String
  acquire : Nat
  leaseID : UInt64
  token : UInt64
deriving DecidableEq

/-- The log of the service, and for every lock the resource it protects. -/
structure Downstream (R : Type) where
  log : List CommandWrapper
  rows : String → R
  /-- The accepted writes, the latest first. -/
  accepted : List Accepted

inductive Downstream.Act (V : Type) where
  | commit (c : CommandWrapper)
  /-- A write with the token that the `i`-th command was answered with. -/
  | write (lockName : String) (i : Nat) (v : V)

namespace Downstream

variable {R V : Type} (g : Guard R V)

def init : Downstream R := ⟨[], fun _ => g.initial, []⟩

/-- The token a client has from the `i`-th command, if that is a successful acquire of the lock. -/
def tokenOf (log : List CommandWrapper) (i : Nat) (L : String) : Option (UInt64 × UInt64) :=
  log[i]?.bind fun c =>
    if c.type = .acquireLock ∧ c.getAcquireLock.lockName = L then
      ((stateAt log i).result c).token.map fun t => (c.getAcquireLock.leaseId, t)
    else none

theorem tokenOf_eq_some {log : List CommandWrapper} {i : Nat} {L : String} {l t : UInt64} :
    tokenOf log i L = some (l, t) ↔ AcquiredAt log i L l t := by
  constructor
  · intro h
    obtain ⟨c, hc, hguard⟩ := Option.bind_eq_some_iff.mp h
    obtain ⟨⟨htype, hname⟩, hmap⟩ := Option.ite_none_right_eq_some.mp hguard
    obtain ⟨t', ht, heq⟩ := Option.map_eq_some_iff.mp hmap
    cases heq
    exact ⟨c, hc, htype, hname, rfl, ht⟩
  · rintro ⟨c, hc, htype, hname, rfl, ht⟩
    refine Option.bind_eq_some_iff.mpr ⟨c, hc, ?_⟩
    rw [if_pos ⟨htype, hname⟩, ht]
    rfl

def step (s : Downstream R) : Act V → Option (Downstream R)
  | .commit c => some { s with log := s.log ++ [c] }
  | .write L i v =>
    match tokenOf s.log i L with
    | none => none
    | some (l, t) =>
      some { s with
        rows := Function.update s.rows L (g.write (s.rows L) t v).1
        accepted := if (g.write (s.rows L) t v).2 then ⟨L, i, l, t⟩ :: s.accepted
          else s.accepted }

inductive Moved (s : Downstream R) : Act V → Downstream R → Prop where
  | commit (c : CommandWrapper) : Moved s (.commit c) { s with log := s.log ++ [c] }
  | refused (L : String) (i : Nat) (v : V) (t : UInt64)
      (hwrite : (g.write (s.rows L) t v).2 = false) :
      Moved s (.write L i v) { s with
        rows := Function.update s.rows L (g.write (s.rows L) t v).1 }
  | accepted (L : String) (i : Nat) (v : V) (l t : UInt64)
      (hacq : AcquiredAt s.log i L l t) (hwrite : (g.write (s.rows L) t v).2 = true) :
      Moved s (.write L i v) { s with
        rows := Function.update s.rows L (g.write (s.rows L) t v).1
        accepted := ⟨L, i, l, t⟩ :: s.accepted }

section Step

variable {g : Guard R V} {s s' : Downstream R} {a : Act V}

theorem moved_of_step (h : s.step g a = some s') : Moved g s a s' := by
  cases a with
  | commit c =>
    cases h
    exact .commit c
  | write L i v =>
    simp only [step] at h
    split at h
    · cases h
    · rename_i l t htoken
      cases h
      cases hwrite : (g.write (s.rows L) t v).2 with
      | false => exact .refused L i v t hwrite
      | true => exact .accepted L i v l t (tokenOf_eq_some.mp htoken) hwrite

end Step

/-! ## The order of accepted writes -/

/-- Accepted writes carry tokens that were issued, the resource has seen them all, and on one lock
they are in the order of their tokens. -/
structure Inv (s : Downstream R) : Prop where
  issued : ∀ w ∈ s.accepted, AcquiredAt s.log w.acquire w.lockName w.leaseID w.token
  seen : ∀ w ∈ s.accepted, w.token ≤ g.stamp (s.rows w.lockName)
  sorted : s.accepted.Pairwise fun later earlier => later.lockName = earlier.lockName →
    earlier.token ≤ later.token

variable {g} {s s' : Downstream R} {a : Act V}

theorem inv_init : Inv g (init g) where
  issued := by
    intro w hw
    cases hw
  seen := by
    intro w hw
    cases hw
  sorted := List.Pairwise.nil

theorem stamp_le_update (rows : String → R) (L : String) (t : UInt64) (v : V) (L' : String) :
    g.stamp (rows L') ≤ g.stamp (Function.update rows L (g.write (rows L) t v).1 L') := by
  by_cases hL : L' = L
  · rw [hL, Function.update_self]
    exact g.stamp_le_write
  · rw [Function.update_of_ne hL]
    exact UInt64.le_refl _

theorem Inv.step (h : Inv g s) (hmoved : Moved g s a s') : Inv g s' := by
  cases hmoved with
  | commit c => exact { h with issued := fun w hw => (h.issued w hw).append [c] }
  | refused L i v t hwrite =>
    exact { h with seen := fun w hw =>
      UInt64.le_trans (h.seen w hw) (stamp_le_update s.rows L t v w.lockName) }
  | accepted L i v l t hacq hwrite =>
    refine ⟨?_, ?_, List.pairwise_cons.mpr ⟨?_, h.sorted⟩⟩
    · intro w hw
      rcases List.mem_cons.mp hw with rfl | hw
      · exact hacq
      · exact h.issued w hw
    · intro w hw
      show w.token ≤ g.stamp (Function.update s.rows L _ w.lockName)
      rcases List.mem_cons.mp hw with rfl | hw
      · rw [Function.update_self, (g.of_accepted hwrite).2]
        exact UInt64.le_refl _
      · exact UInt64.le_trans (h.seen w hw) (stamp_le_update s.rows L t v w.lockName)
    · intro w hw hL
      -- the resource has stored a token that is at least that of the earlier write
      have hseen := h.seen w hw
      rw [← show L = w.lockName from hL] at hseen
      exact UInt64.le_trans hseen (g.of_accepted hwrite).1

theorem inv_state {t : Trace (Downstream.step g)} (h0 : t.start = init g) (k : Nat) :
    Inv g (t.state k) :=
  t.invariant (h0 ▸ inv_init) (fun _ _ _ hstep h => h.step (moved_of_step hstep)) k

/-- Two acquires of one lock belong to one tenure: one lease made both and held the lock from the
first to the second. -/
def SameTenure (log : List CommandWrapper) (a b : Accepted) : Prop :=
  a.leaseID = b.leaseID ∧ HeldThroughout log a.lockName a.leaseID a.acquire b.acquire

/-- **Writes are accepted in the order of tenures.** Whatever the clients do and however late their
writes arrive, a resource that has accepted a write made under one acquire of its lock accepts one
made under an earlier acquire only if both belong to the same tenure. -/
theorem writes_in_order {t : Trace (Downstream.step g)} (h0 : t.start = init g) (k : Nat)
    (hgrants : Machine.new.grantCount (t.state k).log < 2 ^ 64) :
    (t.state k).accepted.Pairwise fun later earlier => later.lockName = earlier.lockName →
      later.acquire < earlier.acquire → SameTenure (t.state k).log later earlier := by
  have hinv := inv_state h0 k
  refine hinv.sorted.imp_of_mem ?_
  intro later earlier hlater hearlier hsorted hL hlt
  have hfirst := hinv.issued later hlater
  have hsecond := hinv.issued earlier hearlier
  rw [← hL] at hsecond
  -- tokens follow the log, so the two are equal
  obtain ⟨hle, hsame⟩ := same_lock_tokens hgrants hlt hfirst hsecond
  exact hsame.mp (UInt64.le_antisymm hle (hsorted hL))

/-! ## The strict comparison -/

/-- With a strict guard the tokens of accepted writes even increase. -/
def Increasing (s : Downstream R) : Prop :=
  s.accepted.Pairwise fun later earlier => later.lockName = earlier.lockName →
    earlier.token < later.token

theorem Increasing.step (h : Increasing s) (hinv : Inv g s) (hstrict : g.Strict)
    (hmoved : Moved g s a s') : Increasing s' := by
  cases hmoved with
  | commit | refused => exact h
  | accepted L i v l t hacq hwrite =>
    refine List.pairwise_cons.mpr ⟨?_, h⟩
    intro w hw hL
    have hseen := hinv.seen w hw
    rw [← show L = w.lockName from hL] at hseen
    exact UInt64.lt_of_le_of_lt hseen (hstrict _ _ _ hwrite)

theorem increasing_state {t : Trace (Downstream.step g)} (h0 : t.start = init g)
    (hstrict : g.Strict) (k : Nat) : Increasing (t.state k) := by
  refine t.invariant_from (Nat.zero_le k) ?_ ?_
  · rw [t.state_zero, h0]
    exact List.Pairwise.nil
  · intro i a s' _ _ _ hstep h
    exact h.step (inv_state h0 i) hstrict (moved_of_step hstep)

theorem acquiredAt_unique {log : List CommandWrapper} {i : Nat} {L : String} {l l' t t' : UInt64}
    (h : AcquiredAt log i L l t) (h' : AcquiredAt log i L l' t') : t = t' := by
  have heq := (tokenOf_eq_some.mpr h).symm.trans (tokenOf_eq_some.mpr h')
  exact congrArg Prod.snd (Option.some.inj heq)

/-- **At most one write per tenure.** A resource that refuses the token it has stored, as
`accept-write!` does, accepts each write under a strictly later tenure than those before. -/
theorem one_write_per_tenure {t : Trace (Downstream.step g)} (h0 : t.start = init g)
    (hstrict : g.Strict) (k : Nat) (hgrants : Machine.new.grantCount (t.state k).log < 2 ^ 64) :
    (t.state k).accepted.Pairwise fun later earlier => later.lockName = earlier.lockName →
      earlier.acquire < later.acquire ∧ ¬ SameTenure (t.state k).log earlier later := by
  have hinv := inv_state h0 k
  refine (increasing_state h0 hstrict k).imp_of_mem ?_
  intro later earlier hlater hearlier hincreasing hL
  have htokens := hincreasing hL
  have hlast := hinv.issued later hlater
  have hfirst := hinv.issued earlier hearlier
  rw [hL] at hlast
  have horder : earlier.acquire < later.acquire := by
    rcases Nat.lt_trichotomy earlier.acquire later.acquire with hlt | heq | hgt
    · exact hlt
    · rw [heq] at hfirst
      exact absurd (acquiredAt_unique hfirst hlast) (UInt64.ne_of_lt htokens)
    · exact absurd htokens (UInt64.not_lt.mpr (same_lock_tokens hgrants hgt hlast hfirst).1)
  refine ⟨horder, fun hsame => ?_⟩
  exact UInt64.ne_of_lt htokens ((same_lock_tokens hgrants horder hfirst hlast).2.mpr hsame)

/-- The commands of `examples/fencing.go`: a first worker acquires the lock and stalls until its
lease expires, and a second one acquires it. -/
def stalledLog : List CommandWrapper :=
  [newCreateLeaseCmd "worker-a" 10 5, newAcquireLockCmd "account-42" "worker-a" 1,
    newCreateLeaseCmd "worker-b" 10 5, newExpireLeaseCmd 1,
    newAcquireLockCmd "account-42" "worker-b" 2]

/-- The first worker writes before it stalls, and once more when the second one has written. -/
def stalled : Trace (Downstream.step AccountRow.guard) where
  start := init AccountRow.guard
  acts := (stalledLog.take 2).map .commit ++ [.write "account-42" 1 ("worker-a", 100)] ++
    (stalledLog.drop 2).map .commit ++
    [.write "account-42" 4 ("worker-b", 250), .write "account-42" 1 ("worker-a", 90),
      .write "account-42" 4 ("worker-b", 260)]
  enabled := by decide

/-- The late write is not among those accepted. -/
theorem writes_in_order_stalled :
    (stalled.state 9).accepted.map Accepted.token = [2, 2, 1] ∧
      (stalled.state 9).accepted.Pairwise fun later earlier =>
        later.lockName = earlier.lockName → later.acquire < earlier.acquire →
          SameTenure (stalled.state 9).log later earlier :=
  ⟨by decide, writes_in_order rfl 9 (by decide)⟩

/-- The same clients at a register: the second worker's second write is refused as well. -/
def stalledRegister : Trace (Downstream.step Register.guard) where
  start := init Register.guard
  acts := (stalledLog.take 2).map .commit ++ [.write "account-42" 1 "a"] ++
    (stalledLog.drop 2).map .commit ++
    [.write "account-42" 4 "b", .write "account-42" 1 "c", .write "account-42" 4 "d"]
  enabled := by decide

theorem one_write_per_tenure_stalledRegister :
    (stalledRegister.state 9).accepted.map Accepted.token = [2, 1] ∧
      (stalledRegister.state 9).accepted.Pairwise fun later earlier =>
        later.lockName = earlier.lockName → earlier.acquire < later.acquire ∧
          ¬ SameTenure (stalledRegister.state 9).log earlier later :=
  ⟨by decide, one_write_per_tenure rfl Register.strict_guard 9 (by decide)⟩

end Downstream

end Clavis
