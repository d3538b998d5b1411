import Clavis.State.LeaseLife

/-!
# Clavis — one node's view of Raft

The Raft library is not part of the repository; this is what `Node` sees of it and relies on. A
node has a role, a current term, a log of entries and a number of entries it has applied, and its
state machine is the replay of the applied entries. What the library guarantees stands in the
guards of `Raft.step`:

* the current term never goes back, and an election brings a new one;
* entries that have been applied are never replaced, while a follower's other entries may be;
* terms never decrease along a log.

Two more facts about logs come from the rest of the code. An `ExpireLease` is only ever proposed by
a leader's expiry loop, for a lease it found in its state machine, so it names an ID that was
allocated earlier in the log (`LogOk.allocated`); and the allocator does not wrap (`LogOk.room`).
-/

namespace Clavis

/-- A log entry; barriers and the no-op of an election carry no command. -/
structure Entry where
  term : UInt64
  cmd : Option CommandWrapper
deriving DecidableEq

/-- The lease an entry expires. -/
def Entry.expires (e : Entry) : Option UInt64 := e.cmd.bind CommandWrapper.expires

/-- The commands of a log. -/
def commands (log : List Entry) : List CommandWrapper := log.filterMap Entry.cmd

/-- The state machine after a log. -/
def stateAfter (log : List Entry) : Machine := Machine.new.replay (commands log)

/-- What every log of a node in some term satisfies. -/
structure LogOk (log : List Entry) (term : UInt64) : Prop where
  sorted : log.Pairwise fun a b => a.term ≤ b.term
  bounded : ∀ e ∈ log, e.term ≤ term
  allocated : ∀ k < log.length, ∀ id ∈ log[k]?.bind Entry.expires,
    id < (stateAfter (log.take k)).fsm.nextLeaseID
  room : Machine.new.leaseCount (commands log) < 2 ^ 64 - 1

-- the IDs of an entry are listed, not searched for among all of `UInt64`
instance (log : List Entry) (term : UInt64) : Decidable (LogOk log term) :=
  have (k : Nat) : Decidable (∀ id ∈ log[k]?.bind Entry.expires,
      id < (stateAfter (log.take k)).fsm.nextLeaseID) := Option.decidableForallMem _
  decidable_of_iff
    ((log.Pairwise fun a b => a.term ≤ b.term) ∧ (∀ e ∈ log, e.term ≤ term) ∧
      (∀ k < log.length, ∀ id ∈ log[k]?.bind Entry.expires,
        id < (stateAfter (log.take k)).fsm.nextLeaseID) ∧
      Machine.new.leaseCount (commands log) < 2 ^ 64 - 1)
    ⟨fun h => ⟨h.1, h.2.1, h.2.2.1, h.2.2.2⟩,
      fun h => ⟨h.sorted, h.bounded, h.allocated, h.room⟩⟩

/-- A node's Raft instance. -/
structure Raft where
  leader : Bool
  currentTerm : UInt64
  log : List Entry
  applied : Nat

/-- What happens to a Raft instance from outside: it wins an election, steps down (in its term or
because of a higher one), takes over entries from a leader, or applies the next entry. -/
inductive Raft.Act where
  | elect (term : UInt64)
  | stepDown (term : UInt64)
  | follow (term : UInt64) (log : List Entry)
  | apply

namespace Raft

/-- A fresh instance. -/
def new : Raft := ⟨false, 0, [], 0⟩

/-- The state machine after the first `k` entries. -/
def fsmAt (r : Raft) (k : Nat) : Machine := stateAfter (r.log.take k)

/-- The node's state machine. -/
def fsm (r : Raft) : Machine := r.fsmAt r.applied

/-- A leader adds an entry of its term to its log. -/
def append (r : Raft) (cmd : Option CommandWrapper) : Raft :=
  { r with log := r.log ++ [⟨r.currentTerm, cmd⟩] }

def step (r : Raft) : Act → Option Raft
  | .elect term =>
    if r.leader = false ∧ r.currentTerm < term then
      some ({ r with leader := true, currentTerm := term }.append none)
    else none
  | .stepDown term =>
    if r.currentTerm ≤ term then some { r with leader := false, currentTerm := term } else none
  | .follow term log =>
    if r.leader = false ∧ r.currentTerm ≤ term ∧ log.take r.applied = r.log.take r.applied ∧
        r.applied ≤ log.length ∧ LogOk log term then
      some { r with currentTerm := term, log := log }
    else none
  | .apply => if r.applied < r.log.length then some { r with applied := r.applied + 1 } else none

/-- The instance is in order. -/
structure Ok (r : Raft) : Prop where
  log : LogOk r.log r.currentTerm
  applied_le : r.applied ≤ r.log.length

end Raft

/-! ## States along a log -/

/-- An entry of a longer log is an old one or the new one. -/
theorem getElem?_concat_cases {α : Type} {l : List α} {x y : α} {k : Nat}
    (h : (l ++ [x])[k]? = some y) : l[k]? = some y ∨ y = x := by
  rcases Nat.lt_trichotomy k l.length with hk | rfl | hk
  · rw [List.getElem?_append_left hk] at h
    exact Or.inl h
  · rw [List.getElem?_concat_length] at h
    exact Or.inr (Option.some.inj h).symm
  · rw [List.getElem?_eq_none (by rw [List.length_append, List.length_singleton]; omega)] at h
    cases h

theorem commands_append (log log' : List Entry) :
    commands (log ++ log') = commands log ++ commands log' := List.filterMap_append

theorem stateAfter_append (log log' : List Entry) :
    stateAfter (log ++ log') = (stateAfter log).replay (commands log') := by
  rw [stateAfter, commands_append, Machine.replay_append]
  rfl

/-- The state after one more entry. -/
theorem stateAfter_concat (log : List Entry) (e : Entry) :
    stateAfter (log ++ [e]) = match e.cmd with
      | some c => (stateAfter log).next c
      | none => stateAfter log := by
  rw [stateAfter_append]
  obtain ⟨term, cmd⟩ := e
  cases cmd with
  | none => rfl
  | some c => rfl

/-- The allocator does not wrap on the way from a part of the log to the whole. -/
theorem room_suffix {pre suf : List Entry}
    (hroom : Machine.new.leaseCount (commands (pre ++ suf)) < 2 ^ 64 - 1) :
    (stateAfter pre).fsm.nextLeaseID.toNat + (stateAfter pre).leaseCount (commands suf)
      < 2 ^ 64 := by
  rw [commands_append, Machine.leaseCount_append] at hroom
  have hstart : Machine.new.fsm.nextLeaseID.toNat = 1 := rfl
  have halloc := Machine.nextLeaseID_replay Machine.new (commands pre) (by omega)
  rw [stateAfter, halloc]
  omega

theorem room_take {log : List Entry} (hroom : Machine.new.leaseCount (commands log) < 2 ^ 64 - 1)
    (k : Nat) : Machine.new.leaseCount (commands (log.take k)) < 2 ^ 64 - 1 := by
  rw [← List.take_append_drop k log, commands_append, Machine.leaseCount_append] at hroom
  omega

theorem numbered_stateAfter {log : List Entry}
    (hroom : Machine.new.leaseCount (commands log) < 2 ^ 64 - 1) : (stateAfter log).Numbered := by
  have hstart : Machine.new.fsm.nextLeaseID.toNat = 1 := rfl
  exact Machine.numbered_new.replay (by decide) _ (by omega)

section Records

variable {log : List Entry} {term id : UInt64} {j k : Nat}

/-- A part of a log within a longer one. -/
theorem take_eq_append (hjk : j ≤ k) : log.take k = log.take j ++ (log.take k).drop j := by
  conv_lhs => rw [← List.take_append_drop j (log.take k), List.take_take, Nat.min_eq_left hjk]

/-- The IDs allocated in a part of a log are allocated in the whole. -/
theorem allocated_append {pre suf : List Entry}
    (hroom : Machine.new.leaseCount (commands (pre ++ suf)) < 2 ^ 64 - 1)
    (hid : id < (stateAfter pre).fsm.nextLeaseID) :
    id < (stateAfter (pre ++ suf)).fsm.nextLeaseID := by
  rw [UInt64.lt_iff_toNat_lt] at hid ⊢
  rw [stateAfter_append, Machine.nextLeaseID_replay _ _ (room_suffix hroom)]
  omega

theorem allocated_take (hroom : Machine.new.leaseCount (commands log) < 2 ^ 64 - 1) (hjk : j ≤ k)
    (hid : id < (stateAfter (log.take j)).fsm.nextLeaseID) :
    id < (stateAfter (log.take k)).fsm.nextLeaseID := by
  have hroom' := room_take hroom k
  rw [take_eq_append hjk] at hroom' ⊢
  exact allocated_append hroom' hid

/-- The ID of a record that some part of a log makes is allocated in the whole. -/
theorem allocated_of_getLease (hroom : Machine.new.leaseCount (commands log) < 2 ^ 64 - 1)
    {lease : Lease} (hlease : (stateAfter (log.take k)).getLease id = some lease) :
    id < (stateAfter log).fsm.nextLeaseID := by
  have halloc := ((numbered_stateAfter (room_take hroom k)).lease_range id lease hlease).2
  rw [← List.take_append_drop k log] at hroom ⊢
  exact allocated_append hroom halloc

/-- From one position of a log to a later one, the record of an allocated ID stays or is gone. -/
theorem getLease_take_of_le (hroom : Machine.new.leaseCount (commands log) < 2 ^ 64 - 1)
    (hjk : j ≤ k) (hid : id < (stateAfter (log.take j)).fsm.nextLeaseID) :
    (stateAfter (log.take k)).getLease id = (stateAfter (log.take j)).getLease id ∨
      (stateAfter (log.take k)).getLease id = none := by
  have hroom' := room_take hroom k
  rw [take_eq_append hjk] at hroom' ⊢
  rw [stateAfter_append]
  exact Machine.getLease_replay_of_allocated hid _ (room_suffix hroom')

/-- **An ID names one record**, at whatever moments it is looked up. -/
theorem record_unique (hroom : Machine.new.leaseCount (commands log) < 2 ^ 64 - 1) {a b : Lease}
    (ha : (stateAfter (log.take j)).getLease id = some a)
    (hb : (stateAfter (log.take k)).getLease id = some b) : a = b := by
  have hsame : ∀ {i i' : Nat} {x y : Lease}, i ≤ i' →
      (stateAfter (log.take i)).getLease id = some x →
      (stateAfter (log.take i')).getLease id = some y → x = y := by
    intro i i' x y hle hx hy
    have halloc := ((numbered_stateAfter (room_take hroom i)).lease_range id x hx).2
    rcases getLease_take_of_le hroom hle halloc with h | h
    · rw [hx, hy] at h
      exact (Option.some.inj h).symm
    · rw [hy] at h
      cases h
  rcases Nat.le_total j k with hle | hle
  · exact hsame hle ha hb
  · exact (hsame hle hb ha).symm

/-- **A lease that is present has not been expired**: no entry before that point expires it. -/
theorem not_expires_of_getLease (hlog : LogOk log term) {lease : Lease}
    (hlease : (stateAfter (log.take k)).getLease id = some lease) {e : Entry} (hjk : j < k)
    (he : log[j]? = some e) : e.expires ≠ some id := by
  intro hexp
  have halloc := hlog.allocated j (List.getElem?_eq_some_iff.mp he).1 id
    (by rw [he]; exact hexp)
  have hroom := hlog.room
  obtain ⟨c, hc, hcexp⟩ := Option.bind_eq_some_iff.mp hexp
  -- right after the entry the lease is gone, and its ID is still allocated
  have hstep : stateAfter (log.take (j + 1)) = (stateAfter (log.take j)).next c := by
    rw [List.take_add_one, he, Option.toList_some, stateAfter_concat, hc]
  have hgone : (stateAfter (log.take (j + 1))).getLease id = none := by
    rw [hstep]
    exact Machine.getLease_next_of_expires (numbered_stateAfter (room_take hroom j)).lease_id hcexp
  have halloc' : id < (stateAfter (log.take (j + 1))).fsm.nextLeaseID := by
    rw [hstep]
    refine Machine.allocated_next halloc fun hcr => ?_
    have htype := (CommandWrapper.expires_eq_some.mp hcexp).1
    rw [Machine.type_of_creates hcr] at htype
    cases htype
  rcases getLease_take_of_le hroom (show j + 1 ≤ k from hjk) halloc' with h | h
  · rw [hgone, hlease] at h
    cases h
  · rw [hlease] at h
    cases h

/-- A lease that is not expired in between is still there. -/
theorem getLease_take_of_not_expires (hlog : LogOk log term) {lease : Lease} (hjk : j ≤ k)
    (hlease : (stateAfter (log.take j)).getLease id = some lease)
    (hkeep : ∀ i e, j ≤ i → i < k → log[i]? = some e → e.expires ≠ some id) :
    (stateAfter (log.take k)).getLease id = some lease := by
  induction k, hjk using Nat.le_induction with
  | base => exact hlease
  | succ k hjk ih =>
    have hk := ih fun i e hji hik => hkeep i e hji (by omega)
    rw [List.take_add_one]
    cases he : log[k]? with
    | none => simpa using hk
    | some e =>
      rw [Option.toList_some, stateAfter_concat]
      have hne := hkeep k e hjk (by omega) he
      cases hc : e.cmd with
      | none => exact hk
      | some c =>
        rw [Entry.expires, hc] at hne
        exact Machine.getLease_next_eq_some (numbered_stateAfter (room_take hlog.room k)) hk hne

/-- Adding an entry of the current or a higher term. -/
theorem LogOk.concat (hlog : LogOk log term) {e : Entry}
    (hterm : term ≤ e.term)
    (hexp : ∀ id, e.expires = some id → id < (stateAfter log).fsm.nextLeaseID)
    (hroom : Machine.new.leaseCount (commands (log ++ [e])) < 2 ^ 64 - 1) :
    LogOk (log ++ [e]) e.term where
  sorted := by
    rw [List.pairwise_append]
    refine ⟨hlog.sorted, List.pairwise_singleton _ _, ?_⟩
    intro x hx y hy
    rw [List.mem_singleton.mp hy]
    exact UInt64.le_trans (hlog.bounded x hx) hterm
  bounded := by
    intro x hx
    rcases List.mem_append.mp hx with hx | hx
    · exact UInt64.le_trans (hlog.bounded x hx) hterm
    · rw [List.mem_singleton.mp hx]
      exact UInt64.le_refl _
  allocated := by
    intro k hk id hid
    rw [List.length_append, List.length_singleton] at hk
    by_cases hlast : k < log.length
    · rw [List.getElem?_append_left hlast] at hid
      rw [List.take_append_of_le_length (by omega)]
      exact hlog.allocated k hlast id hid
    · obtain rfl : k = log.length := by omega
      rw [List.getElem?_concat_length] at hid
      rw [List.take_left]
      exact hexp id hid
  room := hroom

/-- The log a command is added to keeps its room, unless the command creates a lease. -/
theorem room_concat (hroom : Machine.new.leaseCount (commands log) < 2 ^ 64 - 1)
    {e : Entry} (hcmd : ∀ c, e.cmd = some c → c.type ≠ .createLease) :
    Machine.new.leaseCount (commands (log ++ [e])) < 2 ^ 64 - 1 := by
  obtain ⟨term, cmd⟩ := e
  rw [commands_append, Machine.leaseCount_append]
  cases cmd with
  | none => exact hroom
  | some c =>
    have hnot : ¬ (stateAfter log).Creates c := fun hcr =>
      hcmd c rfl (Machine.type_of_creates hcr)
    have hone : (stateAfter log).leaseCount (commands [⟨term, some c⟩]) = 0 := by
      show (stateAfter log).leaseCount [c] = 0
      rw [Machine.leaseCount, if_neg hnot]
      rfl
    rw [stateAfter] at hone
    omega

end Records

/-! ## What every move of Raft keeps -/

namespace Raft

/-- A later stage of an instance: the term has not gone back, and applied entries are as they
were. -/
structure Extends (r r' : Raft) : Prop where
  term_le : r.currentTerm ≤ r'.currentTerm
  applied_le : r.applied ≤ r'.applied
  take_eq : r'.log.take r.applied = r.log.take r.applied

/-- A lease record that the state machine has held at some time. -/
def Seen (r : Raft) (lease : Lease) : Prop :=
  ∃ k ≤ r.applied, (r.fsmAt k).getLease lease.leaseID = some lease

/-- The first `n` entries hold everything from before a term, because one of them is of the
term. -/
def CaughtUp (r : Raft) (n : Nat) (term : UInt64) : Prop :=
  term = 0 ∨ ∃ k e, k < n ∧ r.log[k]? = some e ∧ e.term = term

section Keeps

variable {r r' : Raft} {a : Act}

theorem Extends.refl (r : Raft) : Extends r r := ⟨UInt64.le_refl _, Nat.le_refl _, rfl⟩

theorem Extends.take {k : Nat} (h : Extends r r') (hk : k ≤ r.applied) :
    r'.log.take k = r.log.take k := by
  rw [← Nat.min_eq_left hk, ← List.take_take, h.take_eq, List.take_take]

theorem Extends.getElem? {k : Nat} (h : Extends r r') (hk : k < r.applied) :
    r'.log[k]? = r.log[k]? := by
  have htake := congrArg (fun l => l[k]?) h.take_eq
  simpa [List.getElem?_take, hk] using htake

theorem Seen.extends {lease : Lease} (hseen : r.Seen lease) (h : Extends r r') :
    r'.Seen lease := by
  obtain ⟨k, hk, hlease⟩ := hseen
  have hle := h.applied_le
  refine ⟨k, by omega, ?_⟩
  rw [fsmAt, h.take hk]
  exact hlease

theorem CaughtUp.extends {n : Nat} {term : UInt64} (hc : r.CaughtUp n term) (h : Extends r r')
    (hn : n ≤ r.applied) : r'.CaughtUp n term := by
  rcases hc with h0 | ⟨k, e, hk, he, hterm⟩
  · exact Or.inl h0
  · exact Or.inr ⟨k, e, hk, by rw [h.getElem? (by omega), he], hterm⟩

/-- The entries after those are of the term or of a later one. -/
theorem CaughtUp.le_term {n : Nat} {term : UInt64} (hc : r.CaughtUp n term) (hok : r.Ok) {k : Nat}
    {e : Entry} (he : r.log[k]? = some e) (hk : n ≤ k) : term ≤ e.term := by
  rcases hc with rfl | ⟨j, e', hj, he', rfl⟩
  · exact UInt64.zero_le
  · obtain ⟨hj', rfl⟩ := List.getElem?_eq_some_iff.mp he'
    obtain ⟨hk', rfl⟩ := List.getElem?_eq_some_iff.mp he
    exact List.pairwise_iff_getElem.mp hok.log.sorted j k hj' hk' (by omega)

theorem seen_of_getLease (hok : r.Ok) {id : UInt64} {lease : Lease}
    (hlease : r.fsm.getLease id = some lease) : r.Seen lease ∧ lease.leaseID = id := by
  have hid := (numbered_stateAfter (room_take hok.log.room r.applied)).lease_id id lease hlease
  exact ⟨⟨r.applied, Nat.le_refl _, hid ▸ hlease⟩, hid⟩

/-- A node never sees two records under one ID. -/
theorem Seen.unique (hok : r.Ok) {x y : Lease} (hx : r.Seen x) (hy : r.Seen y)
    (hid : x.leaseID = y.leaseID) : x = y := by
  obtain ⟨j, -, hx⟩ := hx
  obtain ⟨k, -, hy⟩ := hy
  rw [← hid] at hy
  exact record_unique hok.log.room hx hy

/-- The ID of a record that was seen is allocated in the whole log. -/
theorem Seen.allocated (hok : r.Ok) {lease : Lease} (hseen : r.Seen lease) :
    lease.leaseID < (stateAfter r.log).fsm.nextLeaseID := by
  obtain ⟨k, -, hlease⟩ := hseen
  exact allocated_of_getLease hok.log.room hlease

theorem Ok.append (hok : r.Ok) {cmd : Option CommandWrapper}
    (hexp : ∀ id, (Entry.mk r.currentTerm cmd).expires = some id →
      id < (stateAfter r.log).fsm.nextLeaseID)
    (hroom : Machine.new.leaseCount (commands (r.append cmd).log) < 2 ^ 64 - 1) :
    (r.append cmd).Ok where
  log := LogOk.concat (e := ⟨r.currentTerm, cmd⟩) hok.log (UInt64.le_refl _) hexp hroom
  applied_le := by
    have hle := hok.applied_le
    show r.applied ≤ (r.log ++ [_]).length
    rw [List.length_append]
    omega

theorem Ok.append_none (hok : r.Ok) : (r.append none).Ok :=
  hok.append (fun _ h => by cases h) (room_concat hok.log.room fun _ h => by cases h)

theorem Ok.extends_append (hok : r.Ok) (cmd : Option CommandWrapper) : Extends r (r.append cmd) :=
  ⟨UInt64.le_refl _, Nat.le_refl _, List.take_append_of_le_length hok.applied_le⟩

theorem ok_new : new.Ok := ⟨by decide, by decide⟩

/-- **Every move of Raft keeps an instance in order and extends it.** -/
theorem Ok.step (hok : r.Ok) (h : r.step a = some r') : r'.Ok ∧ Extends r r' := by
  have happlied := hok.applied_le
  cases a with
  | elect term =>
    simp only [Raft.step] at h
    split at h <;> cases h
    rename_i hguard
    have hlt := UInt64.le_of_lt hguard.2
    -- an instance in order stays so when only its term goes up
    have hup : Ok { r with leader := true, currentTerm := term } :=
      ⟨⟨hok.log.sorted, fun e he => UInt64.le_trans (hok.log.bounded e he) hlt,
        hok.log.allocated, hok.log.room⟩, happlied⟩
    exact ⟨hup.append_none, hlt, Nat.le_refl _, List.take_append_of_le_length happlied⟩
  | stepDown term =>
    simp only [Raft.step] at h
    split at h <;> cases h
    rename_i hle
    exact ⟨⟨⟨hok.log.sorted, fun e he => UInt64.le_trans (hok.log.bounded e he) hle,
      hok.log.allocated, hok.log.room⟩, happlied⟩, hle, Nat.le_refl _, rfl⟩
  | follow term log =>
    simp only [Raft.step] at h
    split at h <;> cases h
    rename_i hguard
    obtain ⟨-, hle, htake, hlen, hlog⟩ := hguard
    exact ⟨⟨hlog, hlen⟩, hle, Nat.le_refl _, htake⟩
  | apply =>
    simp only [Raft.step] at h
    split at h <;> cases h
    rename_i hlt
    exact ⟨⟨hok.log, hlt⟩, UInt64.le_refl _, Nat.le_succ _, rfl⟩

/-- A leader after a move of Raft was the leader of the same log before, or has just been
elected. -/
theorem leader_cases (h : r.step a = some r')
    (hleader : r'.leader = true) :
    (r.leader = true ∧ r'.log = r.log ∧ r'.currentTerm = r.currentTerm) ∨
      (r.currentTerm < r'.currentTerm ∧ r'.log = r.log ++ [⟨r'.currentTerm, none⟩]) := by
  cases a with
  | elect term =>
    simp only [Raft.step] at h
    split at h <;> cases h
    rename_i hguard
    exact Or.inr ⟨hguard.2, rfl⟩
  | stepDown term =>
    simp only [Raft.step] at h
    split at h <;> cases h
    cases hleader
  | follow term log =>
    simp only [Raft.step] at h
    split at h <;> cases h
    rename_i hguard
    exact absurd (hguard.1.symm.trans hleader) (by decide)
  | apply =>
    simp only [Raft.step] at h
    split at h <;> cases h
    exact Or.inl ⟨hleader, rfl, rfl⟩

end Keeps

end Raft

end Clavis
