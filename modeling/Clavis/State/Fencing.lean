import Clavis.State.Invariants

/-!
# Clavis — the fencing law

Fencing tokens along a whole log. A successful acquire is either a fresh grant, whose token is the
counter just advanced, or an idempotent re-acquisition, which repeats the token of the tenure it
falls in. So the tokens of replies are not monotone across lock names, but

* the tokens of fresh grants strictly increase;
* on one lock name the tokens of replies never decrease, and two of them are equal exactly within
  one uninterrupted tenure of one lease;
* two lock names never share a token.

Everything rests on one persistence fact, `getLock_of_old_token`: a lock whose token is not above
the counter of an earlier position was already held, by the same record, at that position.
-/

namespace Clavis

open Machine

/-! ## Positions of a log -/

/-- The state before the `i`-th command of a log. -/
def stateAt (log : List CommandWrapper) (i : Nat) : Machine := new.replay (log.take i)

theorem stateAt_succ {log : List CommandWrapper} {i : Nat} {c : CommandWrapper}
    (hc : log[i]? = some c) : stateAt log (i + 1) = (stateAt log i).next c := by
  rw [stateAt, List.take_add_one, hc, replay_append]
  rfl

theorem stateAt_succ_of_none {log : List CommandWrapper} {i : Nat} (hc : log[i]? = none) :
    stateAt log (i + 1) = stateAt log i := by
  rw [stateAt, List.take_add_one, hc, replay_append]
  rfl

theorem stateAt_append {log : List CommandWrapper} {i : Nat} (hi : i ≤ log.length)
    (suf : List CommandWrapper) : stateAt (log ++ suf) i = stateAt log i := by
  rw [stateAt, List.take_append_of_le_length hi, stateAt]

/-- The `i`-th command is an acquire of lock `L` by lease `l` that is answered with token `t`. -/
def AcquiredAt (log : List CommandWrapper) (i : Nat) (L : String) (l t : UInt64) : Prop :=
  ∃ c, log[i]? = some c ∧ c.type = .acquireLock ∧ c.getAcquireLock.lockName = L ∧
    c.getAcquireLock.leaseId = l ∧ ((stateAt log i).result c).token = some t

/-- Positions of a log keep their meaning when it grows. -/
theorem AcquiredAt.append {log : List CommandWrapper} {i : Nat} {L : String} {l t : UInt64}
    (h : AcquiredAt log i L l t) (suf : List CommandWrapper) :
    AcquiredAt (log ++ suf) i L l t := by
  obtain ⟨c, hc, htype, hname, hlease, ht⟩ := h
  have hlt := (List.getElem?_eq_some_iff.mp hc).1
  refine ⟨c, by rw [List.getElem?_append_left hlt, hc], htype, hname, hlease, ?_⟩
  rw [stateAt_append (Nat.le_of_lt hlt)]
  exact ht

/-- The `i`-th command newly grants a lock, with token `t`. -/
def GrantedAt (log : List CommandWrapper) (i : Nat) (t : UInt64) : Prop :=
  ∃ c, log[i]? = some c ∧ (stateAt log i).Grants c ∧ ((stateAt log i).result c).token = some t

/-- Lease `l` holds lock `L` in every state after command `i` and up to command `j`. -/
def HeldThroughout (log : List CommandWrapper) (L : String) (l : UInt64) (i j : Nat) : Prop :=
  ∀ k, i < k → k ≤ j → (stateAt log k).holder L = some l

/-! ## One command -/

/-- A successful acquire leaves the lock with the lease that asked, under the token it was told. -/
theorem Machine.getLock_next_of_token {m : Machine} {c : CommandWrapper} {t : UInt64}
    (ht : (m.result c).token = some t) :
    ∃ lock, (m.next c).getLock c.getAcquireLock.lockName = some lock ∧ lock.fencingToken = t ∧
      lock.leaseID = c.getAcquireLock.leaseId := by
  rw [result] at ht
  rw [next_getLock]
  have hout := m.outcome c
  generalize m.apply c = a at hout ht
  cases hout with
  | rejected | created | released | expired | upserted | removed => cases ht
  | ignored r hcmd => rcases hcmd with ⟨-, rfl⟩ | ⟨-, -, rfl⟩ <;> cases ht
  | reacquired htype lease lock hlease howner hlock hheld =>
    cases ht
    exact ⟨lock, hlock, rfl, hheld⟩
  | granted htype lease hlease howner hfree =>
    cases ht
    refine ⟨m.grantedLock c.getAcquireLock, ?_, rfl, rfl⟩
    simp only [FSM.reply, withLock, join_lookup_insert]
    rw [if_pos trivial]

/-- The token of a fresh grant is the counter just advanced. -/
theorem Machine.token_of_grants {m : Machine} {c : CommandWrapper} {t : UInt64}
    (hgr : m.Grants c) (ht : (m.result c).token = some t) : t = (m.next c).fsm.fencingCounter := by
  obtain ⟨htype, hfree, hsome⟩ := hgr
  change ((m.apply c).result).token = some t at ht
  show t = (m.apply c).fsm.fencingCounter
  have hout := m.outcome c
  generalize m.apply c = a at hout ht
  cases hout with
  | rejected | created | released | expired | upserted | removed => cases ht
  | ignored r hcmd => rcases hcmd with ⟨-, rfl⟩ | ⟨-, -, rfl⟩ <;> cases ht
  | reacquired _ lease lock hlease howner hlock hheld =>
    rw [hlock] at hfree
    cases hfree
  | granted =>
    cases ht
    rfl

/-- A lock held before and after a command is the same record: no single command both frees a
name and grants it again. -/
theorem Machine.getLock_next_of_held {m : Machine} {c : CommandWrapper} {L : String}
    {lock lock' : Lock} (h : m.getLock L = some lock) (h' : (m.next c).getLock L = some lock') :
    lock' = lock := by
  rcases m.getLock_next_cases c L with hsame | ⟨-, -, hnone, -⟩ | ⟨_, -, hnone, -⟩
  · rw [hsame, h] at h'
    cases h'
    rfl
  · rw [h] at hnone
    cases hnone
  · rw [h'] at hnone
    cases hnone

/-! ## Along a log -/

section Along

variable {log : List CommandWrapper}

theorem grantCount_take_le (log : List CommandWrapper) (i : Nat) :
    new.grantCount (log.take i) ≤ new.grantCount log := by
  conv_rhs => rw [← List.take_append_drop i log, grantCount_append]
  omega

/-- The counter counts the grants of the log so far. -/
theorem fencingCounter_stateAt (hgrants : new.grantCount log < 2 ^ 64) (i : Nat) :
    (stateAt log i).fsm.fencingCounter.toNat = new.grantCount (log.take i) := by
  have hle := grantCount_take_le log i
  have hstart : new.fsm.fencingCounter.toNat = 0 := rfl
  rw [stateAt, fencingCounter_replay new (log.take i) (by omega), hstart, Nat.zero_add]

theorem fenced_stateAt (hgrants : new.grantCount log < 2 ^ 64) (i : Nat) :
    (stateAt log i).Fenced := by
  have hle := grantCount_take_le log i
  have hstart : new.fsm.fencingCounter.toNat = 0 := rfl
  exact fenced_new.replay (log.take i) (by omega)

/-- A grant at any position still finds room in the counter. -/
theorem counter_room (hgrants : new.grantCount log < 2 ^ 64) {i : Nat} {c : CommandWrapper}
    (hc : log[i]? = some c) (hgr : (stateAt log i).Grants c) :
    (stateAt log i).fsm.fencingCounter.toNat + 1 < 2 ^ 64 := by
  have hle := grantCount_take_le log (i + 1)
  rw [List.take_add_one, hc, grantCount_append] at hle
  have hone : (stateAt log i).grantCount [c] = 1 := by
    simp [grantCount, hgr]
  have hone' : (new.replay (log.take i)).grantCount (some c).toList = 1 := hone
  rw [hone'] at hle
  rw [fencingCounter_stateAt hgrants i]
  omega

theorem fencingCounter_mono (hgrants : new.grantCount log < 2 ^ 64) {i j : Nat} (hij : i ≤ j) :
    (stateAt log i).fsm.fencingCounter.toNat ≤ (stateAt log j).fsm.fencingCounter.toNat := by
  rw [fencingCounter_stateAt hgrants i, fencingCounter_stateAt hgrants j]
  have hsplit : log.take j = log.take i ++ (log.take j).drop i := by
    conv_lhs => rw [← List.take_append_drop i (log.take j), List.take_take, Nat.min_eq_left hij]
  rw [hsplit, grantCount_append]
  omega

/-- **Old tokens persist.** A lock found at position `j` with a token not above the counter of an
earlier position `i` was there at `i` already. Induction on the distance: the only command that
puts a lock where there was none uses a token above the counter. -/
theorem getLock_of_old_token (hgrants : new.grantCount log < 2 ^ 64) {i j : Nat} (hij : i ≤ j)
    {L : String} {lock : Lock} (hlock : (stateAt log j).getLock L = some lock)
    (hold : lock.fencingToken.toNat ≤ (stateAt log i).fsm.fencingCounter.toNat) :
    (stateAt log i).getLock L = some lock := by
  induction j, hij using Nat.le_induction with
  | base => exact hlock
  | succ j hij ih =>
    cases hc : log[j]? with
    | none =>
      rw [stateAt_succ_of_none hc] at hlock
      exact ih hlock
    | some c =>
      rw [stateAt_succ hc] at hlock
      rcases (fenced_stateAt hgrants j).next_lock_cases (counter_room hgrants hc) hlock with
        hsame | ⟨hgr, -, rfl, -⟩
      · exact ih hsame
      · -- the freshly granted token is above every earlier counter
        have hmono := fencingCounter_mono hgrants hij
        have hsucc := toNat_add_one (counter_room hgrants hc hgr)
        simp only [grantedLock, hsucc] at hold
        omega

/-- While one lease keeps a lock, the lock's record does not change. -/
theorem getLock_of_heldThroughout {L : String} {l : UInt64} {i j : Nat} (hij : i ≤ j)
    (hheld : HeldThroughout log L l i (j + 1)) {lock : Lock}
    (hlock : (stateAt log (i + 1)).getLock L = some lock) :
    (stateAt log (j + 1)).getLock L = some lock := by
  induction j, hij using Nat.le_induction with
  | base => exact hlock
  | succ j hij ih =>
    have hprev := ih (fun k hik hkj => hheld k hik (by omega))
    obtain ⟨lock', hlock', -⟩ := holder_eq_some.mp (hheld (j + 1 + 1) (by omega) le_rfl)
    cases hc : log[j + 1]? with
    | none =>
      rw [stateAt_succ_of_none hc]
      exact hprev
    | some c =>
      have hnext : ((stateAt log (j + 1)).next c).getLock L = some lock' := by
        rw [← stateAt_succ hc]
        exact hlock'
      rw [hlock', getLock_next_of_held hprev hnext]

/-- What a successful acquire leaves behind, seen from the next position. -/
theorem AcquiredAt.getLock {i : Nat} {L : String} {l t : UInt64} (h : AcquiredAt log i L l t) :
    ∃ lock, (stateAt log (i + 1)).getLock L = some lock ∧ lock.fencingToken = t ∧
      lock.leaseID = l := by
  obtain ⟨c, hc, -, rfl, rfl, ht⟩ := h
  rw [stateAt_succ hc]
  exact getLock_next_of_token ht

/-! ## The three parts of the law -/

/-- Fresh grants carry strictly increasing tokens, whatever the lock names. -/
theorem granted_tokens_lt (hgrants : new.grantCount log < 2 ^ 64) {i j : Nat} (hij : i < j)
    {t t' : UInt64} (h : GrantedAt log i t) (h' : GrantedAt log j t') : t < t' := by
  obtain ⟨c, hc, hgr, ht⟩ := h
  obtain ⟨c', hc', hgr', ht'⟩ := h'
  have htok := token_of_grants hgr ht
  have htok' := token_of_grants hgr' ht'
  rw [← stateAt_succ hc] at htok
  have hnext : ((stateAt log j).next c').fsm.fencingCounter
      = (stateAt log j).fsm.fencingCounter + 1 := by
    rcases (stateAt log j).fencingCounter_next_cases c' with ⟨-, hnext⟩ | ⟨hngr, -⟩
    · exact hnext
    · exact absurd hgr' hngr
  have hmono := fencingCounter_mono hgrants (show i + 1 ≤ j by omega)
  rw [htok, htok', hnext, UInt64.lt_iff_toNat_lt, toNat_add_one (counter_room hgrants hc' hgr')]
  omega

/-- A later reply either carries a token above everything issued up to the earlier one, or repeats
the record the earlier one left. -/
theorem later_token_cases (hgrants : new.grantCount log < 2 ^ 64) {i j : Nat}
    {L L' : String} {l l' t t' : UInt64} (h : AcquiredAt log i L l t)
    (h' : AcquiredAt log j L' l' t') :
    t < t' ∨ ∃ lock, lock.fencingToken = t' ∧ lock.leaseID = l' ∧
      ∀ k, i < k → k ≤ j → (stateAt log k).getLock L' = some lock := by
  obtain ⟨lock, hlock, rfl, -⟩ := h.getLock
  obtain ⟨lock', hlock', rfl, hlease'⟩ := h'.getLock
  have hle := ((fenced_stateAt hgrants (i + 1)).token_range L lock hlock).2
  rw [UInt64.le_iff_toNat_le] at hle
  by_cases hnew : (stateAt log (i + 1)).fsm.fencingCounter.toNat < lock'.fencingToken.toNat
  · left
    rw [UInt64.lt_iff_toNat_lt]
    omega
  · right
    refine ⟨lock', rfl, hlease', ?_⟩
    intro k hik hkj
    have hmono := fencingCounter_mono hgrants (show i + 1 ≤ k by omega)
    exact getLock_of_old_token hgrants (show k ≤ j + 1 by omega) hlock' (by omega)

/-- Replies on one lock: tokens never decrease, and they are equal exactly within one tenure. -/
theorem same_lock_tokens (hgrants : new.grantCount log < 2 ^ 64) {i j : Nat} (hij : i < j)
    {L : String} {l l' t t' : UInt64} (h : AcquiredAt log i L l t)
    (h' : AcquiredAt log j L l' t') :
    t ≤ t' ∧ (t = t' ↔ l = l' ∧ HeldThroughout log L l i j) := by
  obtain ⟨lock, hlock, htok, hlease⟩ := h.getLock
  rcases later_token_cases hgrants h h' with hlt | ⟨lock', htok', hlease', hall⟩
  · refine ⟨UInt64.le_of_lt hlt, ?_, ?_⟩
    · intro heq
      exact absurd heq (UInt64.ne_of_lt hlt)
    · -- a tenure that reached `j` would have made the later reply repeat the token
      rintro ⟨rfl, hheld⟩
      obtain ⟨c', hc', -, hL, hl', ht'⟩ := h'
      obtain ⟨last, hlast, htlast, -⟩ := getLock_next_of_token ht'
      rw [hL] at hlast
      have hbefore : (stateAt log j).getLock L = some lock := by
        obtain ⟨d, rfl⟩ := Nat.exists_eq_add_of_lt hij
        exact getLock_of_heldThroughout (Nat.le_add_right i d) hheld hlock
      rw [getLock_next_of_held hbefore hlast, htok] at htlast
      exact htlast
  · have hfirst := hall (i + 1) (by omega) (by omega)
    rw [hlock] at hfirst
    cases hfirst
    have heq : t = t' := htok.symm.trans htok'
    refine ⟨heq ▸ UInt64.le_refl t, fun _ => ⟨hlease.symm.trans hlease', ?_⟩, fun _ => heq⟩
    intro k hik hkj
    exact holder_eq_some.mpr ⟨lock, hall k hik hkj, hlease⟩

/-- Replies on two lock names never carry one token. -/
theorem distinct_locks_tokens (hgrants : new.grantCount log < 2 ^ 64) {i j : Nat} (hij : i ≤ j)
    {L L' : String} {l l' t t' : UInt64} (hL : L ≠ L') (h : AcquiredAt log i L l t)
    (h' : AcquiredAt log j L' l' t') : t ≠ t' := by
  intro heq
  rcases Nat.lt_or_eq_of_le hij with hlt | rfl
  · obtain ⟨lock, hlock, htok, -⟩ := h.getLock
    rcases later_token_cases hgrants h h' with hlt' | ⟨lock', htok', -, hall⟩
    · exact absurd heq (UInt64.ne_of_lt hlt')
    · -- both records are live right after the earlier reply
      have hlock' := hall (i + 1) (by omega) (by omega)
      exact hL ((fenced_stateAt hgrants (i + 1)).token_inj L L' lock lock' hlock hlock'
        (by rw [htok, htok', heq]))
  · obtain ⟨c, hc, -, rfl, -⟩ := h
    obtain ⟨c', hc', -, rfl, -⟩ := h'
    rw [hc] at hc'
    cases hc'
    exact hL rfl

end Along

/-- **The fencing law.** Along every log with fewer than `2^64` grants: the tokens of fresh grants
strictly increase; on one lock, tokens of successful acquires never decrease and are equal exactly
when the same lease held the lock from one to the other; and different locks never share a token. -/
theorem fencing_law (log : List CommandWrapper) (hgrants : new.grantCount log < 2 ^ 64) :
    (∀ i j t t', i < j → GrantedAt log i t → GrantedAt log j t' → t < t') ∧
    (∀ i j L l l' t t', i < j → AcquiredAt log i L l t → AcquiredAt log j L l' t' →
      t ≤ t' ∧ (t = t' ↔ l = l' ∧ HeldThroughout log L l i j)) ∧
    (∀ i j L L' l l' t t', L ≠ L' → AcquiredAt log i L l t → AcquiredAt log j L' l' t' →
      t ≠ t') := by
  refine ⟨?_, ?_, ?_⟩
  · intro i j t t' hij h h'
    exact granted_tokens_lt hgrants hij h h'
  · intro i j L l l' t t' hij h h'
    exact same_lock_tokens hgrants hij h h'
  · intro i j L L' l l' t t' hL h h'
    rcases Nat.le_total i j with hij | hji
    · exact distinct_locks_tokens hgrants hij hL h h'
    · exact (distinct_locks_tokens hgrants hji hL.symm h' h).symm

/-- A log in which one lease re-acquires, loses and regains a lock: its tokens are 1, 1 and 3. -/
def tenureLog : List CommandWrapper :=
  [newCreateLeaseCmd "client-1" 10 5, newAcquireLockCmd "alpha" "client-1" 1,
    newAcquireLockCmd "beta" "client-1" 1, newAcquireLockCmd "alpha" "client-1" 1,
    newReleaseLockCmd "alpha" 1, newAcquireLockCmd "alpha" "client-1" 1]

theorem fencing_law_tenureLog :
    new.grantCount tenureLog < 2 ^ 64 ∧ AcquiredAt tenureLog 1 "alpha" 1 1 ∧
      AcquiredAt tenureLog 3 "alpha" 1 1 ∧ AcquiredAt tenureLog 5 "alpha" 1 3 ∧
      HeldThroughout tenureLog "alpha" 1 1 3 ∧ ¬ HeldThroughout tenureLog "alpha" 1 1 5 := by
  have hlaw := (fencing_law tenureLog (by decide)).2.1
  have h1 : AcquiredAt tenureLog 1 "alpha" 1 1 :=
    ⟨newAcquireLockCmd "alpha" "client-1" 1, by decide⟩
  have h3 : AcquiredAt tenureLog 3 "alpha" 1 1 :=
    ⟨newAcquireLockCmd "alpha" "client-1" 1, by decide⟩
  have h5 : AcquiredAt tenureLog 5 "alpha" 1 3 :=
    ⟨newAcquireLockCmd "alpha" "client-1" 1, by decide⟩
  refine ⟨by decide, h1, h3, h5, ?_, ?_⟩
  · exact ((hlaw 1 3 "alpha" 1 1 1 1 (by omega) h1 h3).2.mp rfl).2
  · intro hheld
    have heq := (hlaw 1 5 "alpha" 1 1 1 3 (by omega) h1 h5).2.mpr ⟨rfl, hheld⟩
    exact absurd heq (by decide)

end Clavis
