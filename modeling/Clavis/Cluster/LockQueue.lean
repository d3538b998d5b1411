import Clavis.Lib.RangeDelete

/-!
# Clavis — the lock queues

`lockQueues` of `internal/cluster/lockqueue.go`: for each lock the callers waiting for it, in
arrival order. A waiter is an element of a type `W`; its `ready` channel has one slot, so that a
waiter either has a signal pending or not, and a second signal is dropped. Each operation runs under
the queues' mutex.

The map holds no empty queue; what the operations do is said by `queue`, which reads a missing
entry as the empty queue, as the code does.
-/

namespace Clavis

open Lib

/-- `lockQueues`, with the waiters whose channel holds a signal. -/
structure LockQueues (W : Type) where
  queues : Finmap (fun _ : String => List W)
  ready : Finset W

namespace LockQueues

variable {W : Type} [DecidableEq W]

/-- `newLockQueues`. -/
def new : LockQueues W := ⟨∅, ∅⟩

/-- `q.queues[lockName]`. -/
def queue (q : LockQueues W) (lockName : String) : List W := (q.queues.lookup lockName).getD []

/-- `JoinLockQueue`: to the back of the queue, with a new channel. -/
def join (q : LockQueues W) (lockName : String) (w : W) : LockQueues W :=
  ⟨q.queues.insert lockName (q.queue lockName ++ [w]), q.ready.erase w⟩

/-- `LockHasWaiters`. -/
def hasWaiters (q : LockQueues W) (lockName : String) : Bool := 0 < (q.queue lockName).length

/-- `IsHead`. -/
def isHead (q : LockQueues W) (lockName : String) (w : W) : Bool :=
  (q.queue lockName).head? = some w

/-- `wake`: a signal into the one-slot channel, dropped if there is one already. -/
def wake (q : LockQueues W) (w : W) : LockQueues W := { q with ready := insert w q.ready }

/-- `wakeHead`. -/
def wakeHead (q : LockQueues W) (lockName : String) : LockQueues W :=
  match q.queue lockName with
  | [] => q
  | w :: _ => q.wake w

/-- `Leave`. -/
def leave (q : LockQueues W) (lockName : String) (w : W) : LockQueues W :=
  if w ∈ q.queue lockName then
    match (q.queue lockName).erase w with
    | [] => { q with queues := q.queues.erase lockName }
    | next :: rest =>
      let left : LockQueues W := { q with queues := q.queues.insert lockName (next :: rest) }
      -- the waiter was next in line
      if (q.queue lockName).head? = some w then left.wake next else left
  else q

/-- Take the signal out of a waiter's channel. -/
def receive (q : LockQueues W) (w : W) : LockQueues W := { q with ready := q.ready.erase w }

/-! ## What the operations do to the queues and to the signals -/

section Lemmas

variable (q : LockQueues W) (lockName L : String) (w x : W)

omit [DecidableEq W] in
theorem queue_insert (queues : Finmap (fun _ : String => List W)) (ready : Finset W) (l : List W) :
    (⟨queues.insert lockName l, ready⟩ : LockQueues W).queue L
      = if L = lockName then l else (⟨queues, ready⟩ : LockQueues W).queue L := by
  unfold queue
  rw [lookup_insert_eq_ite]
  split <;> rfl

@[simp] theorem queue_join :
    (q.join lockName w).queue L = if L = lockName then q.queue lockName ++ [w] else q.queue L :=
  queue_insert lockName L q.queues (q.ready.erase w) _

@[simp] theorem queue_wake : (q.wake w).queue L = q.queue L := rfl

@[simp] theorem queue_wakeHead : (q.wakeHead lockName).queue L = q.queue L := by
  unfold wakeHead
  split <;> rfl

/-- Leaving takes the waiter out of its queue and touches nothing else. -/
@[simp] theorem queue_leave :
    (q.leave lockName w).queue L
      = if L = lockName then (q.queue lockName).erase w else q.queue L := by
  unfold leave
  split
  · split
    · rename_i hnil
      rw [hnil, queue, lookup_erase_eq_ite]
      split <;> rfl
    · rename_i next rest hcons
      rw [hcons]
      have hleft := queue_insert lockName L q.queues q.ready (next :: rest)
      dsimp only
      split
      · rw [queue_wake, hleft]
      · rw [hleft]
  · rename_i habsent
    rw [List.erase_of_not_mem habsent]
    split
    · rename_i hL
      rw [hL]
    · rfl

theorem mem_ready_wakeHead :
    x ∈ (q.wakeHead lockName).ready ↔ x ∈ q.ready ∨ (q.queue lockName).head? = some x := by
  unfold wakeHead
  split
  · rename_i hnil
    simp [hnil]
  · rename_i y ys hcons
    simp only [wake, Finset.mem_insert, hcons, List.head?_cons, Option.some.injEq]
    rw [or_comm, eq_comm]

/-- Leaving signals whoever has become the head, and nobody else. -/
theorem mem_ready_leave :
    x ∈ (q.leave lockName w).ready ↔ x ∈ q.ready ∨
      ((q.queue lockName).head? = some w ∧ ((q.queue lockName).erase w).head? = some x) := by
  unfold leave
  split
  · split
    · rename_i hnil
      simp [hnil]
    · rename_i next rest hcons
      dsimp only
      split
      · rename_i hhead
        simp only [wake, Finset.mem_insert, hcons, List.head?_cons, Option.some.injEq, hhead,
          true_and]
        rw [or_comm, eq_comm]
      · rename_i hhead
        simp [hhead]
  · rename_i habsent
    have hhead : (q.queue lockName).head? ≠ some w := fun h => habsent (List.mem_of_head? h)
    simp [hhead]

end Lemmas

/-! ## The lock-freed hook

`wakeHead` is called for each lock a command frees, in an order the cascade of an expiry does not
fix; two calls commute. -/

instance : RightCommutative (wakeHead : LockQueues W → String → LockQueues W) where
  right_comm q a b := by
    have hqueues : ∀ (p : LockQueues W) (n : String), (p.wakeHead n).queues = p.queues := by
      intro p n
      unfold wakeHead
      split <;> rfl
    have hready : ((q.wakeHead a).wakeHead b).ready = ((q.wakeHead b).wakeHead a).ready := by
      ext x
      simp only [mem_ready_wakeHead, queue_wakeHead]
      tauto
    calc (q.wakeHead a).wakeHead b
        = ⟨q.queues, ((q.wakeHead a).wakeHead b).ready⟩ := by
          rw [← hqueues q a, ← hqueues (q.wakeHead a) b]
      _ = (q.wakeHead b).wakeHead a := by
          rw [hready, ← hqueues q b, ← hqueues (q.wakeHead b) a]

/-- Call the hook for every freed lock. -/
def lockFreed (q : LockQueues W) (names : Multiset String) : LockQueues W :=
  names.foldl wakeHead q

theorem queue_lockFreed (q : LockQueues W) (names : Multiset String) (L : String) :
    (q.lockFreed names).queue L = q.queue L := by
  unfold lockFreed
  induction names using Multiset.induction generalizing q with
  | empty => rfl
  | cons a names ih => rw [Multiset.foldl_cons, ih, queue_wakeHead]

theorem mem_ready_lockFreed (q : LockQueues W) (names : Multiset String) (x : W) :
    x ∈ (q.lockFreed names).ready ↔
      x ∈ q.ready ∨ ∃ L ∈ names, (q.queue L).head? = some x := by
  unfold lockFreed
  induction names using Multiset.induction generalizing q with
  | empty => simp
  | cons a names ih =>
    rw [Multiset.foldl_cons, ih, mem_ready_wakeHead]
    simp only [queue_wakeHead, Multiset.mem_cons, exists_eq_or_imp, or_assoc]

end LockQueues

end Clavis
