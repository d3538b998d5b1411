import Clavis.Lib.Trace
import Clavis.State.Snapshot

/-!
# Clavis — replicas of the state machine

What Raft makes of `RaftFSM`: every node applies the committed entries in the order of the log, some
later than others. A node may capture a snapshot of its state, have it persisted while it goes on
applying, and replace its state by a snapshot that it or another node has persisted; and it may be
restarted, with a fresh state machine, from a snapshot or from the beginning of the log. The entries
are bytes, and nothing is assumed about them: a malformed one, or one that another version of the
program wrote, is part of the log like any other. `proto.Unmarshal` is a parameter, of which only
this is used: it reads the same bytes in the same way on every node.

* `RaftFSM.apply` — unmarshal the entry and apply the command.
* `Replicas.step` — the moves. A node on which a handler panics, or that cannot restore a snapshot,
  goes down.
* `Replicas.Ok` — every node is up, its state is that of the log up to where it has applied it, and
  so is every snapshot.
* `replicas_agree` — the headline: no node goes down, nodes that have applied as many entries are
  in the same state, and all of them answer an entry alike.
-/

namespace Clavis

open Lib

/-- What `RaftFSM.Apply` can fail with. -/
inductive EntryError where
  | malformed
  | domain (e : DomainError)
deriving DecidableEq

abbrev EntryResult := Except EntryError Reply

abbrev Bytes := List UInt8

section Entries

variable (unmarshal : Bytes → Option CommandWrapper)

/-- `RaftFSM.Apply`: the state and the response; `none` is a panic. -/
def RaftFSM.apply (f : FSM) (data : Bytes) : Option (FSM × EntryResult) :=
  match unmarshal data with
  | none => some (f, .error .malformed)
  | some c => (f.apply c).map fun a => (a.fsm, a.result.mapError .domain)

/-- The state machine after a log of entries: those that cannot be read change nothing. -/
def stateAfterEntries (log : List Bytes) : Machine :=
  Machine.new.replay (log.filterMap unmarshal)

/-- The answer to an entry in a state. -/
def entryResult (m : Machine) (data : Bytes) : EntryResult :=
  match unmarshal data with
  | none => .error .malformed
  | some c => (m.result c).mapError .domain

theorem stateAfterEntries_concat (log : List Bytes) (data : Bytes) :
    stateAfterEntries unmarshal (log ++ [data]) = match unmarshal data with
      | none => stateAfterEntries unmarshal log
      | some c => (stateAfterEntries unmarshal log).next c := by
  rw [stateAfterEntries, List.filterMap_append, Machine.replay_append]
  cases hdata : unmarshal data with
  | none => simp [stateAfterEntries, hdata]
  | some c => simp [stateAfterEntries, hdata]

/-- `RaftFSM.Apply` never panics on a state that a log leaves. -/
theorem RaftFSM.apply_eq (log : List Bytes) (data : Bytes) :
    RaftFSM.apply unmarshal (stateAfterEntries unmarshal log).fsm data
      = some ((stateAfterEntries unmarshal (log ++ [data])).fsm,
          entryResult unmarshal (stateAfterEntries unmarshal log) data) := by
  rw [stateAfterEntries_concat, RaftFSM.apply, entryResult]
  cases unmarshal data with
  | none => rfl
  | some c =>
    dsimp only
    rw [Machine.fsm_apply]
    rfl

end Entries

/-! ## The nodes -/

/-- A node that is up: its state machine and how many entries it has applied. -/
structure Replica where
  fsm : FSM
  applied : Nat

/-- The nodes of a cluster, with what Raft keeps for them. -/
structure Replicas (N : Type) where
  /-- The committed entries. -/
  log : List Bytes
  nodes : N → Option Replica
  /-- Snapshots that were captured, with the number of entries they stand for. -/
  captured : List (Nat × FsmSnapshot)
  /-- Snapshots that were persisted. -/
  stored : List (Nat × Json)
  /-- What the nodes have answered: the node, the position of the entry, the response. -/
  answers : List (N × Nat × EntryResult)

/-- Snapshots are named by their place in the list. -/
inductive Replicas.Act (N : Type) where
  | commit (data : Bytes)
  | apply (n : N)
  | snapshot (n : N)
  | persist (i : Nat)
  | restore (n : N) (i : Nat)
  /-- Start over, from a snapshot or from the beginning of the log. -/
  | restart (n : N) (i : Option Nat)

namespace Replicas

variable {N : Type}

def init : Replicas N := ⟨[], fun _ => some ⟨newFSM, 0⟩, [], [], []⟩

/-- The node after `Restore`: an error takes it down. -/
def restored (visits : ∀ snap, Visits snap) (f : FSM) (snap : Nat × Json) : Option Replica :=
  match f.restore visits snap.2 with
  | (f', .ok ()) => some ⟨f', snap.1⟩
  | (_, .error _) => none

variable [DecidableEq N] (unmarshal : Bytes → Option CommandWrapper) (visits : ∀ snap, Visits snap)

def step (s : Replicas N) : Act N → Option (Replicas N)
  | .commit data => some { s with log := s.log ++ [data] }
  | .apply n =>
    (s.nodes n).bind fun r =>
      s.log[r.applied]?.map fun data =>
        match RaftFSM.apply unmarshal r.fsm data with
        | none => { s with nodes := Function.update s.nodes n none }
        | some (f, result) => { s with
            nodes := Function.update s.nodes n (some ⟨f, r.applied + 1⟩)
            answers := (n, r.applied, result) :: s.answers }
  | .snapshot n =>
    (s.nodes n).map fun r =>
      match r.fsm.snapshot with
      | none => { s with nodes := Function.update s.nodes n none }
      | some snap => { s with captured := (r.applied, snap) :: s.captured }
  | .persist i =>
    s.captured[i]?.map fun snap => { s with stored := (snap.1, snap.2.persist) :: s.stored }
  | .restore n i =>
    (s.nodes n).bind fun r => s.stored[i]?.map fun snap =>
      { s with nodes := Function.update s.nodes n (restored visits r.fsm snap) }
  | .restart n none => some { s with nodes := Function.update s.nodes n (some ⟨newFSM, 0⟩) }
  | .restart n (some i) =>
    s.stored[i]?.map fun snap =>
      { s with nodes := Function.update s.nodes n (restored visits newFSM snap) }

/-! ## The invariant -/

/-- The node's state is that of the log up to where the node has applied it. -/
def Follows (log : List Bytes) (r : Replica) : Prop :=
  r.applied ≤ log.length ∧ r.fsm = (stateAfterEntries unmarshal (log.take r.applied)).fsm

structure Ok (s : Replicas N) : Prop where
  nodes : ∀ n, ∃ r, s.nodes n = some r ∧ Follows unmarshal s.log r
  captured : ∀ snap ∈ s.captured, snap.1 ≤ s.log.length ∧
    snap.2 = (stateAfterEntries unmarshal (s.log.take snap.1)).fsm.toSnapshot
  stored : ∀ snap ∈ s.stored, snap.1 ≤ s.log.length ∧
    snap.2 = (stateAfterEntries unmarshal (s.log.take snap.1)).fsm.toSnapshot.persist
  answers : ∀ n i result, (n, i, result) ∈ s.answers → ∃ data, s.log[i]? = some data ∧
    result = entryResult unmarshal (stateAfterEntries unmarshal (s.log.take i)) data

section Ok

variable {unmarshal : Bytes → Option CommandWrapper} {visits : ∀ snap, Visits snap}
  {s s' : Replicas N} {a : Act N}

omit [DecidableEq N] in
theorem ok_init : Ok unmarshal (init : Replicas N) where
  nodes n := ⟨⟨newFSM, 0⟩, rfl, Nat.le_refl _, rfl⟩
  captured := by
    intro snap h
    cases h
  stored := by
    intro snap h
    cases h
  answers := by
    intro n i result h
    cases h

/-- A part of the log is the same part of a longer log. -/
theorem take_concat {log : List Bytes} {k : Nat} (h : k ≤ log.length) (data : Bytes) :
    (log ++ [data]).take k = log.take k := List.take_append_of_le_length h

theorem Follows.concat {log : List Bytes} {r : Replica} (h : Follows unmarshal log r)
    (data : Bytes) : Follows unmarshal (log ++ [data]) r := by
  obtain ⟨hle, hfsm⟩ := h
  refine ⟨by rw [List.length_append]; omega, ?_⟩
  rw [take_concat hle]
  exact hfsm

omit [DecidableEq N] in
/-- One more entry of the log changes nothing for what has been applied. -/
theorem Ok.commit (h : Ok unmarshal s) (data : Bytes) :
    Ok unmarshal { s with log := s.log ++ [data] } where
  nodes n := by
    obtain ⟨r, hr, hfollows⟩ := h.nodes n
    exact ⟨r, hr, hfollows.concat data⟩
  captured := by
    intro snap hsnap
    obtain ⟨hle, heq⟩ := h.captured snap hsnap
    refine ⟨by rw [List.length_append]; omega, ?_⟩
    rw [take_concat hle]
    exact heq
  stored := by
    intro snap hsnap
    obtain ⟨hle, heq⟩ := h.stored snap hsnap
    refine ⟨by rw [List.length_append]; omega, ?_⟩
    rw [take_concat hle]
    exact heq
  answers := by
    intro n i result hmem
    obtain ⟨data', hdata, heq⟩ := h.answers n i result hmem
    have hlt := (List.getElem?_eq_some_iff.mp hdata).1
    refine ⟨data', by rw [List.getElem?_append_left hlt, hdata], ?_⟩
    rw [take_concat (by omega)]
    exact heq

/-- A node is replaced by one that follows the log as well. -/
theorem Ok.update (h : Ok unmarshal s) (n : N) {r : Replica} (hr : Follows unmarshal s.log r) :
    Ok unmarshal { s with nodes := Function.update s.nodes n (some r) } :=
  { h with
    nodes := by
      intro n'
      show ∃ r', Function.update s.nodes n (some r) n' = some r' ∧
        Follows unmarshal s.log r'
      by_cases hn : n' = n
      · exact ⟨r, by rw [hn, Function.update_self], hr⟩
      · rw [Function.update_of_ne hn]
        exact h.nodes n' }

omit [DecidableEq N] in
/-- Restoring a stored snapshot succeeds, whatever state the node is in. -/
theorem Ok.restored_eq (h : Ok unmarshal s) {snap : Nat × Json} (hsnap : snap ∈ s.stored)
    (f : FSM) : ∃ r, restored visits f snap = some r ∧ Follows unmarshal s.log r := by
  obtain ⟨hle, heq⟩ := h.stored snap hsnap
  have hstorable := Machine.storable_new.replay
    ((s.log.take snap.1).filterMap unmarshal)
  have hrestore : f.restore visits snap.2
      = ((stateAfterEntries unmarshal (s.log.take snap.1)).fsm, .ok ()) := by
    rw [heq]
    exact restore_persist hstorable visits f
  refine ⟨⟨(stateAfterEntries unmarshal (s.log.take snap.1)).fsm, snap.1⟩, ?_, hle, rfl⟩
  rw [restored, hrestore]

theorem Ok.step (h : Ok unmarshal s) (hstep : s.step unmarshal visits a = some s') :
    Ok unmarshal s' := by
  cases a with
  | commit data =>
    cases hstep
    exact h.commit data
  | apply n =>
    obtain ⟨r, hr, hmap⟩ := Option.bind_eq_some_iff.mp hstep
    obtain ⟨data, hdata, heq⟩ := Option.map_eq_some_iff.mp hmap
    obtain ⟨r', hr', hle, hfsm⟩ := h.nodes n
    obtain rfl := Option.some.inj (hr'.symm.trans hr)
    have hlt := (List.getElem?_eq_some_iff.mp hdata).1
    have htake : s.log.take (r'.applied + 1) = s.log.take r'.applied ++ [data] := by
      rw [List.take_add_one, hdata, Option.toList_some]
    rw [hfsm, RaftFSM.apply_eq] at heq
    subst heq
    have hnext := h.update n (r := ⟨(stateAfterEntries unmarshal
      (s.log.take r'.applied ++ [data])).fsm, r'.applied + 1⟩) ⟨hlt, by rw [htake]⟩
    refine { hnext with answers := ?_ }
    intro n' i result hmem
    rcases List.mem_cons.mp hmem with heq | hold
    · cases heq
      exact ⟨data, hdata, rfl⟩
    · exact h.answers n' i result hold
  | snapshot n =>
    obtain ⟨r, hr, heq⟩ := Option.map_eq_some_iff.mp hstep
    obtain ⟨r', hr', hle, hfsm⟩ := h.nodes n
    obtain rfl := Option.some.inj (hr'.symm.trans hr)
    rw [hfsm, Machine.snapshot_eq] at heq
    subst heq
    refine { h with captured := ?_ }
    intro snap hsnap
    rcases List.mem_cons.mp hsnap with rfl | hold
    · exact ⟨hle, rfl⟩
    · exact h.captured snap hold
  | persist i =>
    obtain ⟨snap, hsnap, rfl⟩ := Option.map_eq_some_iff.mp hstep
    obtain ⟨hle, heq⟩ := h.captured snap (List.mem_of_getElem? hsnap)
    refine { h with stored := ?_ }
    intro snap' hsnap'
    rcases List.mem_cons.mp hsnap' with rfl | hold
    · exact ⟨hle, by rw [heq]⟩
    · exact h.stored snap' hold
  | restore n i =>
    obtain ⟨r, hr, hmap⟩ := Option.bind_eq_some_iff.mp hstep
    obtain ⟨snap, hsnap, rfl⟩ := Option.map_eq_some_iff.mp hmap
    obtain ⟨r', hrestored, hfollows⟩ := h.restored_eq (List.mem_of_getElem? hsnap) r.fsm
    rw [hrestored]
    exact h.update n hfollows
  | restart n i =>
    cases i with
    | none =>
      cases hstep
      exact h.update n ⟨Nat.zero_le _, rfl⟩
    | some i =>
      obtain ⟨snap, hsnap, rfl⟩ := Option.map_eq_some_iff.mp hstep
      obtain ⟨r', hrestored, hfollows⟩ := h.restored_eq (List.mem_of_getElem? hsnap) newFSM
      rw [hrestored]
      exact h.update n hfollows

end Ok

/-- **Replicas agree.** In every run, whatever bytes are committed, however they are read, and
however applying, snapshots, restores and restarts are interleaved: no node goes down; two nodes
that have applied as many entries are in the same state; and whenever two nodes have answered the
same entry, they have given the same answer, which for an entry that `Node.Apply` has marshalled
from a command that can be read back is the answer to the command. -/
theorem replicas_agree {unmarshal : Bytes → Option CommandWrapper} {visits : ∀ snap, Visits snap}
    {t : Trace (step (N := N) unmarshal visits)} (h0 : t.start = init) (k : Nat) :
    (∀ n, (t.state k).nodes n ≠ none) ∧
    (∀ n n' r r', (t.state k).nodes n = some r → (t.state k).nodes n' = some r' →
      r.applied = r'.applied → r = r') ∧
    (∀ n n' i result result', (n, i, result) ∈ (t.state k).answers →
      (n', i, result') ∈ (t.state k).answers → result = result') ∧
    (∀ (marshal : CommandWrapper → Bytes) n i result c, unmarshal (marshal c) = some c →
      (n, i, result) ∈ (t.state k).answers → (t.state k).log[i]? = some (marshal c) →
      result
        = ((stateAfterEntries unmarshal ((t.state k).log.take i)).result c).mapError .domain) := by
  have hok : Ok unmarshal (t.state k) :=
    t.invariant (h0 ▸ ok_init) (fun _ _ _ hstep h => h.step hstep) k
  refine ⟨?_, ?_, ?_, ?_⟩
  · intro n hnone
    obtain ⟨r, hr, -⟩ := hok.nodes n
    rw [hnone] at hr
    cases hr
  · intro n n' r r' hr hr' hsame
    obtain ⟨r₁, hr₁, -, hfsm⟩ := hok.nodes n
    obtain ⟨r₂, hr₂, -, hfsm'⟩ := hok.nodes n'
    obtain rfl := Option.some.inj (hr₁.symm.trans hr)
    obtain rfl := Option.some.inj (hr₂.symm.trans hr')
    obtain ⟨f, applied⟩ := r₁
    obtain ⟨f', applied'⟩ := r₂
    cases hsame
    rw [show f = _ from hfsm, show f' = _ from hfsm']
  · intro n n' i result result' hmem hmem'
    obtain ⟨data, hdata, rfl⟩ := hok.answers n i result hmem
    obtain ⟨data', hdata', rfl⟩ := hok.answers n' i result' hmem'
    obtain rfl := Option.some.inj (hdata.symm.trans hdata')
    rfl
  · intro marshal n i result c hread hmem hc
    obtain ⟨data, hdata, rfl⟩ := hok.answers n i result hmem
    obtain rfl := Option.some.inj (hdata.symm.trans hc)
    rw [entryResult, hread]

/-- A way to read entries: two of them are commands. -/
def twoEntries : Bytes → Option CommandWrapper
  | [1] => some (newCreateLeaseCmd "client-1" 10 5)
  | [2] => some (newAcquireLockCmd "jobs" "client-1" 1)
  | _ => none

/-- Two nodes apply a lease, an entry that is no message and an acquire; the first one's snapshot is
restored on the second. -/
noncomputable def garbled : Trace (step (N := Bool) twoEntries someVisits) where
  start := init
  acts := [.commit [1], .commit [0x0a, 0xff], .commit [2], .apply false, .apply false,
    .apply false, .snapshot false, .apply true, .apply true, .apply true, .persist 0,
    .restore true 0]
  enabled := by decide

/-- The garbled entry is answered with an error by both nodes, the acquire with its token, and both
are in one state. -/
theorem replicas_agree_garbled :
    ((garbled.state 11).answers.map Prod.snd).take 3 = [(2, .ok (.acquireLock ⟨1, 10⟩)),
      (1, .error .malformed), (0, .ok (.createLease ⟨1, 15, 10⟩))] ∧
    (∃ r, (garbled.state 11).nodes false = some r ∧ (garbled.state 11).nodes true = some r) ∧
    (∀ result, (true, 2, result) ∈ (garbled.state 11).answers →
      result = .ok (.acquireLock ⟨1, 10⟩)) ∧
    (garbled.state 12).nodes true ≠ none := by
  obtain ⟨-, hsame, -, hanswer⟩ := replicas_agree (t := garbled) rfl 11
  obtain ⟨hup, -⟩ := replicas_agree (t := garbled) rfl 12
  refine ⟨rfl, ⟨_, rfl, ?_⟩, ?_, hup true⟩
  · exact congrArg some (hsame true false _ _ rfl rfl rfl)
  · intro result hmem
    exact hanswer (fun _ => [2]) true 2 result (newAcquireLockCmd "jobs" "client-1" 1) rfl hmem rfl

end Replicas

end Clavis
