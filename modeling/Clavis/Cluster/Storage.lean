import Clavis.Lib.Trace

/-!
# Clavis — the migration of the log store

`internal/cluster/storage.go`. Older versions kept the Raft log and the stable store in a BoltDB
file `raft.db`; `NewStorage` copies it into a write-ahead log in a scratch directory, renames that
directory into place and then renames `raft.db` away. Losing the log would restart the fencing
counter, so the order of these steps has to be right wherever the process dies.

* `DataDir` — the four entries of the data directory that matter. A directory of log segments is
  either a store or the scraps that an interrupted writer or `RemoveAll` left.
* `Storage.next` — one file operation of `NewStorage`, by program counter.
* `Storage.step` — operations, together with a process that dies or gives up with an error at any
  operation (leaving anything at all in the scratch directory if it was at work there), the writes
  of a node that has opened its storage, and restarts.

Assumed of the environment: renames are atomic, `migrate.CopyLogs` copies every entry or fails, and
both stores return what was stored in them.
-/

namespace Clavis

open Lib

/-! ## Stores -/

/-- A Raft log entry. -/
structure LogEntry where
  index : UInt64
  term : UInt64
  data : List UInt8
deriving DecidableEq

/-- The keys that Raft stores as numbers. -/
inductive StableKey where
  | currentTerm
  | lastVoteTerm
deriving DecidableEq

/-- What a log and stable store holds; `none` is a missing key. Raft numbers its entries from 1. -/
structure RaftStore where
  logs : List LogEntry
  currentTerm : Option UInt64
  lastVoteTerm : Option UInt64
  lastVoteCand : Option (List UInt8)
  index_pos : ∀ e ∈ logs, 0 < e.index
deriving DecidableEq

namespace RaftStore

def empty : RaftStore := ⟨[], none, none, none, by simp⟩

/-- `LastIndex`: 0 when there are no entries. -/
def lastIndex (s : RaftStore) : UInt64 := (s.logs.getLast?.map LogEntry.index).getD 0

/-- `GetUint64`; `none` is `ErrKeyNotFound`. -/
def getUint64 (s : RaftStore) : StableKey → Option UInt64
  | .currentTerm => s.currentTerm
  | .lastVoteTerm => s.lastVoteTerm

/-- `SetUint64`. -/
def setUint64 (s : RaftStore) (val : UInt64) : StableKey → RaftStore
  | .currentTerm => { s with currentTerm := some val }
  | .lastVoteTerm => { s with lastVoteTerm := some val }

/-- `copyLogs`: `CopyLogs` cannot handle an empty store, so that one is skipped. -/
def copyLogs (dst src : RaftStore) : RaftStore :=
  if src.lastIndex = 0 then dst
  else { dst with
    logs := dst.logs ++ src.logs
    index_pos := by
      intro e he
      exact (List.mem_append.mp he).elim (dst.index_pos e) (src.index_pos e) }

/-- The body of `copyStable`'s loop: a missing key is skipped. -/
def copyKey (dst src : RaftStore) (key : StableKey) : RaftStore :=
  match src.getUint64 key with
  | none => dst
  | some val => dst.setUint64 val key

/-- The end of `copyStable`: a node that has never voted has no vote recorded. -/
def copyVote (dst src : RaftStore) : RaftStore :=
  match src.lastVoteCand with
  | none => dst
  | some val => { dst with lastVoteCand := some val }

theorem ext {s s' : RaftStore} (hlogs : s.logs = s'.logs)
    (hkeys : ∀ key, s.getUint64 key = s'.getUint64 key)
    (hvote : s.lastVoteCand = s'.lastVoteCand) : s = s' := by
  have hterm := hkeys .currentTerm
  have hvoteTerm := hkeys .lastVoteTerm
  cases s
  cases s'
  simp only [getUint64] at hterm hvoteTerm
  simp only [mk.injEq]
  exact ⟨hlogs, hterm, hvoteTerm, hvote⟩

/-- No entry has index 0, so the last index is 0 only for an empty log. -/
theorem logs_eq_nil_of_lastIndex {s : RaftStore} (h : s.lastIndex = 0) : s.logs = [] := by
  cases hlast : s.logs.getLast? with
  | none => exact List.getLast?_eq_none_iff.mp hlast
  | some e =>
    have hpos := s.index_pos e (List.mem_of_getLast? hlast)
    rw [lastIndex, hlast, Option.map_some, Option.getD_some] at h
    rw [h] at hpos
    exact absurd hpos (by decide)

/-- The log and the keys that are not still to come have been copied. -/
structure Copied (src : RaftStore) (keys : List StableKey) (dst : RaftStore) : Prop where
  logs : dst.logs = src.logs
  key : ∀ key, dst.getUint64 key = if key ∈ keys then none else src.getUint64 key
  vote : dst.lastVoteCand = none

/-- `[]string{"CurrentTerm", "LastVoteTerm"}`. -/
def stableKeys : List StableKey := [.currentTerm, .lastVoteTerm]

theorem copied_copyLogs (src : RaftStore) : Copied src stableKeys (copyLogs empty src) := by
  unfold copyLogs
  split
  · rename_i hlast
    refine ⟨(logs_eq_nil_of_lastIndex hlast).symm, ?_, rfl⟩
    intro key
    cases key <;> rfl
  · refine ⟨rfl, ?_, rfl⟩
    intro key
    cases key <;> rfl

theorem getUint64_copyKey (dst src : RaftStore) (key key' : StableKey) :
    (copyKey dst src key).getUint64 key'
      = if key' = key then (src.getUint64 key).or (dst.getUint64 key) else dst.getUint64 key' := by
  unfold copyKey
  cases src.getUint64 key with
  | none =>
    by_cases hkey : key' = key
    · rw [if_pos hkey, hkey]
      rfl
    · rw [if_neg hkey]
  | some val => cases key <;> cases key' <;> rfl

theorem logs_copyKey (dst src : RaftStore) (key : StableKey) :
    (copyKey dst src key).logs = dst.logs ∧
      (copyKey dst src key).lastVoteCand = dst.lastVoteCand := by
  unfold copyKey
  cases src.getUint64 key with
  | none => exact ⟨rfl, rfl⟩
  | some val => cases key <;> exact ⟨rfl, rfl⟩

theorem Copied.copyKey {src dst : RaftStore} {key : StableKey} {keys : List StableKey}
    (h : Copied src (key :: keys) dst) (hnodup : key ∉ keys) :
    Copied src keys (copyKey dst src key) where
  logs := (logs_copyKey dst src key).1.trans h.logs
  key key' := by
    rw [getUint64_copyKey]
    by_cases hkey : key' = key
    · subst hkey
      rw [if_pos rfl, h.key, if_pos List.mem_cons_self, Option.or_none, if_neg hnodup]
    · rw [if_neg hkey, h.key]
      simp only [List.mem_cons, hkey, false_or]
  vote := (logs_copyKey dst src key).2.trans h.vote

/-- After the vote the copy is complete. -/
theorem Copied.copyVote {src dst : RaftStore} (h : Copied src [] dst) :
    dst.copyVote src = src := by
  have hkeys : ∀ key, (dst.copyVote src).getUint64 key = src.getUint64 key := by
    intro key
    have hkey := h.key key
    rw [if_neg List.not_mem_nil] at hkey
    unfold RaftStore.copyVote
    cases src.lastVoteCand <;> cases key <;> exact hkey
  have hlogs : (dst.copyVote src).logs = src.logs := by
    unfold RaftStore.copyVote
    cases src.lastVoteCand <;> exact h.logs
  have hvote : (dst.copyVote src).lastVoteCand = src.lastVoteCand := by
    unfold RaftStore.copyVote
    cases src.lastVoteCand with
    | none => exact h.vote
    | some val => rfl
  exact ext hlogs hkeys hvote

end RaftStore

/-! ## The data directory -/

/-- A directory of log segments: a store, or scraps that `wal.Open` cannot make sense of. -/
inductive WalDir where
  | store (s : RaftStore)
  | scraps
deriving DecidableEq

/-- The data directory. -/
structure DataDir where
  /-- `wal` -/
  wal : Option WalDir
  /-- `raft.db` -/
  legacyBolt : Option RaftStore
  /-- `raft.db.migrated` -/
  migratedBolt : Option RaftStore
  /-- `wal.migrating` -/
  migrating : Option WalDir
deriving DecidableEq

/-- The names `HasRaftData` looks for. -/
inductive StoreName where
  | wal
  | legacyBolt
deriving DecidableEq

/-- What `os.Stat` says about a name. -/
inductive Stat where
  | found
  | notExist
  | failed (err : String)
deriving DecidableEq

namespace DataDir

/-- A directory as an older version left it. -/
def legacy (D : RaftStore) : DataDir := ⟨none, some D, none, none⟩

/-- `os.Stat` without I/O errors. -/
def stat (dir : DataDir) : StoreName → Stat
  | .wal => if dir.wal.isSome then .found else .notExist
  | .legacyBolt => if dir.legacyBolt.isSome then .found else .notExist

end DataDir

/-- The loop of `HasRaftData`. -/
def hasRaftDataLoop (stat : StoreName → Stat) : List StoreName → Except String Bool
  | [] => .ok false
  | name :: names =>
    match stat name with
    | .found => .ok true
    | .failed err => .error err
    | .notExist => hasRaftDataLoop stat names

/-- `HasRaftData`. -/
def hasRaftData (stat : StoreName → Stat) : Except String Bool :=
  hasRaftDataLoop stat [.wal, .legacyBolt]

theorem hasRaftData_stat (dir : DataDir) :
    hasRaftData dir.stat = .ok (dir.wal.isSome || dir.legacyBolt.isSome) := by
  rcases dir with ⟨wal, legacyBolt, migratedBolt, migrating⟩
  cases wal <;> cases legacyBolt <;> rfl

/-! ## `NewStorage`, one file operation at a time -/

/-- Where `NewStorage` is. `idle` — no process; `opened` — it has returned success and the node is
running. -/
inductive StoragePc where
  | idle
  -- migrateFromBolt
  | statBolt
  | statWal
  -- copyBoltToWAL
  | removeScratch
  | makeScratch
  | openSrc
  | openDst
  | copyLogs
  | copyStable (keys : List StableKey)
  | closeDst
  | renameScratch
  -- migrateFromBolt again
  | renameBolt
  -- NewStorage
  | makeWal
  | openWal
  | openSnapshots
  | opened
deriving DecidableEq

/-- The operations that write to the scratch directory. -/
def StoragePc.inScratch : StoragePc → Bool
  | removeScratch | makeScratch | openDst | copyLogs | copyStable _ | closeDst => true
  | _ => false

structure Storage where
  dir : DataDir
  pc : StoragePc
deriving DecidableEq

inductive Storage.Act where
  /-- Call `NewStorage`. -/
  | start
  /-- The next operation succeeds. -/
  | next
  /-- The process dies in the next operation, or the operation fails and `NewStorage` returns its
  error; `left` is what the scratch directory holds then, if the operation was at work there. -/
  | abort (left : Option WalDir)
  /-- The running node changes its store. -/
  | write (s : RaftStore)
  /-- The running node stops or dies. -/
  | exit

namespace Storage

/-- The next operation, if it can succeed. `MkdirAll` leaves an existing directory alone, an empty
directory opens as an empty store, and a rename needs its source and a free target. -/
def next (dir : DataDir) : StoragePc → Option Storage
  | .idle | .opened => none
  | .statBolt => some ⟨dir, if dir.legacyBolt.isSome then .statWal else .makeWal⟩
  | .statWal => some ⟨dir, if dir.wal.isSome then .renameBolt else .removeScratch⟩
  | .removeScratch => some ⟨{ dir with migrating := none }, .makeScratch⟩
  | .makeScratch =>
    some ⟨{ dir with migrating := some (dir.migrating.getD (.store .empty)) }, .openSrc⟩
  | .openSrc => some ⟨{ dir with legacyBolt := some (dir.legacyBolt.getD .empty) }, .openDst⟩
  | .openDst =>
    match dir.migrating with
    | some (.store _) => some ⟨dir, .copyLogs⟩
    | _ => none
  | .copyLogs =>
    match dir.legacyBolt, dir.migrating with
    | some src, some (.store dst) =>
      some ⟨{ dir with migrating := some (.store (dst.copyLogs src)) },
        .copyStable RaftStore.stableKeys⟩
    | _, _ => none
  | .copyStable (key :: keys) =>
    match dir.legacyBolt, dir.migrating with
    | some src, some (.store dst) =>
      some ⟨{ dir with migrating := some (.store (dst.copyKey src key)) }, .copyStable keys⟩
    | _, _ => none
  | .copyStable [] =>
    match dir.legacyBolt, dir.migrating with
    | some src, some (.store dst) =>
      some ⟨{ dir with migrating := some (.store (dst.copyVote src)) }, .closeDst⟩
    | _, _ => none
  | .closeDst => some ⟨dir, .renameScratch⟩
  | .renameScratch =>
    match dir.migrating, dir.wal with
    | some scratch, none =>
      some ⟨{ dir with wal := some scratch, migrating := none }, .renameBolt⟩
    | _, _ => none
  | .renameBolt =>
    match dir.legacyBolt with
    | some db => some ⟨{ dir with legacyBolt := none, migratedBolt := some db }, .makeWal⟩
    | none => none
  | .makeWal => some ⟨{ dir with wal := some (dir.wal.getD (.store .empty)) }, .openWal⟩
  | .openWal =>
    match dir.wal with
    | some (.store _) => some ⟨dir, .openSnapshots⟩
    | _ => none
  | .openSnapshots => some ⟨dir, .opened⟩

def step (s : Storage) : Act → Option Storage
  | .start => if s.pc = .idle then some { s with pc := .statBolt } else none
  | .next => next s.dir s.pc
  | .abort left =>
    if s.pc ≠ .idle ∧ s.pc ≠ .opened then
      some ⟨{ s.dir with migrating := if s.pc.inScratch then left else s.dir.migrating }, .idle⟩
    else none
  | .write new => if s.pc = .opened then some { s with dir.wal := some (.store new) } else none
  | .exit => if s.pc = .opened then some { s with pc := .idle } else none

/-- What the node relies on to be stored: the legacy contents, then whatever it wrote last. -/
def written (D : RaftStore) : List Act → RaftStore :=
  List.foldl (fun held a => match a with
    | .write new => new
    | _ => held) D

/-! ## The invariant -/

/-- The contents are in `raft.db`, and the WAL is absent or complete; or `raft.db` is gone and the
WAL holds what was written. -/
def Safe (D held : RaftStore) (dir : DataDir) : Prop :=
  (dir.legacyBolt = some D ∧ held = D ∧ (dir.wal = none ∨ dir.wal = some (.store D))) ∨
    (dir.legacyBolt = none ∧ dir.wal = some (.store held))

/-- What `NewStorage` has established when it gets to an operation. -/
def Stage (D : RaftStore) (dir : DataDir) : StoragePc → Prop
  | .idle | .statBolt => True
  | .statWal => dir.legacyBolt = some D
  | .removeScratch => dir.legacyBolt = some D ∧ dir.wal = none
  | .makeScratch => dir.legacyBolt = some D ∧ dir.wal = none ∧ dir.migrating = none
  | .openSrc | .openDst | .copyLogs =>
    dir.legacyBolt = some D ∧ dir.wal = none ∧ dir.migrating = some (.store .empty)
  | .copyStable keys =>
    dir.legacyBolt = some D ∧ dir.wal = none ∧ keys.Nodup ∧
      ∃ dst, dir.migrating = some (.store dst) ∧ D.Copied keys dst
  | .closeDst | .renameScratch =>
    dir.legacyBolt = some D ∧ dir.wal = none ∧ dir.migrating = some (.store D)
  | .renameBolt => dir.legacyBolt = some D ∧ dir.wal = some (.store D)
  | .makeWal | .openWal | .openSnapshots | .opened => dir.legacyBolt = none

structure Sound (D held : RaftStore) (s : Storage) : Prop where
  safe : Safe D held s.dir
  stage : Stage D s.dir s.pc

section Invariant

variable {D held : RaftStore} {dir dir' : DataDir} {s s' : Storage} {pc : StoragePc}

theorem Safe.of_bolt (h : Safe D held dir) (hbolt : dir.legacyBolt = some D) :
    held = D ∧ (dir.wal = none ∨ dir.wal = some (.store D)) := by
  rcases h with ⟨-, h⟩ | ⟨hnone, -⟩
  · exact h
  · rw [hnone] at hbolt
    cases hbolt

theorem Safe.wal_eq (h : Safe D held dir) (hbolt : dir.legacyBolt = none) :
    dir.wal = some (.store held) := by
  rcases h with ⟨hsome, -⟩ | ⟨-, hwal⟩
  · rw [hsome] at hbolt
    cases hbolt
  · exact hwal

/-- Safety is about `raft.db` and the WAL only. -/
theorem Safe.congr (h : Safe D held dir) (hbolt : dir'.legacyBolt = dir.legacyBolt)
    (hwal : dir'.wal = dir.wal) : Safe D held dir' := by
  rw [Safe, hbolt, hwal]
  exact h

/-- **Every operation of `NewStorage` keeps the invariant.** One case per operation. -/
theorem sound_next (hsafe : Safe D held dir) (hstage : Stage D dir pc)
    (hnext : next dir pc = some s') : Sound D held s' := by
  cases pc with
  | idle | opened => cases hnext
  | statBolt =>
    have hfound : dir.legacyBolt = some D ∨ dir.legacyBolt = none :=
      hsafe.imp And.left And.left
    rcases hfound with hbolt | hbolt
    · rw [next, hbolt] at hnext
      cases hnext
      exact ⟨hsafe, hbolt⟩
    · rw [next, hbolt] at hnext
      cases hnext
      exact ⟨hsafe, hbolt⟩
  | statWal =>
    have hbolt : dir.legacyBolt = some D := hstage
    rcases (hsafe.of_bolt hbolt).2 with hwal | hwal
    · rw [next, hwal] at hnext
      cases hnext
      exact ⟨hsafe, hbolt, hwal⟩
    · rw [next, hwal] at hnext
      cases hnext
      exact ⟨hsafe, hbolt, hwal⟩
  | removeScratch =>
    cases hnext
    exact ⟨hsafe.congr rfl rfl, hstage.1, hstage.2, rfl⟩
  | makeScratch =>
    cases hnext
    obtain ⟨hbolt, hwal, hmig⟩ := hstage
    refine ⟨hsafe.congr rfl rfl, hbolt, hwal, ?_⟩
    show some (dir.migrating.getD _) = _
    rw [hmig]
    rfl
  | openSrc =>
    cases hnext
    obtain ⟨hbolt, hwal, hmig⟩ := hstage
    have hsame : some (dir.legacyBolt.getD .empty) = some D := by
      rw [hbolt]
      rfl
    exact ⟨hsafe.congr (hsame.trans hbolt.symm) rfl, hsame, hwal, hmig⟩
  | openDst =>
    obtain ⟨hbolt, hwal, hmig⟩ := hstage
    simp only [next, hmig] at hnext
    cases hnext
    exact ⟨hsafe, hbolt, hwal, hmig⟩
  | copyLogs =>
    obtain ⟨hbolt, hwal, hmig⟩ := hstage
    simp only [next, hbolt, hmig] at hnext
    cases hnext
    exact ⟨hsafe.congr hbolt.symm rfl, rfl, hwal, by decide, _, rfl, D.copied_copyLogs⟩
  | copyStable keys =>
    obtain ⟨hbolt, hwal, hnodup, dst, hmig, hcopied⟩ := hstage
    cases keys with
    | nil =>
      simp only [next, hbolt, hmig] at hnext
      cases hnext
      refine ⟨hsafe.congr hbolt.symm rfl, rfl, hwal, ?_⟩
      show some (WalDir.store (dst.copyVote D)) = _
      rw [hcopied.copyVote]
    | cons key keys =>
      simp only [next, hbolt, hmig] at hnext
      cases hnext
      obtain ⟨hkey, hrest⟩ := List.nodup_cons.mp hnodup
      exact ⟨hsafe.congr hbolt.symm rfl, rfl, hwal, hrest, _, rfl, hcopied.copyKey hkey⟩
  | closeDst =>
    cases hnext
    exact ⟨hsafe, hstage⟩
  | renameScratch =>
    obtain ⟨hbolt, hwal, hmig⟩ := hstage
    simp only [next, hwal, hmig] at hnext
    cases hnext
    exact ⟨Or.inl ⟨hbolt, (hsafe.of_bolt hbolt).1, Or.inr rfl⟩, hbolt, rfl⟩
  | renameBolt =>
    obtain ⟨hbolt, hwal⟩ := hstage
    simp only [next, hbolt] at hnext
    cases hnext
    -- the last copy of the contents is the one just renamed into place
    refine ⟨Or.inr ⟨rfl, ?_⟩, rfl⟩
    rw [(hsafe.of_bolt hbolt).1]
    exact hwal
  | makeWal =>
    cases hnext
    have hbolt : dir.legacyBolt = none := hstage
    have hwal := hsafe.wal_eq hbolt
    refine ⟨hsafe.congr rfl ?_, hbolt⟩
    show some (dir.wal.getD _) = dir.wal
    rw [hwal]
    rfl
  | openWal =>
    have hwal := hsafe.wal_eq hstage
    simp only [next, hwal] at hnext
    cases hnext
    exact ⟨hsafe, hstage⟩
  | openSnapshots =>
    cases hnext
    exact ⟨hsafe, hstage⟩

/-- So does a process that dies, a node that writes, and a restart. -/
theorem Sound.step {a : Act} (h : Sound D held s) (hstep : step s a = some s') :
    Sound D (written held [a]) s' := by
  cases a with
  | next => exact sound_next h.safe h.stage hstep
  | start =>
    obtain ⟨-, heq⟩ := Option.ite_none_right_eq_some.mp hstep
    cases heq
    exact ⟨h.safe, trivial⟩
  | abort left =>
    obtain ⟨-, heq⟩ := Option.ite_none_right_eq_some.mp hstep
    cases heq
    exact ⟨h.safe.congr rfl rfl, trivial⟩
  | write new =>
    obtain ⟨hpc, heq⟩ := Option.ite_none_right_eq_some.mp hstep
    cases heq
    have hbolt : s.dir.legacyBolt = none := by
      have hstage := h.stage
      rw [hpc] at hstage
      exact hstage
    refine ⟨Or.inr ⟨hbolt, rfl⟩, ?_⟩
    show Stage D _ s.pc
    rw [hpc]
    exact hbolt
  | exit =>
    obtain ⟨-, heq⟩ := Option.ite_none_right_eq_some.mp hstep
    cases heq
    exact ⟨h.safe, trivial⟩

/-- Nothing brings `raft.db` back. -/
theorem Sound.legacyBolt_none {a : Act} (h : Sound D held s) (hnone : s.dir.legacyBolt = none)
    (hstep : Storage.step s a = some s') : s'.dir.legacyBolt = none := by
  cases a with
  | start | abort | write | exit =>
    obtain ⟨-, heq⟩ := Option.ite_none_right_eq_some.mp hstep
    cases heq
    exact hnone
  | next =>
    obtain ⟨dir, pc⟩ := s
    have hstage := h.stage
    cases pc with
    | idle | opened => cases hstep
    | statBolt | makeWal | openSnapshots =>
      cases hstep
      exact hnone
    | openWal =>
      have hwal : dir.wal = some (.store held) := h.safe.wal_eq hnone
      simp only [Storage.step, Storage.next, hwal] at hstep
      cases hstep
      exact hnone
    | statWal => cases hnone.symm.trans hstage
    | removeScratch | makeScratch | openSrc | openDst | copyLogs | copyStable | closeDst
      | renameScratch | renameBolt => cases hnone.symm.trans hstage.1

end Invariant

/-! ## Whole runs -/

section Runs

variable {D : RaftStore} (t : Trace step)

theorem sound_state (hstart : t.start = ⟨.legacy D, .idle⟩) (k : Nat) :
    Sound D (written D (t.acts.take k)) (t.state k) := by
  induction k with
  | zero =>
    rw [t.state_zero, hstart]
    exact ⟨Or.inl ⟨rfl, rfl, Or.inl rfl⟩, trivial⟩
  | succ k ih =>
    rw [List.take_add_one]
    cases ha : t.acts[k]? with
    | none =>
      rw [t.state_of_none ha, Option.toList_none, List.append_nil]
      exact ih
    | some a =>
      have hnext := ih.step (t.step_state ha)
      rw [written, List.foldl_append]
      exact hnext

/-- Once `NewStorage` has succeeded, the WAL holds what was written, for good. -/
theorem wal_of_opened (hstart : t.start = ⟨.legacy D, .idle⟩) {i k : Nat} (hik : i ≤ k)
    (hopened : (t.state i).pc = .opened) :
    (t.state k).dir.wal = some (.store (written D (t.acts.take k))) := by
  have hgone : (t.state i).dir.legacyBolt = none := by
    have hstage := (sound_state t hstart i).stage
    rw [hopened] at hstage
    exact hstage
  refine (sound_state t hstart k).safe.wal_eq ?_
  exact t.invariant_from hik hgone fun j _ _ _ _ _ hstep hnone =>
    (sound_state t hstart j).legacyBolt_none hnone hstep

end Runs

/-- **Crash-safe migration.** Start with nothing but a `raft.db` that holds `D`, and call
`NewStorage` as often as you like, with processes that die at any operation and nodes that write
once they run. Then at every point `raft.db` holds `D`, or the WAL holds `D` with what the nodes
wrote since; the directory is seen to hold Raft data; and from the first success on the WAL holds
exactly that. -/
theorem migration_crash_safe (D : RaftStore) (t : Trace step)
    (hstart : t.start = ⟨.legacy D, .idle⟩) (k : Nat) :
    ((t.state k).dir.legacyBolt = some D ∨
      (t.state k).dir.wal = some (.store (written D (t.acts.take k)))) ∧
    hasRaftData (t.state k).dir.stat = .ok true ∧
    (∀ i ≤ k, (t.state i).pc = .opened →
      (t.state k).dir.wal = some (.store (written D (t.acts.take k)))) := by
  refine ⟨?_, ?_, ?_⟩
  · exact (sound_state t hstart k).safe.imp And.left And.right
  · rw [hasRaftData_stat]
    rcases (sound_state t hstart k).safe with ⟨hbolt, -⟩ | ⟨-, hwal⟩
    · rw [hbolt, Option.isSome_some, Bool.or_true]
    · rw [hwal, Option.isSome_some, Bool.true_or]
  · intro i hik hopened
    exact wal_of_opened t hstart hik hopened

/-- A compacted log of one entry; the node has never voted. -/
def sampleStore : RaftStore := ⟨[⟨3, 1, [7]⟩], some 2, none, none, by decide⟩

/-- The first process dies while it copies the log; the second gets through, its node appends an
entry, and a third finds the WAL in place. -/
def interrupted : Trace step where
  start := ⟨.legacy sampleStore, .idle⟩
  acts := .start :: (List.replicate 6 .next ++ .abort (some .scraps) :: .start ::
    (List.replicate 16 .next ++
      .write ⟨[⟨3, 1, [7]⟩, ⟨4, 2, [8]⟩], some 2, none, none, by decide⟩ ::
      .exit :: .start :: List.replicate 4 .next))
  enabled := rfl

theorem migration_crash_safe_interrupted :
    (interrupted.state 7).pc = .copyLogs ∧ (interrupted.state 25).pc = .opened ∧
      (interrupted.state 25).dir.wal = some (.store sampleStore) ∧
      (interrupted.state 32).pc = .opened ∧
      (interrupted.state 32).dir.wal = some (.store (written sampleStore interrupted.acts)) :=
  have h := migration_crash_safe sampleStore interrupted rfl
  ⟨rfl, rfl, (h 25).2.2 25 (by omega) rfl, rfl, (h 32).2.2 25 (by omega) rfl⟩

end Storage

end Clavis
