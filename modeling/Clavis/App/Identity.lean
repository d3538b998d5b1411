import Clavis.Lib.Trace
import Clavis.Lib.Uuid
import Clavis.Cluster.Storage

/-!
# Clavis — the identity of a data directory

`internal/app/identity.go`. `ResolveNodeID` reads the ID that is kept in the file `node-id`, or
creates the file with a requested or a generated ID. The file is created first and filled
afterwards, and nothing forces it to the disk: a reader may find any part of the line, and a crash
may leave any part of it, even after the call has returned.

Calls are run step by step, each access to the directory being one step, any number of them at the
same time. `one_identity` says that all calls that succeed return the same ID, in whatever state the
directory was found. It rests on two facts: the file is created at most once, since creation is
exclusive, and a part of the line is never taken for another ID (`UuidPackage.parse_take_line`).
UUIDs are those of any package that keeps its documentation (`UuidPackage`).
-/

namespace Clavis

open Lib

variable {U : Type} [DecidableEq U]

/-! ## Reading and parsing -/

/-- How `ResolveNodeID` fails; a cause is the text of the wrapped error. -/
inductive IdentityError (U : Type) where
  | createDir (cause : String)
  | readFile (cause : String)
  | invalidPersisted
  | invalidRequested (cause : String)
  | mismatch (requested stored : U)
  | inspect (cause : String)
  | noPersistedID
  | persist (cause : String)
deriving DecidableEq

/-- The text of an error. -/
def IdentityError.error (P : UuidPackage U) (idPath : String) : IdentityError U → String
  | createDir cause => "create data directory: " ++ cause
  | readFile cause => "read persisted node id: " ++ cause
  | invalidPersisted => "persisted node id in " ++ idPath ++ " is invalid"
  | invalidRequested cause => "invalid node id: " ++ cause
  | mismatch requested stored =>
    "node id " ++ String.ofList (P.string requested) ++ " does not match persisted node id " ++
      String.ofList (P.string stored) ++ " in " ++ idPath
  | inspect cause => "inspect existing Raft data: " ++ cause
  | noPersistedID =>
    "existing Raft data has no persisted node id; restart with --node-id to establish its " ++
      "original identity"
  | persist cause => "persist node id: " ++ cause

/-- `readNodeID` of the file's content, `none` when there is no file. -/
def readNodeID (P : UuidPackage U) : Option (List Char) → Except (IdentityError U) (Option U)
  | none => .ok none
  | some content =>
    match P.parse (trimSpace content) with
    | .error _ => .error .invalidPersisted
    | .ok id => if id = P.nil then .error .invalidPersisted else .ok (some id)

/-- The requested ID, if one is requested. -/
def parseRequested (P : UuidPackage U) (requested : String) :
    Except (IdentityError U) (Option U) :=
  if requested = "" then .ok none
  else match P.parse requested.toList with
    | .error cause => .error (.invalidRequested cause)
    | .ok id =>
      if id = P.nil then .error (.invalidRequested "nil UUID is not allowed")
      else .ok (some id)

/-! ## Calls -/

/-- Where a call is. -/
inductive IdentityPc (U : Type) where
  | mkdir
  /-- about to read `node-id` -/
  | reading
  /-- in `HasRaftData`, with the names it has still to look for -/
  | inspecting (names : List StoreName)
  /-- in `persistNodeID`, about to create the file -/
  | creating (id : U) (generated : Bool)
  /-- has written the first `written` characters of the line -/
  | writing (id : U) (generated : Bool) (written : Nat)
  | closing (id : U) (generated : Bool)
  | returned (result : Except (IdentityError U) (U × Bool))
  /-- the process is gone -/
  | killed

def IdentityPc.isReturned {U : Type} : IdentityPc U → Bool
  | returned _ => true
  | _ => false

structure IdentityCall (U : Type) where
  requested : String
  pc : IdentityPc U

/-- Where the call goes after it has read the file; all of it is local to the call. -/
def afterRead (P : UuidPackage U) (requested : String)
    (read : Except (IdentityError U) (Option U)) : IdentityPc U :=
  match read with
  | .error e => .returned (.error e)
  | .ok stored =>
    match parseRequested P requested with
    | .error e => .returned (.error e)
    | .ok requestedID =>
      match stored, requestedID with
      | some storedID, some requestedID =>
        if requestedID ≠ storedID then .returned (.error (.mismatch requestedID storedID))
        else .returned (.ok (storedID, false))
      | some storedID, none => .returned (.ok (storedID, false))
      | none, some requestedID => .creating requestedID false
      | none, none => .inspecting [.wal, .legacyBolt]

/-- The data directory, with who has created `node-id`, and the calls. -/
structure IdentityDir (U : Type) where
  nodeID : Option (List Char)
  creator : Option (Nat × U)
  raftData : StoreName → Bool
  calls : Nat → Option (IdentityCall U)

namespace IdentityDir

inductive Act (U : Type) where
  | begin (c : Nat) (requested : String)
  | mkdir (c : Nat) (fault : Option String)
  | read (c : Nat) (fault : Option String)
  | stat (c : Nat) (fault : Option String)
  /-- `uuid.New` -/
  | generate (c : Nat) (id : U)
  | create (c : Nat) (fault : Option String)
  /-- the next `n` characters reach the file -/
  | write (c : Nat) (n : Nat)
  | writeFails (c : Nat) (cause : String)
  | close (c : Nat) (fault : Option String)
  /-- one process dies -/
  | kill (c : Nat)
  /-- all processes die, and of what a call has written `n` characters are left -/
  | crash (n : Nat)
  /-- a node stores Raft data -/
  | addRaftData (name : StoreName)
  /-- a node that has migrated to the WAL renames `raft.db` -/
  | moveBolt

/-- Directory as found, without a call. -/
def found (nodeID : Option (List Char)) (raftData : StoreName → Bool) : IdentityDir U :=
  ⟨nodeID, none, raftData, fun _ => none⟩

/-- The directory holds Raft data. -/
def HoldsRaftData (s : IdentityDir U) : Prop :=
  s.raftData .wal = true ∨ s.raftData .legacyBolt = true

def setPc (s : IdentityDir U) (c : Nat) (call : IdentityCall U) (pc : IdentityPc U) :
    IdentityDir U :=
  { s with calls := Function.update s.calls c (some { call with pc := pc }) }

/-- A process dies; a call that has returned has returned. -/
def kill (call : IdentityCall U) : IdentityCall U :=
  match call.pc with
  | .returned _ => call
  | _ => { call with pc := .killed }

/-- `os.Stat` without I/O errors. -/
def stat (s : IdentityDir U) (name : StoreName) : Stat :=
  if s.raftData name then .found else .notExist

/-- A move of the call `c`. -/
def stepCall (P : UuidPackage U) (s : IdentityDir U) (c : Nat) (call : IdentityCall U)
    (a : Act U) : Option (IdentityDir U) :=
  match a, call.pc with
  | .mkdir _ (some cause), .mkdir => some (s.setPc c call (.returned (.error (.createDir cause))))
  | .mkdir _ none, .mkdir => some (s.setPc c call .reading)
  | .read _ (some cause), .reading =>
    some (s.setPc c call (.returned (.error (.readFile cause))))
  -- the file may hold any part of the line that another call is writing
  | .read _ none, .reading =>
    some (s.setPc c call (afterRead P call.requested (readNodeID P s.nodeID)))
  -- the first name that is there ends `HasRaftData`
  | .stat _ fault, .inspecting (name :: names) =>
    match fault.elim (s.stat name) Stat.failed with
    | .failed cause => some (s.setPc c call (.returned (.error (.inspect cause))))
    | .found => some (s.setPc c call (.returned (.error .noPersistedID)))
    | .notExist => some (s.setPc c call (.inspecting names))
  | .generate _ id, .inspecting [] =>
    if id ≠ P.nil then some (s.setPc c call (.creating id true)) else none
  | .create _ (some cause), .creating _ _ =>
    some (s.setPc c call (.returned (.error (.persist cause))))
  | .create _ none, .creating id generated =>
    -- `O_EXCL`
    if s.nodeID = none then
      some ({ s with nodeID := some [], creator := some (c, id) }.setPc c call
        (.writing id generated 0))
    else some (s.setPc c call (.returned (.error (.persist "file exists"))))
  -- one `Fprintln` may reach the file in parts
  | .write _ n, .writing id generated written =>
    some ({ s with nodeID := s.nodeID.map (· ++ ((P.line id).drop written).take n) }.setPc c call
      (if (P.line id).length ≤ written + n then .closing id generated
        else .writing id generated (written + n)))
  | .writeFails _ cause, .writing _ _ _ =>
    some (s.setPc c call (.returned (.error (.persist cause))))
  | .close _ (some cause), .closing _ _ =>
    some (s.setPc c call (.returned (.error (.persist cause))))
  | .close _ none, .closing id generated => some (s.setPc c call (.returned (.ok (id, generated))))
  | .kill _, _ => some { s with calls := Function.update s.calls c (some (kill call)) }
  | _, _ => none

/-- The call that moves. -/
def Act.call : Act U → Option Nat
  | mkdir c _ | read c _ | stat c _ | generate c _ | create c _ | write c _ | writeFails c _
  | close c _ | kill c => some c
  | begin _ _ | crash _ | addRaftData _ | moveBolt => none

def step (P : UuidPackage U) (s : IdentityDir U) (a : Act U) : Option (IdentityDir U) :=
  match a with
  | .begin c requested =>
    if (s.calls c).isNone then
      some { s with calls := Function.update s.calls c (some ⟨requested, .mkdir⟩) }
    else none
  | .crash n =>
    some { s with
      nodeID := if s.creator.isSome then s.nodeID.map (·.take n) else s.nodeID
      calls := fun c => (s.calls c).map kill }
  | .addRaftData name => some { s with raftData := Function.update s.raftData name true }
  | .moveBolt =>
    if s.raftData .wal then
      some { s with raftData := Function.update s.raftData .legacyBolt false }
    else none
  | a => a.call.bind fun c => (s.calls c).bind fun call => s.stepCall P c call a

/-! ## What a move can do -/

variable {P : UuidPackage U}

/-- How a call moves when the directory does not change. -/
inductive PcStep (P : UuidPackage U) (s : IdentityDir U) (call : IdentityCall U) :
    Act U → IdentityPc U → Prop where
  | failed (a : Act U) (e : IdentityError U) (hpc : call.pc.isReturned = false) :
      PcStep P s call a (.returned (.error e))
  | mkdir (c : Nat) (hpc : call.pc = .mkdir) : PcStep P s call (.mkdir c none) .reading
  | read (c : Nat) (hpc : call.pc = .reading) :
      PcStep P s call (.read c none) (afterRead P call.requested (readNodeID P s.nodeID))
  | stat (c : Nat) (name : StoreName) (names : List StoreName)
      (hpc : call.pc = .inspecting (name :: names)) (habsent : s.raftData name = false) :
      PcStep P s call (.stat c none) (.inspecting names)
  | generate (c : Nat) (id : U) (hpc : call.pc = .inspecting []) (hid : id ≠ P.nil) :
      PcStep P s call (.generate c id) (.creating id true)
  | close (c : Nat) (id : U) (generated : Bool) (hpc : call.pc = .closing id generated) :
      PcStep P s call (.close c none) (.returned (.ok (id, generated)))

/-- **What a move can do.** -/
inductive Moved (P : UuidPackage U) (s : IdentityDir U) : Act U → IdentityDir U → Prop where
  | call (a : Act U) (c : Nat) (call : IdentityCall U) (pc : IdentityPc U) (hact : a.call = some c)
      (hcall : s.calls c = some call) (hstep : PcStep P s call a pc) :
      Moved P s a (s.setPc c call pc)
  | created (c : Nat) (call : IdentityCall U) (id : U) (generated : Bool)
      (hcall : s.calls c = some call) (hpc : call.pc = .creating id generated)
      (habsent : s.nodeID = none) :
      Moved P s (.create c none) ({ s with nodeID := some [], creator := some (c, id) }.setPc c call
        (.writing id generated 0))
  | wrote (c n : Nat) (call : IdentityCall U) (id : U) (generated : Bool) (written : Nat)
      (hcall : s.calls c = some call) (hpc : call.pc = .writing id generated written) :
      Moved P s (.write c n)
        ({ s with nodeID := s.nodeID.map (· ++ ((P.line id).drop written).take n) }.setPc c call
          (if (P.line id).length ≤ written + n then .closing id generated
            else .writing id generated (written + n)))
  | killed (c : Nat) (call : IdentityCall U) (hcall : s.calls c = some call) :
      Moved P s (.kill c) { s with calls := Function.update s.calls c (some (kill call)) }
  | began (c : Nat) (requested : String) (hcall : s.calls c = none) :
      Moved P s (.begin c requested)
        { s with calls := Function.update s.calls c (some ⟨requested, .mkdir⟩) }
  | crashed (n : Nat) :
      Moved P s (.crash n)
        { s with
          nodeID := if s.creator.isSome then s.nodeID.map (·.take n) else s.nodeID
          calls := fun c => (s.calls c).map kill }
  | raftData (name : StoreName) :
      Moved P s (.addRaftData name) { s with raftData := Function.update s.raftData name true }
  | movedBolt (hwal : s.raftData .wal = true) :
      Moved P s .moveBolt { s with raftData := Function.update s.raftData .legacyBolt false }

theorem PcStep.isReturned_eq {s : IdentityDir U} {call : IdentityCall U} {a : Act U}
    {pc : IdentityPc U} (h : PcStep P s call a pc) : call.pc.isReturned = false := by
  cases h with
  | failed _ e hpc => exact hpc
  | mkdir c hpc | read c hpc | stat c name names hpc | generate c id hpc | close c id g hpc =>
    rw [hpc]
    rfl

theorem moved_of_stepCall {s s' : IdentityDir U} {c : Nat} {call : IdentityCall U} {a : Act U}
    (hact : a.call = some c) (hcall : s.calls c = some call)
    (hstep : s.stepCall P c call a = some s') : Moved P s a s' := by
  unfold stepCall at hstep
  split at hstep
  · rename_i hpc
    cases hstep
    exact .call _ c call _ hact hcall (.failed _ _ (by rw [hpc]; rfl))
  · rename_i hpc
    cases hstep
    exact .call _ c call _ hact hcall (.mkdir _ hpc)
  · rename_i hpc
    cases hstep
    exact .call _ c call _ hact hcall (.failed _ _ (by rw [hpc]; rfl))
  · rename_i hpc
    cases hstep
    exact .call _ c call _ hact hcall (.read _ hpc)
  · rename_i fault name names hpc
    cases fault with
    | some cause =>
      cases hstep
      exact .call _ c call _ hact hcall (.failed _ _ (by rw [hpc]; rfl))
    | none =>
      simp only [Option.elim_none, IdentityDir.stat] at hstep
      cases hdata : s.raftData name with
      | true =>
        rw [hdata] at hstep
        cases hstep
        exact .call _ c call _ hact hcall (.failed _ _ (by rw [hpc]; rfl))
      | false =>
        rw [hdata] at hstep
        cases hstep
        exact .call _ c call _ hact hcall (.stat _ name names hpc hdata)
  · rename_i id hpc
    obtain ⟨hid, heq⟩ := Option.ite_none_right_eq_some.mp hstep
    cases heq
    exact .call _ c call _ hact hcall (.generate _ id hpc hid)
  · rename_i hpc
    cases hstep
    exact .call _ c call _ hact hcall (.failed _ _ (by rw [hpc]; rfl))
  · rename_i id generated hpc
    split at hstep
    · rename_i habsent
      cases hstep
      cases hact
      exact .created c call id generated hcall hpc habsent
    · cases hstep
      exact .call _ c call _ hact hcall (.failed _ _ (by rw [hpc]; rfl))
  · rename_i n id generated written hpc
    cases hstep
    cases hact
    exact .wrote c n call id generated written hcall hpc
  · rename_i hpc
    cases hstep
    exact .call _ c call _ hact hcall (.failed _ _ (by rw [hpc]; rfl))
  · rename_i hpc
    cases hstep
    exact .call _ c call _ hact hcall (.failed _ _ (by rw [hpc]; rfl))
  · rename_i id generated hpc
    cases hstep
    exact .call _ c call _ hact hcall (.close _ id generated hpc)
  · cases hstep
    cases hact
    exact .killed c call hcall
  · cases hstep

theorem moved_of_step {s s' : IdentityDir U} {a : Act U} (hstep : step P s a = some s') :
    Moved P s a s' := by
  unfold step at hstep
  split at hstep
  · rename_i c requested
    obtain ⟨hnone, heq⟩ := Option.ite_none_right_eq_some.mp hstep
    cases heq
    exact .began c requested (Option.isNone_iff_eq_none.mp hnone)
  · cases hstep
    exact .crashed _
  · cases hstep
    exact .raftData _
  · obtain ⟨hwal, heq⟩ := Option.ite_none_right_eq_some.mp hstep
    cases heq
    exact .movedBolt hwal
  · obtain ⟨c, hact, hrest⟩ := Option.bind_eq_some_iff.mp hstep
    obtain ⟨call, hcall, hmove⟩ := Option.bind_eq_some_iff.mp hrest
    exact moved_of_stepCall hact hcall hmove

/-! ## The invariant -/

/-- `u` is the ID of the directory: that of the call that has created the file, or the one that was
found. -/
def HasIdentity (P : UuidPackage U) (s : IdentityDir U) (u : U) : Prop :=
  u ≠ P.nil ∧
    match s.creator with
    | some (_, v) => u = v
    | none => readNodeID P s.nodeID = .ok (some u)

/-- What is true of a call, by where it is. -/
def CallOk (P : UuidPackage U) (s : IdentityDir U) (c : Nat) : IdentityPc U → Prop
  | .creating id _ => id ≠ P.nil
  | .writing id _ written => s.creator = some (c, id) ∧ s.nodeID = some ((P.line id).take written)
  | .closing id _ => s.creator = some (c, id)
  | .returned (.ok (u, _)) => s.HasIdentity P u
  | _ => True

structure Inv (P : UuidPackage U) (s : IdentityDir U) : Prop where
  created : ∀ c u, s.creator = some (c, u) →
    u ≠ P.nil ∧ ∃ n, s.nodeID = some ((P.line u).take n)
  calls : ∀ c call, s.calls c = some call → s.CallOk P c call.pc

theorem inv_found (nodeID : Option (List Char)) (raftData : StoreName → Bool) :
    (found nodeID raftData).Inv P where
  created := nofun
  calls := nofun

theorem ne_nil_of_readNodeID {file : Option (List Char)} {u : U}
    (h : readNodeID P file = .ok (some u)) : u ≠ P.nil := by
  cases file with
  | none => cases h
  | some content =>
    rw [readNodeID] at h
    split at h
    · cases h
    · split at h
      · cases h
      · rename_i hne
        cases h
        exact hne

theorem parse_of_readNodeID {content : List Char} {u : U}
    (h : readNodeID P (some content) = .ok (some u)) :
    P.parse (trimSpace content) = .ok u := by
  rw [readNodeID] at h
  split at h
  · cases h
  · rename_i id hparse
    split at h
    · cases h
    · cases h
      exact hparse

/-- What is read from the file is the ID of the directory, also while the file is being written. -/
theorem Inv.hasIdentity_of_read {s : IdentityDir U} (h : s.Inv P) {u : U}
    (hread : readNodeID P s.nodeID = .ok (some u)) : s.HasIdentity P u := by
  refine ⟨ne_nil_of_readNodeID hread, ?_⟩
  cases hcreator : s.creator with
  | none => exact hread
  | some created =>
    obtain ⟨c, v⟩ := created
    obtain ⟨-, n, hfile⟩ := h.created c v hcreator
    rw [hfile] at hread
    exact P.parse_take_line (parse_of_readNodeID hread)

/-- A requested ID is not the nil UUID. -/
theorem ne_nil_of_parseRequested {requested : String} {id : U}
    (h : parseRequested P requested = .ok (some id)) : id ≠ P.nil := by
  unfold parseRequested at h
  split at h
  · cases h
  · split at h
    · cases h
    · split at h
      · cases h
      · rename_i hne
        cases h
        exact hne

theorem Inv.callOk_afterRead {s : IdentityDir U} (h : s.Inv P) (c : Nat) (requested : String) :
    s.CallOk P c (afterRead P requested (readNodeID P s.nodeID)) := by
  unfold afterRead
  split
  · trivial
  · rename_i stored hread
    split
    · trivial
    · rename_i requestedID hrequested
      cases stored with
      | some storedID =>
        have hid := h.hasIdentity_of_read hread
        cases requestedID with
        | some requestedID =>
          dsimp only
          split
          · trivial
          · exact hid
        | none => exact hid
      | none =>
        cases requestedID with
        | some requestedID => exact ne_nil_of_parseRequested hrequested
        | none => trivial

/-- A call stays in order when the file and its creator do. -/
theorem CallOk.congr {s s' : IdentityDir U} {c : Nat} {pc : IdentityPc U} (h : s.CallOk P c pc)
    (hfile : s'.nodeID = s.nodeID) (hcreator : s'.creator = s.creator) : s'.CallOk P c pc := by
  cases pc with
  | writing id generated written =>
    rw [CallOk, hfile, hcreator]
    exact h
  | closing id generated =>
    rw [CallOk, hcreator]
    exact h
  | returned result =>
    cases result with
    | error e => trivial
    | ok out =>
      show s'.HasIdentity P out.1
      rw [HasIdentity, hfile, hcreator]
      exact h
  | creating id generated => exact h
  | mkdir | reading | inspecting names | killed => trivial

theorem CallOk.kill {s : IdentityDir U} {c : Nat} {call : IdentityCall U}
    (h : s.CallOk P c call.pc) : s.CallOk P c (IdentityDir.kill call).pc := by
  unfold IdentityDir.kill
  split
  · exact h
  · trivial

/-- While there is no file, no call has written or returned anything. -/
theorem Inv.callOk_created {s s' : IdentityDir U} (h : s.Inv P) (habsent : s.nodeID = none)
    {c : Nat} {pc : IdentityPc U} (hok : s.CallOk P c pc) : s'.CallOk P c pc := by
  cases pc with
  | writing id generated written =>
    obtain ⟨-, hfile⟩ := hok
    rw [habsent] at hfile
    cases hfile
  | closing id generated =>
    obtain ⟨-, n, hfile⟩ := h.created c id hok
    rw [habsent] at hfile
    cases hfile
  | returned result =>
    cases result with
    | error e => trivial
    | ok out =>
      obtain ⟨-, hid⟩ := hok
      cases hcreator : s.creator with
      | some created =>
        obtain ⟨c', v⟩ := created
        obtain ⟨-, n, hfile⟩ := h.created c' v hcreator
        rw [habsent] at hfile
        cases hfile
      | none =>
        rw [hcreator, habsent] at hid
        cases hid
  | creating id generated => exact hok
  | mkdir | reading | inspecting names | killed => trivial

/-- A call that is not writing does not mind that the file grows or is cut off. -/
theorem CallOk.of_creator {s s' : IdentityDir U} {c c' : Nat} {v : U} {pc : IdentityPc U}
    (h : s.CallOk P c' pc) (hs : s.creator = some (c, v)) (hs' : s'.creator = some (c, v))
    (hpc : ∀ id generated written, pc ≠ .writing id generated written) : s'.CallOk P c' pc := by
  cases pc with
  | writing id generated written => exact absurd rfl (hpc id generated written)
  | closing id generated =>
    have hcreator : s.creator = some (c', id) := h
    rw [hs] at hcreator
    rw [CallOk, hs', hcreator]
  | returned result =>
    cases result with
    | error e => trivial
    | ok out =>
      obtain ⟨hne, hid⟩ := h
      rw [hs] at hid
      refine ⟨hne, ?_⟩
      rw [hs']
      exact hid
  | creating id generated => exact h
  | mkdir | reading | inspecting names | killed => trivial

/-- After a crash there are only calls that have returned. -/
theorem CallOk.crash {s : IdentityDir U} {c n : Nat} {call : IdentityCall U}
    (h : s.CallOk P c call.pc) :
    CallOk P { s with
      nodeID := if s.creator.isSome then s.nodeID.map (·.take n) else s.nodeID
      calls := fun c => (s.calls c).map IdentityDir.kill } c (IdentityDir.kill call).pc := by
  cases hcreator : s.creator with
  | none => exact h.kill.congr rfl hcreator.symm
  | some created =>
    refine h.kill.of_creator hcreator rfl ?_
    intro id generated written hwriting
    unfold IdentityDir.kill at hwriting
    split at hwriting
    · rename_i hreturned
      rw [hreturned] at hwriting
      cases hwriting
    · cases hwriting

/-- One call has moved, and the directory has not. -/
theorem Inv.update_call {s : IdentityDir U} (h : s.Inv P) {c : Nat} {new : IdentityCall U}
    (hnew : s.CallOk P c new.pc) :
    Inv P { s with calls := Function.update s.calls c (some new) } := by
  refine ⟨h.created, fun c' call' hcall' => ?_⟩
  rcases update_some_eq_some hcall' with ⟨rfl, rfl⟩ | ⟨-, hold⟩
  · exact hnew.congr rfl rfl
  · exact (h.calls c' call' hold).congr rfl rfl

/-- The creator of the file has written more of its line. -/
theorem Inv.wrote {s : IdentityDir U} (h : s.Inv P) {c n : Nat} {call : IdentityCall U} {id : U}
    {generated : Bool} {written : Nat} (hcall : s.calls c = some call)
    (hpc : call.pc = .writing id generated written) :
    Inv P ({ s with nodeID := s.nodeID.map (· ++ ((P.line id).drop written).take n) }.setPc c call
      (if (P.line id).length ≤ written + n then .closing id generated
        else .writing id generated (written + n))) := by
  have hok := h.calls c call hcall
  rw [hpc] at hok
  obtain ⟨hcreator, hfile⟩ := hok
  -- the writer's offset is the length of the file, so the file stays a part of the line
  have hgrown : s.nodeID.map (· ++ ((P.line id).drop written).take n)
      = some ((P.line id).take (written + n)) := by
    rw [hfile, Option.map_some, List.take_add]
  refine ⟨?_, fun c' call' hcall' => ?_⟩
  · intro c' u hcreator'
    have heq : some (c, id) = some (c', u) := hcreator.symm.trans hcreator'
    cases heq
    exact ⟨(h.created c id hcreator).1, written + n, hgrown⟩
  · rcases update_some_eq_some hcall' with ⟨rfl, rfl⟩ | ⟨hne, hold⟩
    · dsimp only
      split
      · exact hcreator
      · exact ⟨hcreator, hgrown⟩
    · refine (h.calls c' call' hold).of_creator hcreator hcreator ?_
      -- only the creator writes
      intro id' generated' written' hwriting
      have hok' := h.calls c' call' hold
      rw [hwriting] at hok'
      have heq := hok'.1
      rw [hcreator] at heq
      cases heq
      exact hne rfl

/-- **One move keeps the invariant.** -/
theorem Inv.step {s s' : IdentityDir U} {a : Act U} (h : s.Inv P) (hm : Moved P s a s') :
    s'.Inv P := by
  cases hm with
  | call _ c call pc hact hcall hstep =>
    refine h.update_call ?_
    cases hstep with
    | failed | mkdir | stat => trivial
    | read => exact h.callOk_afterRead c call.requested
    | generate _ id _ hid => exact hid
    | close _ id generated hclosing =>
      have hcreator : s.creator = some (c, id) := by
        have hok := h.calls c call hcall
        rw [hclosing] at hok
        exact hok
      refine ⟨(h.created c id hcreator).1, ?_⟩
      rw [hcreator]
  | created c call id generated hcall hpc habsent =>
    have hid : id ≠ P.nil := by
      have hok := h.calls c call hcall
      rw [hpc] at hok
      exact hok
    refine ⟨?_, fun c' call' hcall' => ?_⟩
    · intro c' u hcreator
      cases hcreator
      exact ⟨hid, 0, rfl⟩
    · rcases update_some_eq_some hcall' with ⟨rfl, rfl⟩ | ⟨-, hold⟩
      · exact ⟨rfl, rfl⟩
      · exact h.callOk_created habsent (h.calls c' call' hold)
  | wrote c n call id generated written hcall hpc => exact h.wrote hcall hpc
  | killed c call hcall => exact h.update_call (h.calls c call hcall).kill
  | began c requested hcall => exact h.update_call trivial
  | crashed n =>
    refine ⟨?_, fun c call' hcall' => ?_⟩
    · intro c u hcreator
      obtain ⟨hne, n', hfile⟩ := h.created c u hcreator
      refine ⟨hne, min n n', ?_⟩
      have hsome : s.creator = some (c, u) := hcreator
      show (if s.creator.isSome then s.nodeID.map (·.take n) else s.nodeID) = _
      rw [hsome, Option.isSome_some, if_pos rfl, hfile, Option.map_some, List.take_take]
    · obtain ⟨call, hcall, rfl⟩ := Option.map_eq_some_iff.mp hcall'
      exact (h.calls c call hcall).crash
  | raftData name => exact ⟨h.created, fun c call hcall => (h.calls c call hcall).congr rfl rfl⟩
  | movedBolt _ => exact ⟨h.created, fun c call hcall => (h.calls c call hcall).congr rfl rfl⟩

/-! ## Runs -/

/-- A call has returned. -/
def Returned (s : IdentityDir U) (c : Nat) (result : Except (IdentityError U) (U × Bool)) : Prop :=
  ∃ call, s.calls c = some call ∧ call.pc = .returned result

/-- A call has succeeded with an ID. -/
def Succeeds (s : IdentityDir U) (c : Nat) (u : U) : Prop :=
  ∃ generated, s.Returned c (.ok (u, generated))

/-- What a call has returned stays. -/
theorem Returned.step {s s' : IdentityDir U} {a : Act U} {c : Nat}
    {result : Except (IdentityError U) (U × Bool)} (h : s.Returned c result)
    (hm : Moved P s a s') : s'.Returned c result := by
  obtain ⟨call, hcall, hpc⟩ := h
  -- a call that moves has not returned, so it is another one
  have hother : ∀ {c' : Nat} {call' new : IdentityCall U}, s.calls c' = some call' →
      call'.pc.isReturned = false → Function.update s.calls c' (some new) c = some call := by
    intro c' call' new hcall' hpc'
    have hc : c ≠ c' := by
      rintro rfl
      rw [hcall] at hcall'
      cases hcall'
      rw [hpc] at hpc'
      cases hpc'
    rw [Function.update_of_ne hc, hcall]
  have hkill : kill call = call := by rw [kill, hpc]
  cases hm with
  | call _ c' call' pc hact hcall' hstep =>
    exact ⟨call, hother hcall' hstep.isReturned_eq, hpc⟩
  | created c' call' id generated' hcall' hpc' habsent =>
    exact ⟨call, hother hcall' (by rw [hpc']; rfl), hpc⟩
  | wrote c' n call' id generated' written hcall' hpc' =>
    exact ⟨call, hother hcall' (by rw [hpc']; rfl), hpc⟩
  | killed c' call' hcall' =>
    refine ⟨call, ?_, hpc⟩
    by_cases hc : c = c'
    · subst hc
      rw [hcall] at hcall'
      cases hcall'
      rw [hkill]
      exact Function.update_self ..
    · exact (Function.update_of_ne hc ..).trans hcall
  | began c' requested hnone =>
    refine ⟨call, ?_, hpc⟩
    have hc : c ≠ c' := by
      rintro rfl
      rw [hcall] at hnone
      cases hnone
    exact (Function.update_of_ne hc ..).trans hcall
  | crashed n =>
    refine ⟨call, ?_, hpc⟩
    show (s.calls c).map kill = some call
    rw [hcall, Option.map_some, hkill]
  | raftData name => exact ⟨call, hcall, hpc⟩
  | movedBolt _ => exact ⟨call, hcall, hpc⟩

/-! ### Looking for Raft data -/

/-- The next name that the call looks for. -/
def LooksFor (s : IdentityDir U) (c : Nat) (name : StoreName) : Prop :=
  ∃ call names, s.calls c = some call ∧ call.pc = .inspecting (name :: names)

/-- The call is in `HasRaftData` and done with a name. -/
def LookedPast (s : IdentityDir U) (c : Nat) (name : StoreName) : Prop :=
  ∃ call names, s.calls c = some call ∧ call.pc = .inspecting names ∧ name ∉ names

theorem names_of_afterRead {requested : String} {read : Except (IdentityError U) (Option U)}
    {names : List StoreName} (h : afterRead P requested read = .inspecting names) :
    names = [.wal, .legacyBolt] := by
  unfold afterRead at h
  split at h
  · cases h
  · split at h
    · cases h
    · split at h
      · split at h <;> cases h
      · cases h
      · cases h
      · cases h
        rfl

omit [DecidableEq U] in
theorem kill_ne_inspecting (call : IdentityCall U) (names : List StoreName) :
    (kill call).pc ≠ .inspecting names := by
  intro h
  unfold kill at h
  split at h
  · rename_i hreturned
    rw [hreturned] at h
    cases h
  · cases h

/-- How a call gets into `HasRaftData`, and on there. -/
theorem PcStep.inspecting {s : IdentityDir U} {call : IdentityCall U} {a : Act U}
    {names : List StoreName} (h : PcStep P s call a (.inspecting names)) :
    names = [.wal, .legacyBolt] ∨
      ∃ c name, a = .stat c none ∧ call.pc = .inspecting (name :: names) ∧
        s.raftData name = false := by
  generalize hpc : IdentityPc.inspecting names = pc at h
  cases h with
  | failed | mkdir | generate | close => cases hpc
  | read c _ => exact Or.inl (names_of_afterRead hpc.symm)
  | stat c name names' hinspecting habsent =>
    cases hpc
    exact Or.inr ⟨c, name, rfl, hinspecting, habsent⟩

/-- **A name is done with only when it was looked for and was not there.** -/
theorem Moved.looked {s s' : IdentityDir U} {a : Act U} {c : Nat} {name : StoreName}
    (hm : Moved P s a s') (hnot : ¬ s.LookedPast c name) (h : s'.LookedPast c name) :
    a = .stat c none ∧ s.LooksFor c name ∧ s.raftData name = false := by
  obtain ⟨call, names, hcall, hpc, hname⟩ := h
  -- a call that did not move would have been done with the name before
  have hkept : s.calls c ≠ some call := fun hold => hnot ⟨call, names, hold, hpc, hname⟩
  cases hm with
  | call _ c' call' pc hact hcall' hstep =>
    rcases update_some_eq_some hcall with ⟨rfl, rfl⟩ | ⟨-, hold⟩
    · cases hpc
      rcases hstep.inspecting with rfl | ⟨c', name', rfl, hinspecting, habsent⟩
      · cases name <;> simp at hname
      · cases hact
        by_cases hsame : name = name'
        · exact ⟨rfl, ⟨call', names, hcall', hsame ▸ hinspecting⟩, hsame ▸ habsent⟩
        · exact absurd ⟨call', _, hcall', hinspecting, by simp [hsame, hname]⟩ hnot
    · exact absurd hold hkept
  | created c' call' id generated hcall' hpc' habsent =>
    rcases update_some_eq_some hcall with ⟨rfl, rfl⟩ | ⟨-, hold⟩
    · cases hpc
    · exact absurd hold hkept
  | wrote c' n call' id generated written hcall' hpc' =>
    rcases update_some_eq_some hcall with ⟨rfl, rfl⟩ | ⟨-, hold⟩
    · dsimp only at hpc
      split at hpc <;> cases hpc
    · exact absurd hold hkept
  | killed c' call' hcall' =>
    rcases update_some_eq_some hcall with ⟨rfl, rfl⟩ | ⟨-, hold⟩
    · exact absurd hpc (kill_ne_inspecting call' names)
    · exact absurd hold hkept
  | began c' requested hnone =>
    rcases update_some_eq_some hcall with ⟨rfl, rfl⟩ | ⟨-, hold⟩
    · cases hpc
    · exact absurd hold hkept
  | crashed n =>
    obtain ⟨call', -, rfl⟩ := Option.map_eq_some_iff.mp hcall
    exact absurd hpc (kill_ne_inspecting call' names)
  | raftData name' => exact absurd hcall hkept
  | movedBolt _ => exact absurd hcall hkept

/-- A call that finds a name returns an error. -/
theorem returned_of_stat {s s' : IdentityDir U} {c : Nat} {fault : Option String}
    {name : StoreName} (hstep : step P s (.stat c fault) = some s') (hlooks : s.LooksFor c name)
    (hpresent : s.raftData name = true) : ∃ e, s'.Returned c (.error e) := by
  obtain ⟨call, names, hcall, hpc⟩ := hlooks
  have hmove : s.stepCall P c call (.stat c fault) = some s' := by
    simpa [step, Act.call, hcall] using hstep
  cases fault with
  | some cause =>
    simp only [stepCall, hpc, Option.elim_some] at hmove
    cases hmove
    exact ⟨_, _, Function.update_self .., rfl⟩
  | none =>
    simp only [stepCall, hpc, Option.elim_none, stat, hpresent, if_true] at hmove
    cases hmove
    exact ⟨_, _, Function.update_self .., rfl⟩

/-- A call for which Raft data is there: of the names it has still to look for, one is there. -/
def Informed (s : IdentityDir U) (c : Nat) : Prop :=
  s.HoldsRaftData ∧ ∃ call, s.calls c = some call ∧
    ∀ names, call.pc = .inspecting names → ∃ name ∈ names, s.raftData name = true

/-- What the next `stat`s of an informed call will find. -/
theorem PcStep.informed {s : IdentityDir U} {call : IdentityCall U} {a : Act U}
    {names : List StoreName} (h : PcStep P s call a (.inspecting names)) (hdata : s.HoldsRaftData)
    (hleft : ∀ names, call.pc = .inspecting names → ∃ name ∈ names, s.raftData name = true) :
    ∃ name ∈ names, s.raftData name = true := by
  rcases h.inspecting with rfl | ⟨c, name, -, hinspecting, habsent⟩
  · rcases hdata with hwal | hbolt
    · exact ⟨.wal, List.mem_cons_self, hwal⟩
    · exact ⟨.legacyBolt, List.mem_cons_of_mem _ List.mem_cons_self, hbolt⟩
  · obtain ⟨name', hmem, hpresent⟩ := hleft (name :: names) hinspecting
    rcases List.mem_cons.mp hmem with rfl | htail
    · rw [habsent] at hpresent
      cases hpresent
    · exact ⟨name', htail, hpresent⟩

theorem Informed.step {s s' : IdentityDir U} {a : Act U} {c : Nat} (h : s.Informed c)
    (hm : Moved P s a s') (hkept : a ≠ .moveBolt) : s'.Informed c := by
  obtain ⟨hdata, call, hcall, hleft⟩ := h
  -- the move writes another call's entry, or one that is not about to look for anything
  have hupdate : ∀ {c' : Nat} (new : IdentityCall U),
      (c = c' → ∀ names, new.pc = .inspecting names → ∃ name ∈ names, s.raftData name = true) →
      ∃ call', Function.update s.calls c' (some new) c = some call' ∧
        ∀ names, call'.pc = .inspecting names → ∃ name ∈ names, s.raftData name = true := by
    intro c' new hnew
    by_cases hc : c = c'
    · exact ⟨new, by rw [hc, Function.update_self], hnew hc⟩
    · exact ⟨call, by rw [Function.update_of_ne hc, hcall], hleft⟩
  cases hm with
  | call _ c' call' pc hact hcall' hstep =>
    refine ⟨hdata, hupdate _ ?_⟩
    rintro rfl names hpc
    rw [hcall] at hcall'
    cases hcall'
    cases hpc
    exact hstep.informed hdata hleft
  | created c' call' id generated hcall' hpc habsent =>
    refine ⟨hdata, hupdate _ ?_⟩
    intro _ names hinspecting
    cases hinspecting
  | wrote c' n call' id generated written hcall' hpc =>
    refine ⟨hdata, hupdate _ ?_⟩
    intro _ names hinspecting
    dsimp only at hinspecting
    split at hinspecting <;> cases hinspecting
  | killed c' call' hcall' =>
    exact ⟨hdata, hupdate _ fun _ names h => absurd h (kill_ne_inspecting call' names)⟩
  | began c' requested hnone =>
    refine ⟨hdata, hupdate _ ?_⟩
    intro _ names hinspecting
    cases hinspecting
  | crashed n =>
    refine ⟨hdata, kill call, ?_, fun names h => absurd h (kill_ne_inspecting call names)⟩
    show (s.calls c).map kill = some (kill call)
    rw [hcall, Option.map_some]
  | raftData name =>
    have hmono : ∀ name', s.raftData name' = true →
        Function.update s.raftData name true name' = true := by
      intro name' hpresent
      by_cases hname : name' = name
      · rw [hname, Function.update_self]
      · rw [Function.update_of_ne hname, hpresent]
    refine ⟨hdata.imp (hmono _) (hmono _), call, hcall, fun names hpc => ?_⟩
    obtain ⟨name', hmem, hpresent⟩ := hleft names hpc
    exact ⟨name', hmem, hmono name' hpresent⟩
  | movedBolt _ => exact absurd rfl hkept

/-- An ID is generated after all names were looked for. -/
theorem pc_of_generate {s s' : IdentityDir U} {c : Nat} {id : U}
    (hstep : step P s (.generate c id) = some s') :
    ∃ call, s.calls c = some call ∧ call.pc = .inspecting [] := by
  obtain ⟨call, hcall, hmove⟩ := Option.bind_eq_some_iff.mp hstep
  refine ⟨call, hcall, ?_⟩
  cases hpc : call.pc with
  | inspecting names =>
    cases names with
    | nil => rfl
    | cons name names => simp [stepCall, hpc] at hmove
  | _ => simp [stepCall, hpc] at hmove

/-- A directory has one ID. -/
theorem HasIdentity.unique {s : IdentityDir U} {u u' : U} (h : s.HasIdentity P u)
    (h' : s.HasIdentity P u') : u = u' := by
  obtain ⟨-, hid⟩ := h
  obtain ⟨-, hid'⟩ := h'
  cases hcreator : s.creator with
  | some created =>
    rw [hcreator] at hid hid'
    exact hid.trans hid'.symm
  | none =>
    rw [hcreator] at hid hid'
    rw [hid] at hid'
    cases hid'
    rfl

section Run

variable {t : Trace (step P)} {nodeID : Option (List Char)} {raftData : StoreName → Bool}

theorem inv_state (hstart : t.start = found nodeID raftData) (k : Nat) : (t.state k).Inv P := by
  refine t.invariant (I := Inv P) ?_ (fun _ _ _ hstep hI => hI.step (moved_of_step hstep)) k
  rw [hstart]
  exact inv_found nodeID raftData

theorem returned_state {i k c : Nat} {result : Except (IdentityError U) (U × Bool)} (hik : i ≤ k)
    (h : (t.state i).Returned c result) : (t.state k).Returned c result :=
  t.invariant_from (I := fun s => s.Returned c result) hik h
    fun _ _ _ _ _ _ hstep hI => hI.step (moved_of_step hstep)

/-- A call that succeeds has the ID of the directory, also of the directory later. -/
theorem hasIdentity_state (hstart : t.start = found nodeID raftData) {i k c : Nat} {u : U}
    (hik : i ≤ k) (h : (t.state i).Succeeds c u) : (t.state k).HasIdentity P u := by
  obtain ⟨generated, hsucceeds⟩ := h
  obtain ⟨call, hcall, hpc⟩ := returned_state hik hsucceeds
  have hok := (inv_state hstart k).calls c call hcall
  rw [hpc] at hok
  exact hok

/-- A call that generates an ID is done with every name. -/
theorem lookedPast_of_generate {j c : Nat} {id : U} (h : t.acts[j]? = some (.generate c id))
    (name : StoreName) : (t.state j).LookedPast c name := by
  obtain ⟨call, hcall, hpc⟩ := pc_of_generate (t.step_state h)
  exact ⟨call, [], hcall, hpc, List.not_mem_nil⟩

/-- What `Informed` is for. -/
theorem not_generate_of_informed {j c : Nat} (h : (t.state j).Informed c) (id : U) :
    t.acts[j]? ≠ some (.generate c id) := by
  intro hgenerate
  obtain ⟨-, call, hcall, hleft⟩ := h
  obtain ⟨call', hcall', hpc⟩ := pc_of_generate (t.step_state hgenerate)
  rw [hcall] at hcall'
  cases hcall'
  obtain ⟨name, hmem, -⟩ := hleft [] hpc
  cases hmem

/-- A call that begins when there is Raft data is informed from then on. -/
theorem informed_state {i j c : Nat} {requested : String}
    (hbegin : t.acts[i]? = some (.begin c requested)) (hdata : (t.state i).HoldsRaftData)
    (hkept : ∀ k < j, i < k → t.acts[k]? ≠ some .moveBolt) (hij : i < j) :
    (t.state j).Informed c := by
  refine t.invariant_from (I := fun s => s.Informed c) hij ?_ ?_
  · obtain ⟨-, heq⟩ := Option.ite_none_right_eq_some.mp (t.step_state hbegin)
    rw [← Option.some.inj heq]
    exact ⟨hdata, _, Function.update_self .., fun names h => nomatch h⟩
  · intro k a s' hik hkj ha hstep hI
    exact hI.step (moved_of_step hstep) fun hmove => hkept k hkj hik (hmove ▸ ha)

end Run

/-- **A data directory has one identity.** However it was found, whatever is requested, and however
the calls interleave, fail and are cut off: all calls that succeed return the same ID, which is not
the nil UUID. A call generates an ID only after it has looked for each of the two names when it was
not there; one that looks for a name that is there never does, nor does one that begins when the
directory holds Raft data, unless `raft.db` is renamed meanwhile. -/
theorem one_identity (P : UuidPackage U) (t : Trace (step P)) {nodeID : Option (List Char)}
    {raftData : StoreName → Bool} (hstart : t.start = found nodeID raftData) :
    (∀ k k' c c' u u', (t.state k).Succeeds c u → (t.state k').Succeeds c' u' →
      u = u' ∧ u ≠ P.nil) ∧
    (∀ j c id name, t.acts[j]? = some (.generate c id) →
      ∃ i < j, t.acts[i]? = some (.stat c none) ∧ (t.state i).LooksFor c name ∧
        (t.state i).raftData name = false) ∧
    (∀ i j c fault id name, t.acts[i]? = some (.stat c fault) → (t.state i).LooksFor c name →
      (t.state i).raftData name = true → i < j → t.acts[j]? ≠ some (.generate c id)) ∧
    ∀ i j c requested id, t.acts[i]? = some (.begin c requested) → (t.state i).HoldsRaftData →
      (∀ k < j, i < k → t.acts[k]? ≠ some .moveBolt) → i < j →
      t.acts[j]? ≠ some (.generate c id) := by
  refine ⟨?_, ?_, ?_, ?_⟩
  · intro k k' c c' u u' h h'
    have hlast := hasIdentity_state hstart (Nat.le_max_left k k') h
    have hlast' := hasIdentity_state hstart (Nat.le_max_right k k') h'
    exact ⟨hlast.unique hlast', hlast.1⟩
  · intro j c id name hgenerate
    have hnot : ¬ (t.state 0).LookedPast c name := by
      rintro ⟨call', names, hcall', -⟩
      rw [Trace.state_zero, hstart] at hcall'
      cases hcall'
    -- the step at which the call was done with the name
    obtain ⟨i, a, -, hij, ha, hbefore, hafter⟩ := t.exists_change
      (P := fun s => s.LookedPast c name) (Nat.zero_le j) hnot
      (lookedPast_of_generate hgenerate name)
    obtain ⟨rfl, hlooks, habsent⟩ := (moved_of_step (t.step_state ha)).looked hbefore hafter
    exact ⟨i, hij, ha, hlooks, habsent⟩
  · intro i j c fault id name hstat hlooks hpresent hij hgenerate
    obtain ⟨e, hfailed⟩ := returned_of_stat (t.step_state hstat) hlooks hpresent
    obtain ⟨call, hcall, hpc⟩ := returned_state hij hfailed
    obtain ⟨call', names, hcall', hpc', -⟩ := lookedPast_of_generate hgenerate name
    rw [hcall] at hcall'
    cases hcall'
    rw [hpc] at hpc'
    cases hpc'
  · intro i j c requested id hbegin hdata hkept hij
    exact not_generate_of_informed (informed_state hbegin hdata hkept hij) id

/-! ### A race -/

/-- The text of one of three UUIDs. -/
def sampleString (u : Fin 3) : List Char :=
  "00000000-0000-0000-0000-00000000000".toList ++ [Char.ofNat (48 + u.val)]

/-- A package of three UUIDs that reads their texts only. -/
def sample : UuidPackage (Fin 3) where
  nil := 0
  string := sampleString
  parse := fun s =>
    match [0, 1, 2].find? (fun u => sampleString u = s) with
    | some u => .ok u
    | none => .error "invalid UUID format"
  standard_string := by decide
  parse_string := by decide
  form_of_parse := by
    intro s u h
    split at h
    · rename_i v hfind
      have hs : sampleString v = s := by
        have htext := List.find?_some hfind
        simpa using htext
      have hstd : ∀ v, Standard (sampleString v) := by decide
      exact hs ▸ .standard (hstd v)
    · cases h

/-- Call 0 creates the file while call 1, which has generated another ID, is about to; call 2 reads
a part of the line, and after a crash that leaves the line without its end call 3 reads it. -/
def raced : Trace (step sample) where
  start := found none fun _ => false
  acts := [.begin 0 (String.ofList (sampleString 1)), .begin 1 "", .mkdir 0 none, .mkdir 1 none,
    .read 0 none, .read 1 none, .stat 1 none, .stat 1 none, .generate 1 2,
    .create 0 none, .write 0 32, .create 1 none, .begin 2 "", .mkdir 2 none, .read 2 none,
    .write 0 5, .close 0 none, .addRaftData .wal, .crash 36, .begin 3 "", .mkdir 3 none,
    .read 3 none]
  enabled := by decide

theorem one_identity_raced :
    (raced.state 17).Succeeds 0 1 ∧ (raced.state 22).Succeeds 3 1 ∧ (1 : Fin 3) ≠ sample.nil ∧
      ∃ i < 8, raced.acts[i]? = some (.stat 1 none) ∧ (raced.state i).LooksFor 1 .legacyBolt := by
  have hfirst : (raced.state 17).Succeeds 0 1 := ⟨_, _, rfl, rfl⟩
  have hlast : (raced.state 22).Succeeds 3 1 := ⟨_, _, rfl, rfl⟩
  obtain ⟨hsame, hlooked, -⟩ := one_identity sample raced rfl
  obtain ⟨i, hi, hstat, hlooks, -⟩ := hlooked 8 1 2 .legacyBolt rfl
  exact ⟨hfirst, hlast, (hsame 17 22 0 3 _ _ hfirst hlast).2, i, hi, hstat, hlooks⟩

end IdentityDir

end Clavis
