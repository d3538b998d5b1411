import Clavis.State.Invariants

/-!
# Clavis — membership changes

`internal/cluster/member.go`. Adding or removing a member is two replicated commands: a change of
the Raft configuration and an endpoint command for the state machine. Either may fail, and a failed
one may nevertheless have been committed (`Fate`), so a call can end with the configuration changed
and the endpoint map as it was. `AddClusterMember` recognises its own half-finished work, since it
looks for the very entry that it adds; `RemoveClusterMember` looks for the entry that it removes,
and a repeated call finds nothing to do (`retry_completes_iff`).

Of the Raft library the model has what the calls rest on: `AddVoter` and `RemoveServer` commit the
change or leave the configuration as it is, and a `Configuration` has no two servers with one ID or
one address.
-/

namespace Clavis

open Machine

/-! ## The Raft configuration -/

inductive Suffrage where
  | voter
  | nonvoter
  | staging
deriving DecidableEq

/-- `raft.Server`. -/
structure RaftServer where
  suffrage : Suffrage
  id : String
  address : String
deriving DecidableEq

/-- `raft.Configuration`. -/
structure Configuration where
  servers : List RaftServer
  ids_nodup : (servers.map RaftServer.id).Nodup
  addresses_nodup : (servers.map RaftServer.address).Nodup
deriving DecidableEq

/-- What `AddVoter` makes of the server list: a voter with this ID and address, in the place of the
server with this ID if there is one. -/
def withVoter (id address : String) : List RaftServer → List RaftServer
  | [] => [⟨.voter, id, address⟩]
  | server :: servers =>
    if server.id = id then ⟨.voter, id, address⟩ :: servers
    else server :: withVoter id address servers

/-- What `RemoveServer` makes of it. -/
def withoutServer (id : String) (servers : List RaftServer) : List RaftServer :=
  servers.eraseP fun server => decide (server.id = id)

namespace Configuration

/-- `AddVoter`; `none` when the address belongs to another server. -/
def addVoter (c : Configuration) (id address : String) : Option Configuration :=
  if h : ((withVoter id address c.servers).map RaftServer.id).Nodup ∧
      ((withVoter id address c.servers).map RaftServer.address).Nodup then
    some ⟨withVoter id address c.servers, h.1, h.2⟩
  else none

theorem withoutServer_sublist (id : String) (servers : List RaftServer) :
    (withoutServer id servers).Sublist servers :=
  List.eraseP_sublist

/-- `RemoveServer`. -/
def removeServer (c : Configuration) (id : String) : Configuration where
  servers := withoutServer id c.servers
  ids_nodup := c.ids_nodup.sublist ((withoutServer_sublist id c.servers).map _)
  addresses_nodup := c.addresses_nodup.sublist ((withoutServer_sublist id c.servers).map _)

end Configuration

/-! ## The calls -/

/-- `domain.ClusterMember`. -/
structure ClusterMember where
  nodeID : String
  raftAddress : String
  grpcAddress : String
deriving DecidableEq

/-- How a call fails; a cause is the text of the wrapped error. -/
inductive MemberError where
  | cannotAdd
  | cannotRemove
  | incomplete
  | readConfig (cause : String)
  | addressInUse (raftAddress serverID nodeID : String)
  | addVoter (cause : String)
  | removeServer (cause : String)
  | replicateEndpoint (cause : String)
  | removeEndpoint (cause : String)
  | domain (e : DomainError)
deriving DecidableEq

/-- The text of an error. -/
def MemberError.error : MemberError → String
  | cannotAdd => "cannot add cluster member: node is not the leader"
  | cannotRemove => "cannot remove cluster member: node is not the leader"
  | incomplete => "cluster member metadata is incomplete"
  | readConfig cause => "failed to read cluster config: " ++ cause
  | addressInUse raftAddress serverID nodeID =>
    "raft address " ++ raftAddress ++ " is already in use by node " ++ serverID ++
      "; remove it before adding node " ++ nodeID
  | addVoter cause => "failed to add voter: " ++ cause
  | removeServer cause => "failed to remove server: " ++ cause
  | replicateEndpoint cause => "replicate endpoint metadata: " ++ cause
  | removeEndpoint cause => "remove endpoint metadata: " ++ cause
  | domain e => e.error

/-- What becomes of a command handed to Raft. A failed one, for instance because leadership is lost
before the answer, may have been committed all the same. -/
inductive Fate where
  | done
  | failed (cause : String) (committed : Bool)
deriving DecidableEq

/-- The circumstances of one call. -/
structure Circumstances where
  isLeader : Bool
  /-- the error of `GetConfiguration`, if any -/
  configError : Option String
  change : Fate
  endpoint : Fate
deriving DecidableEq

/-- On a leader, without failures. -/
def undisturbed : Circumstances := ⟨true, none, .done, .done⟩

/-- What the cluster has replicated. -/
structure Membership where
  config : Configuration
  fsm : Machine

/-- What a call leaves and returns, with whether its configuration change and its endpoint command
were committed. -/
structure MemberCall where
  state : Membership
  result : Except MemberError Unit
  changed : Bool
  replicated : Bool

/-- A call that ends before its first command. -/
def Membership.refuse (s : Membership) (e : MemberError) : MemberCall := ⟨s, .error e, false, false⟩

/-- `Node.Apply` of an endpoint command at the end of a call, with the caller's wrapping of the
error. -/
def Membership.applyEndpoint (s : Membership) (fate : Fate) (cmd : CommandWrapper)
    (wrap : String → MemberError) (changed : Bool) : MemberCall :=
  match fate with
  | .done =>
    { state := { s with fsm := s.fsm.next cmd }
      result := match s.fsm.result cmd with
        | .error e => .error (wrap e.error)
        | .ok _ => .ok ()
      changed := changed
      replicated := true }
  | .failed cause committed =>
    { state := if committed then { s with fsm := s.fsm.next cmd } else s
      result := .error (wrap ("failed to apply command: " ++ cause))
      changed := changed
      replicated := committed }

def Membership.upsertEndpointMetadata (s : Membership) (fate : Fate) (member : ClusterMember)
    (changed : Bool) : MemberCall :=
  s.applyEndpoint fate (newUpsertEndpointCmd member.nodeID member.grpcAddress) .replicateEndpoint
    changed

def Membership.removeEndpointMetadata (s : Membership) (fate : Fate) (nodeID : String)
    (changed : Bool) : MemberCall :=
  s.applyEndpoint fate (newRemoveEndpointCmd nodeID) .removeEndpoint changed

/-- What `AddClusterMember` finds in the configuration. -/
inductive Found where
  /-- the member, as a voter with its address -/
  | member
  /-- another server with the address -/
  | address (serverID : String)
  | neither
deriving DecidableEq

/-- The loop of `AddClusterMember`. -/
def findMember (member : ClusterMember) : List RaftServer → Found
  | [] => .neither
  | server :: servers =>
    if server.id = member.nodeID then
      if server.address = member.raftAddress ∧ server.suffrage = .voter then .member
      else .neither
    else if server.address = member.raftAddress ∧ server.id ≠ member.nodeID then
      .address server.id
    else findMember member servers

namespace Membership

def addClusterMember (s : Membership) (cond : Circumstances) (member : ClusterMember) :
    MemberCall :=
  if !cond.isLeader then s.refuse .cannotAdd
  else if member.nodeID = "" ∨ member.raftAddress = "" ∨ member.grpcAddress = "" then
    s.refuse .incomplete
  else match cond.configError with
  | some cause => s.refuse (.readConfig cause)
  | none =>
    match findMember member s.config.servers with
    | .member => s.upsertEndpointMetadata cond.endpoint member false
    | .address serverID =>
      s.refuse (.addressInUse member.raftAddress serverID member.nodeID)
    | .neither =>
      match s.config.addVoter member.nodeID member.raftAddress with
      | none =>
        s.refuse (.addVoter ("found duplicate address in configuration: " ++ member.raftAddress))
      | some config =>
        match cond.change with
        | .failed cause committed =>
          ⟨if committed then { s with config := config } else s, .error (.addVoter cause),
            committed, false⟩
        | .done =>
          { s with config := config }.upsertEndpointMetadata cond.endpoint member true

def removeClusterMember (s : Membership) (cond : Circumstances) (nodeID : String) : MemberCall :=
  if !cond.isLeader then s.refuse .cannotRemove
  else match cond.configError with
  | some cause => s.refuse (.readConfig cause)
  | none =>
    if !s.config.servers.any fun server => decide (server.id = nodeID) then
      s.refuse (.domain .nodeNotFound)
    else
      match cond.change with
      | .failed cause committed =>
        ⟨if committed then { s with config := s.config.removeServer nodeID } else s,
          .error (.removeServer cause), committed, false⟩
      | .done =>
        { s with config := s.config.removeServer nodeID }.removeEndpointMetadata cond.endpoint
          nodeID true

end Membership

/-- A membership change. -/
inductive MemberOp where
  | add (member : ClusterMember)
  | remove (nodeID : String)
deriving DecidableEq

namespace MemberOp

def isAdd : MemberOp → Bool
  | add _ => true
  | remove _ => false

/-- Make the change. -/
def call (op : MemberOp) (s : Membership) (cond : Circumstances) : MemberCall :=
  match op with
  | add member => s.addClusterMember cond member
  | remove nodeID => s.removeClusterMember cond nodeID

/-- The call fails after its configuration change was committed and before its endpoint command
is. -/
def HalfDone (op : MemberOp) (s : Membership) (cond : Circumstances) : Prop :=
  (op.call s cond).changed = true ∧ (op.call s cond).replicated = false

instance (op : MemberOp) (s : Membership) (cond : Circumstances) :
    Decidable (op.HalfDone s cond) :=
  inferInstanceAs (Decidable (_ ∧ _))

/-- The same call, made again without failures, returns nil and leaves what the call would have
left had it not been disturbed. -/
def CompletedByRetry (op : MemberOp) (s : Membership) (cond : Circumstances) : Prop :=
  (op.call (op.call s cond).state undisturbed).result = .ok () ∧
    (op.call (op.call s cond).state undisturbed).state = (op.call s undisturbed).state

end MemberOp

/-! ## What a half-done call leaves -/

theorem mem_withVoter (id address : String) (servers : List RaftServer) :
    ⟨.voter, id, address⟩ ∈ withVoter id address servers := by
  induction servers with
  | nil => exact List.mem_singleton.mpr rfl
  | cons server servers ih =>
    rw [withVoter]
    split
    · exact List.mem_cons_self
    · exact List.mem_cons_of_mem server ih

/-- The loop finds a voter that is there, since no other server has its ID or its address. -/
theorem findMember_of_mem {member : ClusterMember} {servers : List RaftServer}
    (hids : (servers.map RaftServer.id).Nodup)
    (haddresses : (servers.map RaftServer.address).Nodup)
    (hmem : ⟨.voter, member.nodeID, member.raftAddress⟩ ∈ servers) :
    findMember member servers = .member := by
  induction servers with
  | nil => cases hmem
  | cons server servers ih =>
    rw [List.map_cons, List.nodup_cons] at hids haddresses
    rcases List.mem_cons.mp hmem with rfl | htail
    · simp [findMember]
    · have hid : server.id ≠ member.nodeID := fun heq =>
        hids.1 (heq ▸ List.mem_map_of_mem (f := RaftServer.id) htail)
      have haddress : server.address ≠ member.raftAddress := fun heq =>
        haddresses.1 (heq ▸ List.mem_map_of_mem (f := RaftServer.address) htail)
      rw [findMember, if_neg hid, if_neg fun h => haddress h.1]
      exact ih hids.2 haddresses.2 htail

/-- A removed server is not found again. -/
theorem any_withoutServer {id : String} {servers : List RaftServer}
    (hids : (servers.map RaftServer.id).Nodup) :
    (withoutServer id servers).any (fun server => decide (server.id = id)) = false := by
  induction servers with
  | nil => rfl
  | cons server servers ih =>
    rw [List.map_cons, List.nodup_cons] at hids
    by_cases hid : server.id = id
    · rw [withoutServer, List.eraseP_cons_of_pos (by simpa using hid), List.any_eq_false]
      intro other hother heq
      refine hids.1 ?_
      rw [hid, ← of_decide_eq_true heq]
      exact List.mem_map_of_mem hother
    · rw [withoutServer, List.eraseP_cons_of_neg (by simpa using hid), List.any_cons,
        decide_eq_false hid, Bool.false_or]
      exact ih hids.2

section HalfDone

variable {s : Membership} {cond : Circumstances}

/-- An endpoint command that was not committed has left the state as it was. -/
theorem Membership.applyEndpoint_state {fate : Fate} {cmd : CommandWrapper}
    {wrap : String → MemberError} {changed : Bool}
    (h : (s.applyEndpoint fate cmd wrap changed).replicated = false) :
    (s.applyEndpoint fate cmd wrap changed).state = s := by
  cases fate with
  | done => cases h
  | failed cause committed =>
    have hcommitted : committed = false := h
    rw [hcommitted]
    rfl

@[simp] theorem Membership.applyEndpoint_changed (fate : Fate) (cmd : CommandWrapper)
    (wrap : String → MemberError) (changed : Bool) :
    (s.applyEndpoint fate cmd wrap changed).changed = changed := by
  cases fate <;> rfl

/-- **A half-done addition** has passed its checks and left exactly the new configuration. -/
theorem halfDone_add {member : ClusterMember} (h : (MemberOp.add member).HalfDone s cond) :
    ¬ (member.nodeID = "" ∨ member.raftAddress = "" ∨ member.grpcAddress = "") ∧
      findMember member s.config.servers = .neither ∧
      ∃ config, s.config.addVoter member.nodeID member.raftAddress = some config ∧
        ((MemberOp.add member).call s cond).state = { s with config := config } := by
  obtain ⟨hchanged, hreplicated⟩ := h
  simp only [MemberOp.call, Membership.addClusterMember] at hchanged hreplicated ⊢
  split at hchanged
  · cases hchanged
  · rename_i hleader
    rw [if_neg hleader] at hreplicated ⊢
    split at hchanged
    · cases hchanged
    · rename_i hcomplete
      rw [if_neg hcomplete] at hreplicated ⊢
      refine ⟨hcomplete, ?_⟩
      cases hconfig : cond.configError with
      | some cause =>
        rw [hconfig] at hchanged
        cases hchanged
      | none =>
        simp only [hconfig] at hchanged hreplicated ⊢
        cases hfound : findMember member s.config.servers with
        | member =>
          simp [hfound, Membership.upsertEndpointMetadata] at hchanged
        | address serverID =>
          rw [hfound] at hchanged
          cases hchanged
        | neither =>
          simp only [hfound] at hchanged hreplicated ⊢
          refine ⟨trivial, ?_⟩
          cases hadd : s.config.addVoter member.nodeID member.raftAddress with
          | none =>
            rw [hadd] at hchanged
            cases hchanged
          | some config =>
            simp only [hadd] at hchanged hreplicated ⊢
            refine ⟨config, rfl, ?_⟩
            cases hchange : cond.change with
            | failed cause committed =>
              simp only [hchange] at hchanged ⊢
              rw [if_pos hchanged]
            | done =>
              simp only [hchange] at hreplicated ⊢
              exact Membership.applyEndpoint_state hreplicated

/-- **A half-done removal** has found the server and left the configuration without it. -/
theorem halfDone_remove {nodeID : String} (h : (MemberOp.remove nodeID).HalfDone s cond) :
    ((MemberOp.remove nodeID).call s cond).state
      = { s with config := s.config.removeServer nodeID } := by
  obtain ⟨hchanged, hreplicated⟩ := h
  simp only [MemberOp.call, Membership.removeClusterMember] at hchanged hreplicated ⊢
  split at hchanged
  · cases hchanged
  · rename_i hleader
    rw [if_neg hleader] at hreplicated ⊢
    cases hconfig : cond.configError with
    | some cause =>
      rw [hconfig] at hchanged
      cases hchanged
    | none =>
      simp only [hconfig] at hchanged hreplicated ⊢
      split at hchanged
      · cases hchanged
      · rename_i hfound
        rw [if_neg hfound] at hreplicated ⊢
        cases hchange : cond.change with
        | failed cause committed =>
          simp only [hchange] at hchanged ⊢
          rw [if_pos hchanged]
        | done =>
          simp only [hchange] at hreplicated ⊢
          exact Membership.applyEndpoint_state hreplicated

end HalfDone

/-! ## The retry -/

/-- The state machine accepts the endpoint of a complete member. -/
theorem result_upsertEndpoint (m : Machine) {nodeID grpcAddress : String} (hid : nodeID ≠ "")
    (haddress : grpcAddress ≠ "") :
    m.result (newUpsertEndpointCmd nodeID grpcAddress) = .ok .none := by
  have happ : m.fsm.apply (newUpsertEndpointCmd nodeID grpcAddress)
      = some (m.fsm.applyUpsertEndpoint ⟨nodeID, grpcAddress⟩) := rfl
  rw [m.fsm_apply, FSM.applyUpsertEndpoint, if_neg (by simp [hid, haddress])] at happ
  rw [result, Option.some.inj happ, FSM.reply]

/-- A repeated addition finds its voter in the configuration and goes on with the endpoint. -/
theorem add_completed {s : Membership} {cond : Circumstances} {member : ClusterMember}
    (h : (MemberOp.add member).HalfDone s cond) :
    (MemberOp.add member).CompletedByRetry s cond := by
  obtain ⟨hcomplete, hneither, config, hadd, hstate⟩ := halfDone_add h
  have hfound : findMember member config.servers = .member := by
    refine findMember_of_mem config.ids_nodup config.addresses_nodup ?_
    unfold Configuration.addVoter at hadd
    split at hadd
    · cases hadd
      exact mem_withVoter ..
    · cases hadd
  have hresult : s.fsm.result (newUpsertEndpointCmd member.nodeID member.grpcAddress) = .ok .none :=
    result_upsertEndpoint s.fsm (fun heq => hcomplete (Or.inl heq))
      fun heq => hcomplete (Or.inr (Or.inr heq))
  unfold MemberOp.CompletedByRetry
  rw [hstate]
  simp only [MemberOp.call, Membership.addClusterMember, undisturbed, Bool.not_true,
    Bool.false_eq_true, if_false, if_neg hcomplete, hfound, hneither, hadd,
    Membership.upsertEndpointMetadata, Membership.applyEndpoint, hresult, and_self]

/-- A repeated removal does not find the server. -/
theorem remove_notFound {s : Membership} {cond : Circumstances} {nodeID : String}
    (h : (MemberOp.remove nodeID).HalfDone s cond) :
    ((MemberOp.remove nodeID).call ((MemberOp.remove nodeID).call s cond).state
      undisturbed).result = .error (.domain .nodeNotFound) := by
  have hgone : (withoutServer nodeID s.config.servers).any
      (fun server => decide (server.id = nodeID)) = false :=
    any_withoutServer s.config.ids_nodup
  rw [halfDone_remove h]
  simp only [MemberOp.call, Membership.removeClusterMember, undisturbed, Bool.not_true,
    Bool.false_eq_true, if_false, Configuration.removeServer, hgone, Bool.not_false, if_true,
    Membership.refuse]

/-- **A retry completes a half-done membership change exactly when it is an addition.** -/
theorem retry_completes_iff (op : MemberOp) (s : Membership) (cond : Circumstances)
    (h : op.HalfDone s cond) : op.CompletedByRetry s cond ↔ op.isAdd = true := by
  cases op with
  | add member => exact ⟨fun _ => rfl, fun _ => add_completed h⟩
  | remove nodeID =>
    refine ⟨fun hdone => ?_, nofun⟩
    have hnil := hdone.1
    rw [remove_notFound h] at hnil
    cases hnil

/-- Two voters, with their endpoints. -/
def twoVoters : Membership where
  config :=
    { servers := [⟨.voter, "n1", "10.0.0.1:7000"⟩, ⟨.voter, "n2", "10.0.0.2:7000"⟩]
      ids_nodup := by decide
      addresses_nodup := by decide }
  fsm := new.replay
    [newUpsertEndpointCmd "n1" "10.0.0.1:9000", newUpsertEndpointCmd "n2" "10.0.0.2:9000"]

/-- The leader steps down between the two commands. -/
def steppedDown : Circumstances := ⟨true, none, .done, .failed "node is not the leader" false⟩

theorem retry_completes_iff_joined :
    (MemberOp.add ⟨"n3", "10.0.0.3:7000", "10.0.0.3:9000"⟩).HalfDone twoVoters steppedDown ∧
      (MemberOp.add ⟨"n3", "10.0.0.3:7000", "10.0.0.3:9000"⟩).CompletedByRetry twoVoters
        steppedDown :=
  ⟨by decide, (retry_completes_iff _ twoVoters steppedDown (by decide)).mpr rfl⟩

/-- Node `n1`, the leader, removes itself. The removal is repeated on the new leader: it fails,
and the endpoint of `n1`, which an undisturbed call would have deleted, is still there. -/
theorem not_completed_steppedDown :
    (MemberOp.remove "n1").HalfDone twoVoters steppedDown ∧
      ¬ (MemberOp.remove "n1").CompletedByRetry twoVoters steppedDown ∧
      (((MemberOp.remove "n1").call ((MemberOp.remove "n1").call twoVoters steppedDown).state
        undisturbed).state.fsm.fsm.endpoints.lookup "n1" = some "10.0.0.1:9000") ∧
      ((MemberOp.remove "n1").call twoVoters undisturbed).state.fsm.fsm.endpoints.lookup "n1"
        = none := by
  refine ⟨by decide, ?_, by decide, by decide⟩
  rintro ⟨hnil, -⟩
  revert hnil
  decide

end Clavis
