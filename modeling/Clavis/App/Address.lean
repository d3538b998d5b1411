import Mathlib.Logic.Basic

/-!
# Clavis — the addresses a node advertises

`internal/app/runtime.go`, and the order in which `main` uses it. A node binds to two addresses, one
for Raft and one for gRPC, and tells others where to reach it. It may bind to all interfaces
(`":9000"`, `"0.0.0.0:9000"`), but must not advertise that: a follower would redirect clients to it,
and peers would dial it. The functions of `net` that take addresses apart and put them together are
parameters, with what is relied on.

* `deriveRaftAdvertiseAddr`, `deriveAdvertiseAddr` — the two derivations. Each prefers the explicit
  flag, then the address bound to, then the bound port at a host borrowed from the other side.
* `Chosen` — that preference as a relation between flags and address.
* `resolveAddrs_ok_iff` — the headline: `main` starts a node exactly with the chosen addresses, and
  both can be dialled. The Raft side may borrow from the explicit gRPC address only, and the gRPC
  side from what was derived for Raft, so that its own refusal to borrow from a wildcard
  (`cannotDerive`) never shows.
-/

namespace Clavis

/-- `net.SplitHostPort`, with the text of its error, and `net.JoinHostPort`. -/
structure HostPort where
  splitHostPort : String → Except String (String × String)
  joinHostPort : String → String → String
  /-- An address has a port. -/
  split_empty : ∀ parts, splitHostPort "" ≠ .ok parts
  /-- What is joined from parts of addresses, of one or of two, splits into them again. -/
  split_join : ∀ {addr addr' host port host' port' : String},
    splitHostPort addr = .ok (host, port) → splitHostPort addr' = .ok (host', port') →
      splitHostPort (joinHostPort host port') = .ok (host, port')

/-- How a derivation fails. -/
inductive AddressError where
  /-- `parse <what> address` -/
  | parse (what cause : String)
  | parseBind (cause : String)
  | parseFallback (cause : String)
  | notRoutable (kind addr : String)
  | cannotDerive
  | bindNotRoutable (bindAddr : String)
  | fallbackNotRoutable (fallbackHostAddr : String)
deriving DecidableEq

/-- The text of an error; `quote` is the `%q` of `fmt`. -/
def AddressError.error (quote : String → String) : AddressError → String
  | parse what cause => "parse " ++ what ++ " address: " ++ cause
  | parseBind cause => "parse raft bind address: " ++ cause
  | parseFallback cause => "parse raft advertise fallback address: " ++ cause
  | notRoutable kind addr =>
    kind ++ " address must be explicitly routable, got " ++ quote addr
  | cannotDerive =>
    "cannot derive advertise address from wildcard hosts; set an explicit advertise address"
  | bindNotRoutable bindAddr =>
    "raft bind address " ++ quote bindAddr ++
      " is not routable; set --raft-advertise-addr or --grpc-advertise-addr"
  | fallbackNotRoutable fallbackHostAddr =>
    "raft advertise fallback address " ++ quote fallbackHostAddr ++
      " is not routable; set an explicit advertise address"

def isWildcardHost (host : String) : Bool := host = "" || host = "0.0.0.0" || host = "::"

section Code

variable (net : HostPort)

def validateAdvertiseAddr (addr kind : String) : Except AddressError String :=
  match net.splitHostPort addr with
  | .error cause => .error (.parse kind cause)
  | .ok (host, _) =>
    if isWildcardHost host then .error (.notRoutable kind addr) else .ok addr

def deriveAdvertiseAddr (raftAddr listenAddr explicit : String) : Except AddressError String :=
  if explicit ≠ "" then validateAdvertiseAddr net explicit "advertise"
  else
    match net.splitHostPort raftAddr with
    | .error cause => .error (.parse "raft" cause)
    | .ok (raftHost, _) =>
      match net.splitHostPort listenAddr with
      | .error cause => .error (.parse "listen" cause)
      | .ok (listenHost, listenPort) =>
        if isWildcardHost listenHost then
          if isWildcardHost raftHost then .error .cannotDerive
          else validateAdvertiseAddr net (net.joinHostPort raftHost listenPort) "advertise"
        else validateAdvertiseAddr net (net.joinHostPort listenHost listenPort) "advertise"

def deriveRaftAdvertiseAddr (bindAddr explicit fallbackHostAddr : String) :
    Except AddressError String :=
  if explicit ≠ "" then validateAdvertiseAddr net explicit "raft advertise"
  else
    match net.splitHostPort bindAddr with
    | .error cause => .error (.parseBind cause)
    | .ok (bindHost, bindPort) =>
      if isWildcardHost bindHost then
        if fallbackHostAddr = "" then .error (.bindNotRoutable bindAddr)
        else
          match net.splitHostPort fallbackHostAddr with
          | .error cause => .error (.parseFallback cause)
          | .ok (fallbackHost, _) =>
            if isWildcardHost fallbackHost then .error (.fallbackNotRoutable fallbackHostAddr)
            else validateAdvertiseAddr net (net.joinHostPort fallbackHost bindPort) "raft advertise"
      else validateAdvertiseAddr net (net.joinHostPort bindHost bindPort) "raft advertise"

/-- The address flags of the command line. -/
structure AddrFlags where
  raftAddr : String
  raftAdvertiseAddr : String
  grpcAddr : String
  grpcAdvertiseAddr : String

/-- What `main` makes of them: the advertised Raft address and the advertised gRPC address. -/
def resolveAddrs (f : AddrFlags) : Except AddressError (String × String) := do
  let raft ← deriveRaftAdvertiseAddr net f.raftAddr f.raftAdvertiseAddr f.grpcAdvertiseAddr
  let grpc ← deriveAdvertiseAddr net raft f.grpcAddr f.grpcAdvertiseAddr
  return (raft, grpc)

/-! ## Addresses that can be dialled -/

/-- The address has a host other than a wildcard. -/
def Routable (addr : String) : Prop :=
  ∃ host port, net.splitHostPort addr = .ok (host, port) ∧ isWildcardHost host = false

/-! ## What is chosen -/

/-- What a node advertises for an address it binds to: the explicit address, the bound one, or the
bound port at the host of `other`. -/
inductive Chosen (explicit bound other : String) : String → Prop where
  | explicit (hset : explicit ≠ "") (hrout : Routable net explicit) :
      Chosen explicit bound other explicit
  | bound (host port : String) (hunset : explicit = "")
      (hbound : net.splitHostPort bound = .ok (host, port)) (hhost : isWildcardHost host = false) :
      Chosen explicit bound other (net.joinHostPort host port)
  | borrowed (host port otherHost otherPort : String) (hunset : explicit = "")
      (hbound : net.splitHostPort bound = .ok (host, port)) (hhost : isWildcardHost host = true)
      (hother : net.splitHostPort other = .ok (otherHost, otherPort))
      (hotherHost : isWildcardHost otherHost = false) :
      Chosen explicit bound other (net.joinHostPort otherHost port)

end Code

section Chosen

variable {net : HostPort} {explicit bound other addr : String}

theorem validateAdvertiseAddr_eq_ok_iff {addr kind result : String} :
    validateAdvertiseAddr net addr kind = .ok result ↔ result = addr ∧ Routable net addr := by
  unfold validateAdvertiseAddr Routable
  cases hsplit : net.splitHostPort addr with
  | error cause => simp
  | ok parts =>
    obtain ⟨host, port⟩ := parts
    cases hwild : isWildcardHost host with
    | true => simp [hwild]
    | false =>
      simp only [hwild, Bool.false_eq_true, if_false, Except.ok.injEq, Prod.mk.injEq]
      exact ⟨fun heq => ⟨heq.symm, host, port, ⟨rfl, rfl⟩, hwild⟩, fun h => h.1.symm⟩

theorem Chosen.routable (h : Chosen net explicit bound other addr) : Routable net addr := by
  cases h with
  | explicit hset hrout => exact hrout
  | bound host port hunset hbound hhost =>
    exact ⟨host, port, net.split_join hbound hbound, hhost⟩
  | borrowed host port otherHost otherPort hunset hbound hhost hother hotherHost =>
    exact ⟨otherHost, port, net.split_join hother hbound, hotherHost⟩

theorem deriveRaftAdvertiseAddr_eq_ok_iff :
    deriveRaftAdvertiseAddr net bound explicit other = .ok addr ↔
      Chosen net explicit bound other addr := by
  constructor
  · intro h
    unfold deriveRaftAdvertiseAddr at h
    split at h
    · obtain ⟨rfl, hrout⟩ := validateAdvertiseAddr_eq_ok_iff.mp h
      exact .explicit ‹_› hrout
    rename_i hunset
    rw [not_not] at hunset
    split at h
    · cases h
    rename_i host port hbound
    split at h
    · split at h
      · cases h
      split at h
      · cases h
      rename_i otherHost otherPort hother
      split at h
      · cases h
      rename_i hwild hotherHost
      obtain ⟨rfl, -⟩ := validateAdvertiseAddr_eq_ok_iff.mp h
      exact .borrowed host port otherHost otherPort hunset hbound ‹_› hother
        (eq_false_of_ne_true hotherHost)
    · obtain ⟨rfl, -⟩ := validateAdvertiseAddr_eq_ok_iff.mp h
      exact .bound host port hunset hbound (eq_false_of_ne_true ‹_›)
  · intro h
    have hrout := h.routable
    cases h with
    | explicit hset _ =>
      rw [deriveRaftAdvertiseAddr, if_pos hset]
      exact validateAdvertiseAddr_eq_ok_iff.mpr ⟨rfl, hrout⟩
    | bound host port hunset hbound hhost =>
      rw [deriveRaftAdvertiseAddr, if_neg (not_not.mpr hunset)]
      simp only [hbound, hhost, Bool.false_eq_true, if_false]
      exact validateAdvertiseAddr_eq_ok_iff.mpr ⟨rfl, hrout⟩
    | borrowed host port otherHost otherPort hunset hbound hhost hother hotherHost =>
      have hset : other ≠ "" := by
        rintro rfl
        exact net.split_empty _ hother
      rw [deriveRaftAdvertiseAddr, if_neg (not_not.mpr hunset)]
      simp only [hbound, hhost, if_true, if_neg hset, hother, hotherHost, Bool.false_eq_true,
        if_false]
      exact validateAdvertiseAddr_eq_ok_iff.mpr ⟨rfl, hrout⟩

/-- The same for the gRPC side, once the Raft address can be dialled. -/
theorem deriveAdvertiseAddr_eq_ok_iff (hrout : Routable net other) :
    deriveAdvertiseAddr net other bound explicit = .ok addr ↔
      Chosen net explicit bound other addr := by
  obtain ⟨otherHost, otherPort, hother, hotherHost⟩ := hrout
  constructor
  · intro h
    unfold deriveAdvertiseAddr at h
    split at h
    · obtain ⟨rfl, hrout⟩ := validateAdvertiseAddr_eq_ok_iff.mp h
      exact .explicit ‹_› hrout
    rename_i hunset
    rw [not_not] at hunset
    simp only [hother, hotherHost, Bool.false_eq_true, if_false] at h
    split at h
    · cases h
    rename_i host port hbound
    split at h
    · obtain ⟨rfl, -⟩ := validateAdvertiseAddr_eq_ok_iff.mp h
      exact .borrowed host port otherHost otherPort hunset hbound ‹_› hother hotherHost
    · obtain ⟨rfl, -⟩ := validateAdvertiseAddr_eq_ok_iff.mp h
      exact .bound host port hunset hbound (eq_false_of_ne_true ‹_›)
  · intro h
    have hrout := h.routable
    cases h with
    | explicit hset _ =>
      rw [deriveAdvertiseAddr, if_pos hset]
      exact validateAdvertiseAddr_eq_ok_iff.mpr ⟨rfl, hrout⟩
    | bound host port hunset hbound hhost =>
      rw [deriveAdvertiseAddr, if_neg (not_not.mpr hunset)]
      simp only [hother, hbound, hhost, Bool.false_eq_true, if_false]
      exact validateAdvertiseAddr_eq_ok_iff.mpr ⟨rfl, hrout⟩
    | borrowed host port otherHost' otherPort' hunset hbound hhost hother' hotherHost' =>
      rw [hother] at hother'
      cases hother'
      rw [deriveAdvertiseAddr, if_neg (not_not.mpr hunset)]
      simp only [hother, hbound, hhost, if_true, hotherHost, Bool.false_eq_true, if_false]
      exact validateAdvertiseAddr_eq_ok_iff.mpr ⟨rfl, hrout⟩

/-! ## What `main` starts with -/

theorem resolveAddrs_eq_ok_iff {f : AddrFlags} {raft grpc : String} :
    resolveAddrs net f = .ok (raft, grpc) ↔
      deriveRaftAdvertiseAddr net f.raftAddr f.raftAdvertiseAddr f.grpcAdvertiseAddr = .ok raft ∧
        deriveAdvertiseAddr net raft f.grpcAddr f.grpcAdvertiseAddr = .ok grpc := by
  unfold resolveAddrs
  cases hraft : deriveRaftAdvertiseAddr net f.raftAddr f.raftAdvertiseAddr f.grpcAdvertiseAddr with
  | error e => simp [bind, Except.bind]
  | ok raft' =>
    cases hgrpc : deriveAdvertiseAddr net raft' f.grpcAddr f.grpcAdvertiseAddr with
    | error e =>
      simp only [bind, Except.bind, hgrpc, Except.ok.injEq, reduceCtorEq, false_iff, not_and]
      rintro rfl
      simp [hgrpc]
    | ok grpc' =>
      simp only [bind, Except.bind, hgrpc, pure, Except.pure, Except.ok.injEq, Prod.mk.injEq]
      constructor
      · rintro ⟨rfl, rfl⟩
        exact ⟨rfl, hgrpc⟩
      · rintro ⟨rfl, h⟩
        rw [hgrpc] at h
        exact ⟨rfl, Except.ok.inj h⟩

theorem validateAdvertiseAddr_ne_cannotDerive (addr kind : String) :
    validateAdvertiseAddr net addr kind ≠ .error .cannotDerive := by
  unfold validateAdvertiseAddr
  split
  · simp
  · split <;> simp

theorem deriveRaftAdvertiseAddr_ne_cannotDerive (bound explicit other : String) :
    deriveRaftAdvertiseAddr net bound explicit other ≠ .error .cannotDerive := by
  unfold deriveRaftAdvertiseAddr
  have hvalidate : ∀ addr kind, validateAdvertiseAddr net addr kind ≠ .error .cannotDerive :=
    validateAdvertiseAddr_ne_cannotDerive
  repeat' split
  all_goals first | exact hvalidate _ _ | simp

/-- A derivation that may borrow from an address that can be dialled does not ask for more. -/
theorem deriveAdvertiseAddr_ne_cannotDerive (hrout : Routable net other)
    (bound explicit : String) :
    deriveAdvertiseAddr net other bound explicit ≠ .error .cannotDerive := by
  obtain ⟨otherHost, otherPort, hother, hotherHost⟩ := hrout
  unfold deriveAdvertiseAddr
  simp only [hother, hotherHost, Bool.false_eq_true, if_false]
  have hvalidate : ∀ addr kind, validateAdvertiseAddr net addr kind ≠ .error .cannotDerive :=
    validateAdvertiseAddr_ne_cannotDerive
  repeat' split
  all_goals first | exact hvalidate _ _ | simp

theorem resolveAddrs_ne_cannotDerive (f : AddrFlags) :
    resolveAddrs net f ≠ .error .cannotDerive := by
  unfold resolveAddrs
  cases hraft : deriveRaftAdvertiseAddr net f.raftAddr f.raftAdvertiseAddr f.grpcAdvertiseAddr with
  | error e =>
    have hne : deriveRaftAdvertiseAddr net f.raftAddr f.raftAdvertiseAddr f.grpcAdvertiseAddr
        ≠ .error .cannotDerive := deriveRaftAdvertiseAddr_ne_cannotDerive _ _ _
    rw [hraft] at hne
    simpa [bind, Except.bind] using hne
  | ok raft =>
    have hrout := (deriveRaftAdvertiseAddr_eq_ok_iff.mp hraft).routable
    have hne := deriveAdvertiseAddr_ne_cannotDerive hrout f.grpcAddr f.grpcAdvertiseAddr
    cases hgrpc : deriveAdvertiseAddr net raft f.grpcAddr f.grpcAdvertiseAddr with
    | error e =>
      rw [hgrpc] at hne
      simpa [bind, Except.bind, hgrpc] using hne
    | ok grpc => simp [bind, Except.bind, hgrpc, pure, Except.pure]

end Chosen

/-- Addresses without brackets: the host ends at the first colon. -/
def HostPort.plain : HostPort where
  splitHostPort addr :=
    match addr.toList.dropWhile (· ≠ ':') with
    | [] => .error "missing port in address"
    | _ :: port => .ok (String.ofList (addr.toList.takeWhile (· ≠ ':')), String.ofList port)
  joinHostPort host port := host ++ ":" ++ port
  split_empty := by
    intro parts h
    cases h
  split_join := by
    intro addr addr' host port host' port' h _
    split at h
    · cases h
    · cases h
      -- there is no colon in the host
      have hhost : ∀ c ∈ addr.toList.takeWhile (· ≠ ':'), (decide (c ≠ ':')) = true :=
        List.all_eq_true.mp List.all_takeWhile
      simp only [String.toList_append, String.toList_ofList, List.append_assoc]
      rw [List.dropWhile_append_of_pos hhost, List.takeWhile_append_of_pos hhost]
      simp

/-- Bound to all interfaces, a node advertises its Raft port at the host of its gRPC address. -/
example : resolveAddrs .plain ⟨":7000", "", ":9000", "db1:9000"⟩
    = .ok ("db1:7000", "db1:9000") := by rfl

end Clavis
