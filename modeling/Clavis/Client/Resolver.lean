import Clavis.Lib.Text
import Mathlib.Algebra.Order.BigOperators.Group.Finset

/-!
# Clavis — the resolver and one failover pass

`pkg/client/resolver.go`. A resolver knows a list of addresses and which of them is probably the
leader's. `tryCandidates` makes one pass over them: it takes addresses from a queue, which starts as
the candidates, and puts the target of a redirect back in front of it. What keeps the pass from
running for ever is that no address is attempted more than twice.

What the servers, the network and the caller's context do in an iteration is a `Turn`; a pass is run
against any sequence of them. The pool of connections is left out: whether `connFor` fails is part
of the turn.

`failover_pass` says that a pass ends, how often it calls and what it has covered when it asks for a
retry, and that the resolver neither drops nor repeats an address. It puts the current address first
if it has one; it may have none (`not_currentFirst_seedOnly`).
-/

namespace Clavis

open Lib

/-! ## Addresses -/

/-- Append an address that is not there yet, the test made with a map or with a loop. -/
def appendNew (addrs : List String) (addr : String) : List String :=
  if addr ∈ addrs then addrs else addrs ++ [addr]

/-- The parts of comma-separated addresses, without the space around them. -/
def seedParts (addrs : List String) : List String :=
  addrs.flatMap fun addr =>
    (addr.toList.splitOn ',').map fun part => String.ofList (trimSpace part)

def normalizeSeedAddrs (addrs : List String) : List String :=
  (seedParts addrs).foldl
    (fun normalized trimmed => if trimmed = "" then normalized else appendNew normalized trimmed) []

/-- `resolver`, less its mutex and its connections. -/
structure Resolver where
  seedAddrs : List String
  currentAddr : String
deriving DecidableEq

def newResolver (seeds : List String) : Resolver := ⟨seeds, seeds.headD ""⟩

/-- The fields of `pb.GetStatusResponse` that the resolver reads; of a member, its address. -/
structure StatusResponse where
  grpcAddress : String
  members : List String
  leaderGrpcAddress : String
  isLeader : Bool

namespace Resolver

def candidateAddrs (r : Resolver) : List String :=
  r.seedAddrs.foldl appendNew (if r.currentAddr ≠ "" then [r.currentAddr] else [])

def rememberSeedLocked (r : Resolver) (addr : String) : Resolver :=
  { r with seedAddrs := appendNew r.seedAddrs addr }

def rememberAddr (r : Resolver) (addr : String) : Resolver :=
  if addr = "" then r else { r with currentAddr := addr }.rememberSeedLocked addr

def rememberSeed (r : Resolver) (addr : String) : Resolver :=
  if addr = "" then r else r.rememberSeedLocked addr

def rememberStatus (r : Resolver) (resp : Option StatusResponse) : Resolver :=
  match resp with
  | none => r
  | some resp =>
    let r := resp.members.foldl rememberSeed (r.rememberSeed resp.grpcAddress)
    if resp.leaderGrpcAddress ≠ "" then r.rememberAddr resp.leaderGrpcAddress
    else if resp.isLeader ∧ resp.grpcAddress ≠ "" then r.rememberAddr resp.grpcAddress
    else r

/-- What is done to a resolver. -/
inductive Op where
  | rememberAddr (addr : String)
  | rememberSeed (addr : String)
  | rememberStatus (resp : Option StatusResponse)

def apply (r : Resolver) : Op → Resolver
  | .rememberAddr addr => r.rememberAddr addr
  | .rememberSeed addr => r.rememberSeed addr
  | .rememberStatus resp => r.rememberStatus resp

/-- The resolver after a sequence of calls. -/
def after (r : Resolver) (ops : List Op) : Resolver := ops.foldl apply r

/-- The addresses a call tells the resolver. -/
def Op.addrs : Op → List String
  | rememberAddr addr => [addr]
  | rememberSeed addr => [addr]
  | rememberStatus none => []
  | rememberStatus (some resp) => resp.grpcAddress :: resp.leaderGrpcAddress :: resp.members

end Resolver

/-- All addresses that a resolver made from `xs` has learned in the calls `ops`. -/
def learnedAddrs (xs : List String) (ops : List Resolver.Op) : List String :=
  (seedParts xs ++ ops.flatMap Resolver.Op.addrs).filter (· ≠ "")

/-! ## One pass -/

/-- The gRPC status codes of errors. -/
inductive Code where
  | canceled
  | unknown
  | invalidArgument
  | deadlineExceeded
  | notFound
  | alreadyExists
  | permissionDenied
  | resourceExhausted
  | failedPrecondition
  | aborted
  | outOfRange
  | unimplemented
  | internal
  | unavailable
  | dataLoss
  | unauthenticated
deriving DecidableEq

/-- An error as the client sees it: `status.Code`, `leaderhint.FromError` and the text. -/
structure CallError where
  code : Code
  hint : String
  text : String
deriving DecidableEq

/-- How an attempt on a node ends. -/
inductive Attempt (T : Type) where
  /-- `connFor` fails; `op` is not called -/
  | noConn (err : CallError)
  | answered (resp : T)
  /-- `unresponsive`: the attempt's time is up and the caller's is not -/
  | failed (err : CallError) (unresponsive : Bool)

/-- What happens in one iteration: `ctx.Err()` at its start, and how an attempt would end. -/
structure Turn (T : Type) where
  ctxErr : Option CallError
  attempt : Attempt T

/-- The state of a pass, with the addresses attempted and the addresses `op` was called on. -/
structure Pass where
  resolver : Resolver
  queue : List String
  addressAttempts : String → Nat
  lastErr : Option CallError
  attempted : List String
  calls : List String

/-- What `tryCandidates` returns, and the state it returns in. -/
structure PassResult (T : Type) where
  pass : Pass
  result : Except CallError T
  retry : Bool

def allFailed : CallError := ⟨.unknown, "", "all cluster addresses failed"⟩

namespace Pass

variable {T : Type}

def start (r : Resolver) : Pass := ⟨r, r.candidateAddrs, fun _ => 0, none, [], []⟩

/-- Count an attempt on the head of the queue. -/
def attempt (p : Pass) (addr : String) (queue : List String) : Pass :=
  { p with
    queue := queue
    addressAttempts := Function.update p.addressAttempts addr (p.addressAttempts addr + 1)
    attempted := p.attempted ++ [addr] }

/-- `op` was called on an address. -/
def called (p : Pass) (addr : String) : Pass := { p with calls := p.calls ++ [addr] }

/-- One iteration of the loop, or the return. -/
def iterate (p : Pass) (turn : Turn T) : Pass ⊕ PassResult T :=
  match p.queue with
  | [] => .inr ⟨p, .error (p.lastErr.getD allFailed), true⟩
  | addr :: queue =>
    match turn.ctxErr with
    | some err => .inr ⟨p, .error (p.lastErr.getD err), false⟩
    | none =>
      if addr = "" ∨ 2 ≤ p.addressAttempts addr then .inl { p with queue := queue }
      else
        match turn.attempt with
        | .noConn err => .inl { p.attempt addr queue with lastErr := some err }
        | .answered resp =>
          .inr ⟨{ (p.attempt addr queue).called addr with
            resolver := p.resolver.rememberAddr addr }, .ok resp, false⟩
        | .failed err unresponsive =>
          if err.hint ≠ "" then
            .inl { (p.attempt addr (err.hint :: queue)).called addr with
              lastErr := some err
              resolver := p.resolver.rememberAddr err.hint }
          else if err.code ≠ .unavailable ∧ unresponsive = false then
            .inr ⟨{ (p.attempt addr queue).called addr with lastErr := some err }, .error err,
              false⟩
          else .inl { (p.attempt addr queue).called addr with lastErr := some err }

/-- The loop, for at most `fuel` iterations; `k` counts them. -/
def loop (env : Nat → Turn T) : Nat → Nat → Pass → Option (PassResult T)
  | 0, _, _ => none
  | fuel + 1, k, p =>
    match p.iterate (env k) with
    | .inl p' => loop env fuel (k + 1) p'
    | .inr result => some result

end Pass

/-- `tryCandidates`, for at most `fuel` iterations of its loop. -/
def tryCandidates {T : Type} (env : Nat → Turn T) (r : Resolver) (fuel : Nat) :
    Option (PassResult T) :=
  Pass.loop env fuel 0 (.start r)

/-- Every hint that the servers give is in `A`. -/
def HintsIn {T : Type} (A : Finset String) (env : Nat → Turn T) : Prop :=
  ∀ k err unresponsive, (env k).attempt = .failed err unresponsive → err.hint ≠ "" → err.hint ∈ A

/-! ## Lists without repetition -/

theorem mem_appendNew {addrs : List String} {addr a : String} :
    a ∈ appendNew addrs addr ↔ a ∈ addrs ∨ a = addr := by
  unfold appendNew
  split
  · rename_i hmem
    refine ⟨Or.inl, ?_⟩
    rintro (h | rfl)
    · exact h
    · exact hmem
  · rw [List.mem_append, List.mem_singleton]

theorem nodup_appendNew {addrs : List String} (h : addrs.Nodup) (addr : String) :
    (appendNew addrs addr).Nodup := by
  unfold appendNew
  split
  · exact h
  · rename_i hmem
    rw [List.nodup_append]
    exact ⟨h, List.nodup_singleton addr, fun a ha b hb heq =>
      hmem (List.mem_singleton.mp hb ▸ heq ▸ ha)⟩

theorem head?_appendNew {addrs : List String} {a : String} (h : addrs.head? = some a)
    (addr : String) : (appendNew addrs addr).head? = some a := by
  unfold appendNew
  split
  · exact h
  · rw [List.head?_append, h, Option.some_or]

theorem mem_foldl_appendNew {seeds addrs : List String} {a : String} :
    a ∈ seeds.foldl appendNew addrs ↔ a ∈ addrs ∨ a ∈ seeds := by
  induction seeds generalizing addrs with
  | nil => simp
  | cons seed seeds ih => rw [List.foldl_cons, ih, mem_appendNew, List.mem_cons, or_assoc]

theorem nodup_foldl_appendNew {addrs : List String} (h : addrs.Nodup) (seeds : List String) :
    (seeds.foldl appendNew addrs).Nodup := by
  induction seeds generalizing addrs with
  | nil => exact h
  | cons seed seeds ih => exact ih (nodup_appendNew h seed)

theorem head?_foldl_appendNew {addrs : List String} {a : String} (h : addrs.head? = some a)
    (seeds : List String) : (seeds.foldl appendNew addrs).head? = some a := by
  induction seeds generalizing addrs with
  | nil => exact h
  | cons seed seeds ih => exact ih (head?_appendNew h seed)

theorem mem_normalizeSeedAddrs {xs : List String} {a : String} :
    a ∈ normalizeSeedAddrs xs ↔ a ∈ seedParts xs ∧ a ≠ "" := by
  have hfold : ∀ parts normalized : List String,
      a ∈ parts.foldl (fun normalized trimmed =>
        if trimmed = "" then normalized else appendNew normalized trimmed) normalized ↔
      a ∈ normalized ∨ a ∈ parts ∧ a ≠ "" := by
    intro parts
    induction parts with
    | nil => simp
    | cons part parts ih =>
      intro normalized
      rw [List.foldl_cons, ih, List.mem_cons]
      split
      · rename_i hpart
        constructor
        · rintro (h | ⟨h, hne⟩)
          · exact Or.inl h
          · exact Or.inr ⟨Or.inr h, hne⟩
        · rintro (h | ⟨rfl | h, hne⟩)
          · exact Or.inl h
          · exact absurd hpart hne
          · exact Or.inr ⟨h, hne⟩
      · rename_i hpart
        rw [mem_appendNew]
        constructor
        · rintro ((h | rfl) | ⟨h, hne⟩)
          · exact Or.inl h
          · exact Or.inr ⟨Or.inl rfl, hpart⟩
          · exact Or.inr ⟨Or.inr h, hne⟩
        · rintro (h | ⟨rfl | h, hne⟩)
          · exact Or.inl (Or.inl h)
          · exact Or.inl (Or.inr rfl)
          · exact Or.inr ⟨h, hne⟩
  rw [normalizeSeedAddrs, hfold]
  simp

/-! ## What a resolver knows -/

namespace Resolver

/-- The current address is one of the known ones, if there is one, and no known address is empty. -/
structure Sound (r : Resolver) : Prop where
  nonempty : ∀ a ∈ r.seedAddrs, a ≠ ""
  current_mem : r.currentAddr ≠ "" → r.currentAddr ∈ r.seedAddrs

theorem sound_newResolver (xs : List String) : (newResolver (normalizeSeedAddrs xs)).Sound where
  nonempty := fun a ha => (mem_normalizeSeedAddrs.mp ha).2
  current_mem := by
    intro hne
    show (normalizeSeedAddrs xs).headD "" ∈ normalizeSeedAddrs xs
    cases hseeds : normalizeSeedAddrs xs with
    | nil =>
      rw [newResolver, hseeds] at hne
      exact absurd rfl hne
    | cons seed seeds => exact List.mem_cons_self

theorem mem_rememberAddr {r : Resolver} {addr a : String} :
    a ∈ (r.rememberAddr addr).seedAddrs ↔ a ∈ r.seedAddrs ∨ a = addr ∧ addr ≠ "" := by
  unfold rememberAddr
  split
  · rename_i haddr
    simp [haddr]
  · rename_i haddr
    simp [rememberSeedLocked, mem_appendNew, haddr]

theorem mem_rememberSeed {r : Resolver} {addr a : String} :
    a ∈ (r.rememberSeed addr).seedAddrs ↔ a ∈ r.seedAddrs ∨ a = addr ∧ addr ≠ "" := by
  unfold rememberSeed
  split
  · rename_i haddr
    simp [haddr]
  · rename_i haddr
    simp [rememberSeedLocked, mem_appendNew, haddr]

theorem Sound.rememberAddr {r : Resolver} (h : r.Sound) (addr : String) :
    (r.rememberAddr addr).Sound where
  nonempty := by
    intro a ha
    rcases mem_rememberAddr.mp ha with hold | ⟨rfl, hne⟩
    · exact h.nonempty a hold
    · exact hne
  current_mem := by
    intro hne
    rw [mem_rememberAddr]
    unfold Resolver.rememberAddr at hne ⊢
    split at hne
    · rename_i haddr
      rw [if_pos haddr]
      exact Or.inl (h.current_mem hne)
    · rename_i haddr
      rw [if_neg haddr]
      exact Or.inr ⟨rfl, haddr⟩

@[simp] theorem currentAddr_rememberSeed (r : Resolver) (addr : String) :
    (r.rememberSeed addr).currentAddr = r.currentAddr := by
  unfold rememberSeed
  split <;> rfl

theorem Sound.rememberSeed {r : Resolver} (h : r.Sound) (addr : String) :
    (r.rememberSeed addr).Sound where
  nonempty := by
    intro a ha
    rcases mem_rememberSeed.mp ha with hold | ⟨rfl, hne⟩
    · exact h.nonempty a hold
    · exact hne
  current_mem := by
    intro hne
    rw [currentAddr_rememberSeed] at hne ⊢
    exact mem_rememberSeed.mpr (Or.inl (h.current_mem hne))

theorem mem_foldl_rememberSeed {addrs : List String} {r : Resolver} {a : String} :
    a ∈ (addrs.foldl Resolver.rememberSeed r).seedAddrs ↔
      a ∈ r.seedAddrs ∨ a ∈ addrs ∧ a ≠ "" := by
  induction addrs generalizing r with
  | nil => simp
  | cons addr addrs ih =>
    rw [List.foldl_cons, ih, mem_rememberSeed, List.mem_cons]
    constructor
    · rintro ((h | ⟨rfl, hne⟩) | ⟨h, hne⟩)
      · exact Or.inl h
      · exact Or.inr ⟨Or.inl rfl, hne⟩
      · exact Or.inr ⟨Or.inr h, hne⟩
    · rintro (h | ⟨rfl | h, hne⟩)
      · exact Or.inl (Or.inl h)
      · exact Or.inl (Or.inr ⟨rfl, hne⟩)
      · exact Or.inr ⟨h, hne⟩

theorem Sound.foldl_rememberSeed {r : Resolver} (h : r.Sound) (addrs : List String) :
    (addrs.foldl Resolver.rememberSeed r).Sound := by
  induction addrs generalizing r with
  | nil => exact h
  | cons addr addrs ih => exact ih (h.rememberSeed addr)

theorem Sound.apply {r : Resolver} (h : r.Sound) (op : Op) : (r.apply op).Sound := by
  cases op with
  | rememberAddr addr => exact h.rememberAddr addr
  | rememberSeed addr => exact h.rememberSeed addr
  | rememberStatus resp =>
    cases resp with
    | none => exact h
    | some resp =>
      have hseeds := (h.rememberSeed resp.grpcAddress).foldl_rememberSeed resp.members
      simp only [Resolver.apply, rememberStatus]
      split
      · exact hseeds.rememberAddr _
      · split
        · exact hseeds.rememberAddr _
        · exact hseeds

/-- **A call adds to the known addresses exactly those it tells.** -/
theorem mem_apply {r : Resolver} {op : Op} {a : String} :
    a ∈ (r.apply op).seedAddrs ↔ a ∈ r.seedAddrs ∨ a ∈ op.addrs ∧ a ≠ "" := by
  cases op with
  | rememberAddr addr =>
    simp only [apply, mem_rememberAddr, Op.addrs, List.mem_singleton]
    exact or_congr_right ⟨fun ⟨heq, hne⟩ => ⟨heq, heq ▸ hne⟩, fun ⟨heq, hne⟩ => ⟨heq, heq ▸ hne⟩⟩
  | rememberSeed addr =>
    simp only [apply, mem_rememberSeed, Op.addrs, List.mem_singleton]
    exact or_congr_right ⟨fun ⟨heq, hne⟩ => ⟨heq, heq ▸ hne⟩, fun ⟨heq, hne⟩ => ⟨heq, heq ▸ hne⟩⟩
  | rememberStatus resp =>
    cases resp with
    | none => simp [apply, rememberStatus, Op.addrs]
    | some resp =>
      simp only [apply, rememberStatus, Op.addrs, List.mem_cons]
      split
      · rename_i hleader
        rw [mem_rememberAddr, mem_foldl_rememberSeed, mem_rememberSeed]
        grind
      · rename_i hleader
        split
        · rw [mem_rememberAddr, mem_foldl_rememberSeed, mem_rememberSeed]
          grind
        · rw [mem_foldl_rememberSeed, mem_rememberSeed]
          grind

theorem after_append (r : Resolver) (ops : List Op) (op : Op) :
    r.after (ops ++ [op]) = (r.after ops).apply op := by
  rw [after, List.foldl_append]
  rfl

theorem Sound.after {r : Resolver} (h : r.Sound) (ops : List Op) : (r.after ops).Sound := by
  induction ops using List.reverseRecOn with
  | nil => exact h
  | append_singleton ops op ih =>
    rw [after_append]
    exact ih.apply op

theorem mem_after {r : Resolver} {ops : List Op} {a : String} :
    a ∈ (r.after ops).seedAddrs ↔ a ∈ r.seedAddrs ∨ a ∈ ops.flatMap Op.addrs ∧ a ≠ "" := by
  induction ops using List.reverseRecOn with
  | nil => simp [after]
  | append_singleton ops op ih =>
    rw [after_append, mem_apply, ih, List.flatMap_append, List.flatMap_singleton, List.mem_append,
      or_and_right, or_assoc]

theorem nodup_candidateAddrs (r : Resolver) : r.candidateAddrs.Nodup := by
  refine nodup_foldl_appendNew ?_ r.seedAddrs
  split
  · exact List.nodup_singleton _
  · exact List.nodup_nil

theorem Sound.mem_candidateAddrs {r : Resolver} (h : r.Sound) {a : String} :
    a ∈ r.candidateAddrs ↔ a ∈ r.seedAddrs := by
  rw [candidateAddrs, mem_foldl_appendNew]
  refine ⟨?_, Or.inr⟩
  rintro (hcurrent | hseed)
  · split at hcurrent
    · rename_i hne
      rw [List.mem_singleton.mp hcurrent]
      exact h.current_mem hne
    · cases hcurrent
  · exact hseed

theorem head?_candidateAddrs {r : Resolver} (h : r.currentAddr ≠ "") :
    r.candidateAddrs.head? = some r.currentAddr := by
  rw [candidateAddrs, if_pos h]
  exact head?_foldl_appendNew rfl r.seedAddrs

/-- **The candidates are the addresses learned.** -/
theorem mem_candidateAddrs_after {xs : List String} {ops : List Op} {a : String} :
    a ∈ ((newResolver (normalizeSeedAddrs xs)).after ops).candidateAddrs ↔
      a ∈ learnedAddrs xs ops := by
  rw [((sound_newResolver xs).after ops).mem_candidateAddrs, mem_after]
  show a ∈ normalizeSeedAddrs xs ∨ _ ↔ _
  simp only [mem_normalizeSeedAddrs, learnedAddrs, List.mem_filter, List.mem_append,
    decide_eq_true_eq, or_and_right]

end Resolver

/-! ## What a pass does -/

namespace Pass

variable {T : Type}

/-- How often `op` was called, where `U` is the addresses that can come up. -/
structure Bounded (U : Finset String) (p : Pass) : Prop where
  attempts_le : ∀ a, p.addressAttempts a ≤ 2
  calls_le : ∀ a, p.calls.count a ≤ p.addressAttempts a
  calls_mem : ∀ a ∈ p.calls, a ∈ U

theorem Bounded.congr {U : Finset String} {p p' : Pass} (h : Bounded U p)
    (hattempts : p'.addressAttempts = p.addressAttempts) (hcalls : p'.calls = p.calls) :
    Bounded U p' where
  attempts_le := by
    rw [hattempts]
    exact h.attempts_le
  calls_le := by
    rw [hattempts, hcalls]
    exact h.calls_le
  calls_mem := by
    rw [hcalls]
    exact h.calls_mem

/-- The invariant of the loop: nothing of the candidates `C` is lost before it was attempted. -/
structure Inv (U : Finset String) (C : List String) (p : Pass) : Prop extends Bounded U p where
  queue_mem : ∀ a ∈ p.queue, a ∈ U
  covered : ∀ a ∈ C, a ≠ "" → a ∈ p.attempted ∨ a ∈ p.queue
  attempted_mem : ∀ a, 0 < p.addressAttempts a → a ∈ p.attempted

/-- The attempts that are left and the length of the queue: a redirect makes the queue no longer
than it was, at the price of an attempt. -/
def rank (U : Finset String) (p : Pass) : Nat :=
  p.queue.length + ∑ a ∈ U, (2 - p.addressAttempts a)

section Attempt

variable {U : Finset String} {C : List String} {p : Pass} {addr : String} {queue : List String}

theorem attempt_attempts (p : Pass) (addr : String) (queue : List String) (a : String) :
    (p.attempt addr queue).addressAttempts a
      = if a = addr then p.addressAttempts addr + 1 else p.addressAttempts a := by
  show Function.update p.addressAttempts addr _ a = _
  split
  · rename_i ha
    rw [ha, Function.update_self]
  · rename_i ha
    rw [Function.update_of_ne ha]

theorem Bounded.attempt (h : Bounded U p) (hlt : p.addressAttempts addr < 2)
    (queue : List String) : Bounded U (p.attempt addr queue) where
  attempts_le := by
    intro a
    rw [attempt_attempts]
    split
    · omega
    · exact h.attempts_le a
  calls_le := by
    intro a
    have hcalls := h.calls_le a
    rw [attempt_attempts]
    split
    · rename_i ha
      rw [ha] at hcalls ⊢
      exact Nat.le_succ_of_le hcalls
    · exact hcalls
  calls_mem := h.calls_mem

/-- A call is made after its attempt was counted. -/
theorem Bounded.called (h : Bounded U p) (hlt : p.addressAttempts addr < 2) (haddr : addr ∈ U)
    (queue : List String) : Bounded U ((p.attempt addr queue).called addr) where
  attempts_le := (h.attempt hlt queue).attempts_le
  calls_le := by
    intro a
    have hcalls := h.calls_le a
    show (p.calls ++ [addr]).count a ≤ (p.attempt addr queue).addressAttempts a
    rw [attempt_attempts, List.count_append]
    split
    · rename_i ha
      rw [ha] at hcalls ⊢
      rw [List.count_singleton_self]
      omega
    · rename_i ha
      rw [List.count_eq_zero_of_not_mem (mt List.mem_singleton.mp ha)]
      exact hcalls
  calls_mem := by
    intro a ha
    rcases List.mem_append.mp ha with hold | hnew
    · exact h.calls_mem a hold
    · rw [List.mem_singleton.mp hnew]
      exact haddr

theorem Inv.covered_attempt (h : Inv U C p) (hqueue : p.queue = addr :: queue)
    {queue' : List String} (hsub : ∀ a ∈ queue, a ∈ queue') :
    ∀ a ∈ C, a ≠ "" → a ∈ (p.attempt addr queue').attempted ∨ a ∈ queue' := by
  intro a ha hne
  show a ∈ p.attempted ++ [addr] ∨ _
  rw [List.mem_append]
  rcases h.covered a ha hne with hold | hin
  · exact Or.inl (Or.inl hold)
  · rw [hqueue] at hin
    rcases List.mem_cons.mp hin with rfl | htail
    · exact Or.inl (Or.inr (List.mem_singleton.mpr rfl))
    · exact Or.inr (hsub a htail)

theorem Inv.attempted_attempt (h : Inv U C p) (queue' : List String) :
    ∀ a, 0 < (p.attempt addr queue').addressAttempts a →
      a ∈ (p.attempt addr queue').attempted := by
  intro a hpos
  show a ∈ p.attempted ++ [addr]
  rw [attempt_attempts] at hpos
  rw [List.mem_append, List.mem_singleton]
  split at hpos
  · rename_i ha
    exact Or.inr ha
  · exact Or.inl (h.attempted_mem a hpos)

/-- An address is passed over only if it was attempted before. -/
theorem Inv.skip (h : Inv U C p) (hqueue : p.queue = addr :: queue)
    (hskip : addr = "" ∨ 2 ≤ p.addressAttempts addr) : Inv U C { p with queue := queue } where
  attempts_le := h.attempts_le
  calls_le := h.calls_le
  calls_mem := h.calls_mem
  queue_mem := fun a ha => h.queue_mem a (hqueue ▸ List.mem_cons_of_mem addr ha)
  covered := by
    intro a ha hne
    rcases h.covered a ha hne with hold | hin
    · exact Or.inl hold
    · rw [hqueue] at hin
      rcases List.mem_cons.mp hin with rfl | htail
      · rcases hskip with hempty | htwice
        · exact absurd hempty hne
        · exact Or.inl (h.attempted_mem a (by omega))
      · exact Or.inr htail
  attempted_mem := h.attempted_mem

/-- An attempt uses up one of the attempts that are left. -/
theorem sum_attempt (haddr : addr ∈ U) (hlt : p.addressAttempts addr < 2)
    (queue : List String) :
    ∑ a ∈ U, (2 - (p.attempt addr queue).addressAttempts a) + 1
      = ∑ a ∈ U, (2 - p.addressAttempts a) := by
  rw [← Finset.add_sum_erase U _ haddr, ← Finset.add_sum_erase U (fun a => _) haddr,
    attempt_attempts, if_pos rfl]
  have hrest : ∑ a ∈ U.erase addr, (2 - (p.attempt addr queue).addressAttempts a)
      = ∑ a ∈ U.erase addr, (2 - p.addressAttempts a) := by
    refine Finset.sum_congr rfl fun a ha => ?_
    rw [attempt_attempts, if_neg (Finset.ne_of_mem_erase ha)]
  rw [hrest]
  omega

theorem rank_lt_of_attempt (hqueue : p.queue = addr :: queue) (haddr : addr ∈ U)
    (hlt : p.addressAttempts addr < 2) {p' : Pass} (queue' : List String)
    (hattempts : p'.addressAttempts = (p.attempt addr queue').addressAttempts)
    (hlength : p'.queue.length ≤ queue.length + 1) : p'.rank U < p.rank U := by
  have hspent := sum_attempt haddr hlt queue'
  rw [rank, rank, hattempts, hqueue, List.length_cons]
  omega

end Attempt

/-- **What an iteration can do.** -/
inductive Iterated (p : Pass) (turn : Turn T) : Pass ⊕ PassResult T → Prop where
  | exhausted (hqueue : p.queue = []) :
      Iterated p turn (.inr ⟨p, .error (p.lastErr.getD allFailed), true⟩)
  | ctxDone (addr : String) (queue : List String) (err : CallError)
      (hqueue : p.queue = addr :: queue) (hctx : turn.ctxErr = some err) :
      Iterated p turn (.inr ⟨p, .error (p.lastErr.getD err), false⟩)
  | skipped (addr : String) (queue : List String) (hqueue : p.queue = addr :: queue)
      (hskip : addr = "" ∨ 2 ≤ p.addressAttempts addr) :
      Iterated p turn (.inl { p with queue := queue })
  | noConn (addr : String) (queue : List String) (err : CallError)
      (hqueue : p.queue = addr :: queue) (hlt : p.addressAttempts addr < 2)
      (hattempt : turn.attempt = .noConn err) :
      Iterated p turn (.inl { p.attempt addr queue with lastErr := some err })
  | answered (addr : String) (queue : List String) (resp : T) (hqueue : p.queue = addr :: queue)
      (hlt : p.addressAttempts addr < 2) :
      Iterated p turn (.inr ⟨{ (p.attempt addr queue).called addr with
        resolver := p.resolver.rememberAddr addr }, .ok resp, false⟩)
  | redirected (addr : String) (queue : List String) (err : CallError) (unresponsive : Bool)
      (hqueue : p.queue = addr :: queue) (hlt : p.addressAttempts addr < 2)
      (hattempt : turn.attempt = .failed err unresponsive) (hhint : err.hint ≠ "") :
      Iterated p turn (.inl { (p.attempt addr (err.hint :: queue)).called addr with
        lastErr := some err
        resolver := p.resolver.rememberAddr err.hint })
  | refused (addr : String) (queue : List String) (err : CallError) (unresponsive : Bool)
      (hqueue : p.queue = addr :: queue) (hlt : p.addressAttempts addr < 2)
      (hattempt : turn.attempt = .failed err unresponsive) :
      Iterated p turn (.inr ⟨{ (p.attempt addr queue).called addr with lastErr := some err },
        .error err, false⟩)
  | failed (addr : String) (queue : List String) (err : CallError) (unresponsive : Bool)
      (hqueue : p.queue = addr :: queue) (hlt : p.addressAttempts addr < 2)
      (hattempt : turn.attempt = .failed err unresponsive) :
      Iterated p turn (.inl { (p.attempt addr queue).called addr with lastErr := some err })

theorem iterated (p : Pass) (turn : Turn T) : Iterated p turn (p.iterate turn) := by
  unfold iterate
  cases hqueue : p.queue with
  | nil => exact .exhausted hqueue
  | cons addr queue =>
    cases hctx : turn.ctxErr with
    | some err => exact .ctxDone addr queue err hqueue hctx
    | none =>
      dsimp only
      split
      · rename_i hskip
        exact .skipped addr queue hqueue hskip
      · rename_i hskip
        have hlt : p.addressAttempts addr < 2 := by
          by_contra hge
          exact hskip (Or.inr (not_lt.mp hge))
        cases hattempt : turn.attempt with
        | noConn err => exact .noConn addr queue err hqueue hlt hattempt
        | answered resp => exact .answered addr queue resp hqueue hlt
        | failed err unresponsive =>
          dsimp only
          split
          · rename_i hhint
            exact .redirected addr queue err unresponsive hqueue hlt hattempt hhint
          · split
            · exact .refused addr queue err unresponsive hqueue hlt hattempt
            · exact .failed addr queue err unresponsive hqueue hlt hattempt

/-- **One iteration**: it goes on with a smaller rank, or returns within the bounds, and with a
retry only when all candidates were attempted. -/
theorem Iterated.ends {U A : Finset String} {C : List String} {p : Pass} {turn : Turn T}
    {out : Pass ⊕ PassResult T} (hit : Iterated p turn out) (hAU : A ⊆ U) (h : Inv U C p)
    (hhints : ∀ err unresponsive, turn.attempt = .failed err unresponsive → err.hint ≠ "" →
      err.hint ∈ A) :
    (∃ p', out = .inl p' ∧ Inv U C p' ∧ p'.rank U < p.rank U) ∨
    ∃ result, out = .inr result ∧ Bounded U result.pass ∧
      (result.retry = true → ∀ a ∈ C, a ≠ "" → a ∈ result.pass.attempted) := by
  have hhead : ∀ {addr queue}, p.queue = addr :: queue → addr ∈ U :=
    fun hqueue => h.queue_mem _ (hqueue ▸ List.mem_cons_self)
  have htail : ∀ {addr queue}, p.queue = addr :: queue → ∀ a ∈ queue, a ∈ U :=
    fun hqueue a ha => h.queue_mem a (hqueue ▸ List.mem_cons_of_mem _ ha)
  cases hit with
  | exhausted hqueue =>
    refine Or.inr ⟨_, rfl, h.toBounded, fun _ a ha hne => ?_⟩
    rcases h.covered a ha hne with hold | hin
    · exact hold
    · rw [hqueue] at hin
      cases hin
  | ctxDone addr queue err => exact Or.inr ⟨_, rfl, h.toBounded, nofun⟩
  | skipped addr queue hqueue hskip =>
    refine Or.inl ⟨_, rfl, h.skip hqueue hskip, ?_⟩
    simp only [rank, hqueue, List.length_cons]
    omega
  | noConn addr queue err hqueue hlt =>
    refine Or.inl ⟨_, rfl, ?_, ?_⟩
    · exact ⟨(h.toBounded.attempt hlt queue).congr rfl rfl, htail hqueue,
        h.covered_attempt hqueue fun _ => id, h.attempted_attempt queue⟩
    · exact rank_lt_of_attempt hqueue (hhead hqueue) hlt queue rfl (Nat.le_succ _)
  | answered addr queue resp hqueue hlt =>
    exact Or.inr ⟨_, rfl, (h.toBounded.called hlt (hhead hqueue) queue).congr rfl rfl, nofun⟩
  | redirected addr queue err unresponsive hqueue hlt hattempt hhint =>
    refine Or.inl ⟨_, rfl, ?_, ?_⟩
    · refine ⟨(h.toBounded.called hlt (hhead hqueue) _).congr rfl rfl, ?_,
        h.covered_attempt hqueue fun a => List.mem_cons_of_mem err.hint,
        h.attempted_attempt (err.hint :: queue)⟩
      intro a ha
      rcases List.mem_cons.mp ha with rfl | ha
      · exact hAU (hhints err unresponsive hattempt hhint)
      · exact htail hqueue a ha
    · exact rank_lt_of_attempt hqueue (hhead hqueue) hlt (err.hint :: queue) rfl (Nat.le_refl _)
  | refused addr queue err unresponsive hqueue hlt =>
    exact Or.inr ⟨_, rfl, (h.toBounded.called hlt (hhead hqueue) queue).congr rfl rfl, nofun⟩
  | failed addr queue err unresponsive hqueue hlt =>
    refine Or.inl ⟨_, rfl, ?_, ?_⟩
    · exact ⟨(h.toBounded.called hlt (hhead hqueue) queue).congr rfl rfl, htail hqueue,
        h.covered_attempt hqueue fun _ => id, h.attempted_attempt queue⟩
    · exact rank_lt_of_attempt hqueue (hhead hqueue) hlt queue rfl (Nat.le_succ _)

/-- **A pass ends**, within the bounds, after at most as many iterations as its rank and one. -/
theorem loop_ends {U A : Finset String} {C : List String} (hAU : A ⊆ U) {env : Nat → Turn T}
    (henv : HintsIn A env) (fuel k : Nat) {p : Pass} (h : Inv U C p) (hfuel : p.rank U < fuel) :
    ∃ result, loop env fuel k p = some result ∧ Bounded U result.pass ∧
      (result.retry = true → ∀ a ∈ C, a ≠ "" → a ∈ result.pass.attempted) := by
  induction fuel generalizing k p with
  | zero => omega
  | succ fuel ih =>
    rw [loop]
    rcases (p.iterated (env k)).ends hAU h (henv k) with
      ⟨p', hiter, hinv, hrank⟩ | ⟨result, hiter, hbounded, hretry⟩
    · rw [hiter]
      exact ih (k + 1) hinv (by omega)
    · rw [hiter]
      exact ⟨result, rfl, hbounded, hretry⟩

/-- More fuel does not change what a pass returns. -/
theorem loop_mono {env : Nat → Turn T} {fuel fuel' k : Nat} {p : Pass} {result : PassResult T}
    (hle : fuel ≤ fuel') (h : loop env fuel k p = some result) :
    loop env fuel' k p = some result := by
  induction fuel generalizing fuel' k p with
  | zero => cases h
  | succ fuel ih =>
    obtain ⟨fuel', rfl⟩ : ∃ n, fuel' = n + 1 := ⟨fuel' - 1, by omega⟩
    rw [loop] at h ⊢
    cases hiter : p.iterate (env k) with
    | inl p' =>
      rw [hiter] at h
      exact ih (by omega) h
    | inr out =>
      rw [hiter] at h
      exact h

/-- The resolver after an iteration. -/
def resolverOf : Pass ⊕ PassResult T → Resolver
  | .inl p => p.resolver
  | .inr result => result.pass.resolver

/-- The resolver changes in a pass by calls of `rememberAddr` only. -/
theorem Iterated.resolver {p : Pass} {turn : Turn T} {out : Pass ⊕ PassResult T}
    (hit : Iterated p turn out) : ∃ ops, resolverOf out = p.resolver.after ops := by
  cases hit with
  | answered addr => exact ⟨[.rememberAddr addr], rfl⟩
  | redirected addr queue err => exact ⟨[.rememberAddr err.hint], rfl⟩
  | exhausted | ctxDone | skipped | noConn | refused | failed => exact ⟨[], rfl⟩

theorem resolver_loop {env : Nat → Turn T} {fuel k : Nat} {p : Pass} {result : PassResult T}
    (h : loop env fuel k p = some result) :
    ∃ ops, result.pass.resolver = p.resolver.after ops := by
  induction fuel generalizing k p with
  | zero => cases h
  | succ fuel ih =>
    rw [loop] at h
    obtain ⟨ops, hops⟩ := (p.iterated (env k)).resolver
    cases hiter : p.iterate (env k) with
    | inl p' =>
      rw [hiter] at h hops
      obtain ⟨ops', hops'⟩ := ih h
      refine ⟨ops ++ ops', ?_⟩
      have hp' : p'.resolver = p.resolver.after ops := hops
      rw [hops', hp', Resolver.after, Resolver.after, Resolver.after, List.foldl_append]
    | inr out =>
      rw [hiter] at h hops
      cases h
      exact ⟨ops, hops⟩

theorem inv_start (r : Resolver) (A : Finset String) :
    Inv (A ∪ r.candidateAddrs.toFinset) r.candidateAddrs (start r) where
  attempts_le := fun _ => Nat.zero_le 2
  calls_le := fun _ => Nat.le_refl 0
  calls_mem := nofun
  queue_mem := fun _ ha => Finset.mem_union_right A (List.mem_toFinset.mpr ha)
  covered := fun _ ha _ => Or.inr ha
  attempted_mem := fun _ hpos => absurd hpos (Nat.lt_irrefl 0)

/-- Two calls at most on each of the addresses that can come up. -/
theorem Bounded.length_calls {U : Finset String} {p : Pass} (h : Bounded U p) :
    p.calls.length ≤ 2 * U.card := by
  have hsum := Multiset.sum_count_eq_card (s := U) (m := (p.calls : Multiset String)) h.calls_mem
  rw [Multiset.coe_card] at hsum
  calc p.calls.length = ∑ a ∈ U, Multiset.count a (p.calls : Multiset String) := hsum.symm
    _ ≤ ∑ _a ∈ U, 2 := by
      refine Finset.sum_le_sum fun a _ => ?_
      rw [Multiset.coe_count]
      exact (h.calls_le a).trans (h.attempts_le a)
    _ = 2 * U.card := by rw [Finset.sum_const_nat fun _ _ => rfl, Nat.mul_comm]

end Pass

/-- **One failover pass**, from every resolver that can come about and against every behaviour of
the servers whose hints stay in a finite set. -/
theorem failover_pass {T : Type} (xs : List String) (ops : List Resolver.Op) (A : Finset String)
    (env : Nat → Turn T) (henv : HintsIn A env) :
    ∀ r, r = (newResolver (normalizeSeedAddrs xs)).after ops →
      (∃ fuel result, (∀ fuel' ≥ fuel, tryCandidates env r fuel' = some result) ∧
        result.pass.calls.length ≤ 2 * (A ∪ r.candidateAddrs.toFinset).card ∧
        (∀ a, result.pass.calls.count a ≤ 2) ∧
        (result.retry = true → ∀ a ∈ learnedAddrs xs ops, a ∈ result.pass.attempted) ∧
        ∃ ops', result.pass.resolver = r.after ops') ∧
      (∀ a ∈ learnedAddrs xs ops, r.candidateAddrs.count a = 1) ∧ r.candidateAddrs.Nodup ∧
      (r.currentAddr ≠ "" → r.candidateAddrs.head? = some r.currentAddr) := by
  intro r hr
  have hinv := Pass.inv_start r A
  have hmem : ∀ a ∈ learnedAddrs xs ops, a ∈ r.candidateAddrs := by
    intro a ha
    rw [hr]
    exact Resolver.mem_candidateAddrs_after.mpr ha
  refine ⟨?_, ?_, r.nodup_candidateAddrs, Resolver.head?_candidateAddrs⟩
  · obtain ⟨result, hresult, hbounded, hretry⟩ :=
      Pass.loop_ends Finset.subset_union_left henv _ 0 hinv (Nat.lt_succ_self _)
    refine ⟨_, result, fun fuel' hle => Pass.loop_mono hle hresult, hbounded.length_calls,
      fun a => (hbounded.calls_le a).trans (hbounded.attempts_le a), ?_,
      Pass.resolver_loop hresult⟩
    intro hyes a ha
    refine hretry hyes a (hmem a ha) ?_
    simpa using (List.mem_filter.mp ha).2
  · intro a ha
    exact List.count_eq_one_of_mem r.nodup_candidateAddrs (hmem a ha)

/-- Two nodes that take each other for the leader. -/
def hintCycle (k : Nat) : Turn Unit where
  ctxErr := none
  attempt := .failed ⟨.unavailable, if k % 2 = 0 then "beta:9000" else "alpha:9000", "not leader"⟩
    false

theorem failover_pass_hintCycle :
    ∃ fuel result, tryCandidates hintCycle
        (newResolver (normalizeSeedAddrs ["alpha:9000, beta:9000"])) fuel = some result ∧
      result.pass.calls.length ≤ 4 ∧ ∀ a, result.pass.calls.count a ≤ 2 := by
  have hhints : HintsIn {"alpha:9000", "beta:9000"} hintCycle := by
    intro k err unresponsive hattempt _
    cases hattempt
    dsimp only
    split <;> decide
  obtain ⟨⟨fuel, result, hends, hlength, htwice, -⟩, -⟩ := failover_pass
    ["alpha:9000, beta:9000"] [] {"alpha:9000", "beta:9000"} hintCycle hhints _ rfl
  exact ⟨fuel, result, hends fuel (Nat.le_refl fuel), hlength.trans (by decide), htwice⟩

/-- A resolver that started without seeds and has learned one has no current address. -/
theorem not_currentFirst_seedOnly :
    ¬ ∀ (xs : List String) (ops : List Resolver.Op) (a : String),
      ((newResolver (normalizeSeedAddrs xs)).after ops).candidateAddrs.head? = some a →
        a = ((newResolver (normalizeSeedAddrs xs)).after ops).currentAddr := by
  intro h
  have hfirst := h [] [.rememberSeed "alpha:9000"] "alpha:9000" (by decide)
  revert hfirst
  decide

end Clavis
