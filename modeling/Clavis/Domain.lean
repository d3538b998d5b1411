import Mathlib.Data.Finmap

/-!
# Clavis — the domain types

`internal/domain`: locks, leases and the sentinel errors shared by the state machine, the service
and the transport, together with the two pieces of Go's `time` package they use.

A `time.Time` obtained from a Unix nanosecond count is modelled by that count, an unbounded
`Int` (`time.Time` itself has a range of 2^63 seconds on either side, so adding a duration
never overflows it); `UnixNano` truncates it back to 64 bits. The zero `time.Time` is the year 1,
which no 64-bit nanosecond count reaches, so where the code distinguishes it with `IsZero` the
model has an `Option Int` with `none` for the zero time.
-/

namespace Clavis

/-- `time.Duration`: nanoseconds in 64 bits. -/
abbrev Duration := Int64

/-- `time.Time.UnixNano`. -/
def Time.unixNano (t : Int) : Int64 := Int64.ofInt t

/-- `time.Time.Add`. -/
def Time.add (t : Int) (d : Duration) : Int := t + d.toInt

/-- A pointer: `none` is `nil`. In the `Option` monad a dereference is a bind, and `none` as the
value of a whole computation is the nil-pointer panic. -/
abbrev Ptr (α : Type) := Option α

/-- `domain.Lock`. -/
structure Lock where
  name : String
  ownerID : String
  fencingToken : UInt64
  leaseID : UInt64
deriving DecidableEq, Repr

/-- `domain.Lease`. `expiresAtUnixNano` is the creation time plus the TTL. -/
structure Lease where
  leaseID : UInt64
  ownerID : String
  expiresAtUnixNano : Int64
  ttl : Duration
deriving DecidableEq, Repr

/-- `Lease.ExpiresAt`: the lease's initial deadline. -/
def Lease.expiresAt (l : Lease) : Int := l.expiresAtUnixNano.toInt

/-- The sentinel errors of `internal/domain/errors.go`. `unknownCommand` carries the command type
the state machine wraps it with. -/
inductive DomainError where
  | leaseNotFound
  | leaseExpired
  | invalidLeaseTTL
  | invalidTimestamp
  | lockNotFound
  | lockAlreadyHeld
  | notLockOwner
  | nodeNotFound
  | invalidClusterNode
  | unknownCommand (commandType : String)
deriving DecidableEq, Repr

/-- The text of an error. -/
def DomainError.error : DomainError → String
  | leaseNotFound => "lease not found"
  | leaseExpired => "lease has expired"
  | invalidLeaseTTL => "invalid lease TTL"
  | invalidTimestamp => "invalid command timestamp"
  | lockNotFound => "lock not found"
  | lockAlreadyHeld => "lock is already held by another client"
  | notLockOwner => "caller is not the lock owner"
  | nodeNotFound => "cluster node not found"
  | invalidClusterNode => "invalid cluster node metadata"
  | unknownCommand commandType => "unknown command type: " ++ commandType

end Clavis
