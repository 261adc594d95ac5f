import TwinCopy.Failure

/-!
# Counters that slots are hashed to

An array of 64-bit counters, a power of two of them. A slot's index is scrambled and cut to a
bucket, so there may be any number of slots; two slots in one bucket only share its count.
-/

namespace TwinCopy

/-- The counters, as many as there are buckets. -/
structure HashedCounters where
  buckets : List UInt64
  deriving DecidableEq, Repr, Inhabited

namespace HashedCounters

/-- The least power of two that is at least `n`, and at least one. -/
def leastPowerOfTwo (n : Nat) : Nat :=
  if n ≤ 1 then 1 else 1 <<< ((n - 1).log2 + 1)

/-- Empty counters, as many as asked for or the next power of two. -/
def ofCount (n : Nat) : HashedCounters :=
  ⟨List.replicate (leastPowerOfTwo n) 0⟩

/-- How many buckets there are. -/
def size (c : HashedCounters) : Nat :=
  c.buckets.length

/-- Three xorshift steps on the index plus one. -/
def scramble (slot : Nat) : UInt64 :=
  let x := UInt64.ofNat slot + 1
  let x := x ^^^ (x <<< 21)
  let x := x ^^^ (x >>> 35)
  x ^^^ (x <<< 4)

/-- The bucket of a slot: the low bits of its scrambled index. -/
def bucket (c : HashedCounters) (slot : Nat) : Nat :=
  (scramble slot &&& UInt64.ofNat (c.size - 1)).toNat

/-- Adds one to the bucket. -/
def arrive (c : HashedCounters) (slot : Nat) : HashedCounters :=
  ⟨c.buckets.modify (c.bucket slot) (· + 1)⟩

/-- Takes one off the bucket, and puts it back if there was none. -/
def depart (c : HashedCounters) (slot : Nat) : Except Misuse Unit × HashedCounters :=
  let i := c.bucket slot
  let taken : HashedCounters := ⟨c.buckets.modify i (· - 1)⟩
  if c.buckets[i]? = some 0 then
    (.error .unmatchedDeparture, ⟨taken.buckets.modify i (· + 1)⟩)
  else (.ok (), taken)

/-- Every counter is zero. -/
def isEmpty (c : HashedCounters) : Bool :=
  c.buckets.all (· == 0)

end HashedCounters

end TwinCopy
