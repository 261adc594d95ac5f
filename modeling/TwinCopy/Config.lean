import TwinCopy.Failure
import TwinCopy.Lock

/-!
# Configuration

The sizes that the parts of an instance are built with, and the waiting policy.
-/

namespace TwinCopy

/-- What the parts of an instance are built with. -/
structure Config where
  /-- how many slots per-slot arrays and bounded registries have -/
  maxThreads : Nat := 128
  /-- how many counters a hashed read-indicator has, a power of two -/
  counterBuckets : Nat := 64
  wait : WaitPolicy := .yield
  deriving DecidableEq, Repr, Inhabited

/-- A word with one bit set: taking one off clears that bit and sets those below. -/
def isPowerOfTwo (n : Nat) : Bool :=
  n != 0 && n &&& (n - 1) == 0

namespace Config

/-- The configuration of those who ask for none. -/
def standard : Config := {}

/-- Accepts a configuration that an instance can be built with. -/
def validate (c : Config) : Except Error Config :=
  if c.maxThreads = 0 then .error .noThreads
  else if !isPowerOfTwo c.counterBuckets then .error (.bucketsNotPowerOfTwo c.counterBuckets)
  else .ok c

end Config

end TwinCopy
