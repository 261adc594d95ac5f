/-!
# Why a call fails

There are three ways not to answer. A call may report an `Error`, which its caller is expected
to handle. It may end in a `Fault`: the caller broke the contract of a primitive, or a query or
a mutation supplied by the caller gave up half way. And a script interpreter may give a
`Refusal`, when an operation makes no sense where it stands. Every text is written once, here.
-/

namespace TwinCopy

/-- The ways to break the contract of a concurrency primitive. -/
inductive Misuse where
  /-- a departure for which no arrival is on record -/
  | unmatchedDeparture
  /-- a slot of one registry used with an instance that keeps another -/
  | foreignSlot
  /-- a slot whose index lies outside a per-slot array -/
  | slotBeyondCapacity
  /-- the release of a lock that nobody holds -/
  | lockNotHeld
  /-- a request that was withdrawn without a result -/
  | noOutput
  deriving DecidableEq, Repr

/-- What was done wrong, as the event log has it. -/
def Misuse.what : Misuse → String
  | unmatchedDeparture => "depart without a matching arrive"
  | foreignSlot => "slot used with an instance that did not issue it"
  | slotBeyondCapacity => "slot index beyond the per-thread read-indicator capacity"
  | lockNotHeld => "released a SpinLock that was not locked"
  | noOutput => "combined request has no output"

/-- Why a call did not return: a broken contract, or code of the caller that gave up. -/
inductive Fault where
  | misuse (m : Misuse)
  | raised (message : String)
  deriving DecidableEq, Repr

/-- The message a fault is reported with. -/
def Fault.message : Fault → String
  | misuse m => "misuse: " ++ m.what
  | raised message => message

/-- The errors a caller is expected to handle. -/
inductive Error where
  /-- every slot of a bounded registry is taken -/
  | slotsExhausted (capacity : Nat)
  /-- the configuration asks for no reader at all -/
  | noThreads
  /-- the number of buckets is not a power of two -/
  | bucketsNotPowerOfTwo (buckets : Nat)
  /-- a configuration file that is missing or is not text -/
  | configUnreadable (path : String)
  /-- a text that is not a configuration document -/
  | configMalformed
  deriving DecidableEq, Repr

/-- The message an error is reported with. -/
def Error.message : Error → String
  | slotsExhausted capacity => "all " ++ toString capacity ++ " reader slots are in use"
  | noThreads => "invalid configuration: max_threads must be at least 1"
  | bucketsNotPowerOfTwo buckets =>
      "invalid configuration: counter_buckets=" ++ toString buckets ++ " is not a power of two"
  | configUnreadable path => "failed to read '" ++ path ++ "'"
  | configMalformed => "failed to parse config"

/-- Why the interpreter of a script turns an operation down. -/
inductive Refusal where
  | unknownOperation
  | unknownMutation
  | noSuchSlot
  | slotBusy
  | unsupported
  | busy
  | notLocked
  | wouldBlock
  | noGuard
  deriving DecidableEq, Repr

/-- The message a refusal is reported with. -/
def Refusal.message : Refusal → String
  | unknownOperation => "bad op"
  | unknownMutation => "bad mutation"
  | noSuchSlot => "no such slot"
  | slotBusy => "slot busy"
  | unsupported => "unsupported"
  | busy => "busy"
  | notLocked => "not locked"
  | wouldBlock => "would block"
  | noGuard => "no guard"

/-- Why an operation of a script has no answer. A fault in a repeated operation says in which
repetition, counted from zero, it arose. -/
inductive Failure where
  | refused (r : Refusal)
  | error (e : Error)
  | fault (f : Fault) (repetition : Option Nat)
  deriving DecidableEq, Repr

end TwinCopy
