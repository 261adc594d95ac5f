import TwinCopy.Failure
import TwinCopy.Side

/-!
# The event log

The primitives report what they do as they do it. An event has a level, a fixed text and named
values.
-/

namespace TwinCopy

/-- How much an event matters. -/
inductive Level where
  | trace
  | debug
  | error
  deriving DecidableEq, Repr

/-- What is reported. -/
inductive Event where
  /-- a registry handed out the slot with this index -/
  | slotRegistered (index : Nat)
  /-- a contract was broken -/
  | misused (m : Misuse)
  /-- the readers of the version before this one have left -/
  | readersDrained (version : Version)
  /-- the same, for the counters of a packed word -/
  | packedReadersDrained (version : Version)
  /-- this many readers that a flip of the side had left behind are gone -/
  | ingressDrained (readers : Nat)
  /-- the counters of the active side restart from the readers in flight -/
  | ingressRebased (inFlight : Nat)
  /-- a mutation has reached both copies, the count includes it -/
  | mutationApplied (mutations : Nat) (side : Side)
  /-- the same, for an instance that packs its state in a word -/
  | packedMutationApplied (side : Side)
  /-- a batch of mutations has reached both copies, the count includes it -/
  | batchApplied (size batches : Nat)
  /-- a mutation of a batch gave up, and the whole batch with it -/
  | batchAbandoned (size : Nat)
  deriving DecidableEq, Repr

/-- The value of a field of an event. -/
inductive FieldValue where
  | number (n : Nat)
  | text (s : String)
  deriving DecidableEq, Repr

namespace Event

/-- How much an event matters: steps on the way least, a completed change more, a failure most. -/
def level : Event → Level
  | slotRegistered _ | readersDrained _ | packedReadersDrained _ | ingressDrained _
  | ingressRebased _ => .trace
  | mutationApplied .. | packedMutationApplied _ | batchApplied .. => .debug
  | misused _ | batchAbandoned _ => .error

/-- The fixed text of an event. -/
def text : Event → String
  | slotRegistered _ => "reader slot registered"
  | misused _ => "concurrency primitive misused"
  | readersDrained _ => "readers drained"
  | packedReadersDrained _ | ingressDrained _ => "packed readers drained"
  | ingressRebased _ => "ingress rebased"
  | mutationApplied .. => "left-right mutation applied"
  | packedMutationApplied _ => "packed left-right mutation applied"
  | batchApplied .. => "combined mutations applied"
  | batchAbandoned _ => "mutation panicked while combining, batch abandoned"

/-- The named values of an event, in the order in which they are written. -/
def fields : Event → List (String × FieldValue)
  | slotRegistered index => [("index", .number index)]
  | misused m => [("what", .text m.what)]
  | readersDrained version | packedReadersDrained version => [("version", .number version.index)]
  | ingressDrained readers => [("drained", .number readers)]
  | ingressRebased inFlight => [("in_flight", .number inFlight)]
  | mutationApplied mutations side =>
      [("mutations", .number mutations), ("side", .text side.name)]
  | packedMutationApplied side => [("side", .text side.name)]
  | batchApplied size batches => [("batch", .number size), ("batches", .number batches)]
  | batchAbandoned size => [("batch", .number size)]

end Event

end TwinCopy
