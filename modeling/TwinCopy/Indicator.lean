import TwinCopy.Config
import TwinCopy.Indicator.HashedCounters
import TwinCopy.Indicator.PairedCounters
import TwinCopy.Indicator.SingleCounter
import TwinCopy.Indicator.SlotFlags

/-!
# Read-indicators

A read-indicator tells whether any reader is in flight. A reader arrives and departs with its
slot; an indicator is empty once every arrival has departed. There are five kinds: one counter,
two counters that only grow, hashed counters, and two that keep a flag for each slot and differ
in how they look for a reader.
-/

namespace TwinCopy

/-- The kinds of read-indicator. -/
inductive IndicatorKind where
  | single
  | paired
  | hashed
  /-- flags, empty when all of them are down -/
  | flagged
  /-- flags, empty when none of them is up -/
  | watched
  deriving DecidableEq, Repr, Inhabited

namespace IndicatorKind

/-- The kind that scripts call by this name. -/
def ofName? : String → Option IndicatorKind
  | "counter" => some single
  | "ingress_egress" => some paired
  | "counter_array" => some hashed
  | "static" => some flagged
  | "entry" => some watched
  | _ => none

/-- How many slots may be live at once with a read-indicator of this kind. -/
def slotCapacity (c : Config) : IndicatorKind → Option Nat
  | single | paired | hashed => none
  | flagged | watched => some c.maxThreads

end IndicatorKind

/-- Somebody arrives or departs, with the index of a slot. -/
inductive Motion where
  | arrival (slot : Nat)
  | departure (slot : Nat)
  deriving DecidableEq, Repr

/-- A read-indicator of one of the kinds. -/
inductive Indicator where
  | single (c : SingleCounter)
  | paired (c : PairedCounters)
  | hashed (c : HashedCounters)
  | flagged (f : SlotFlags)
  | watched (f : SlotFlags)
  deriving DecidableEq, Repr

namespace Indicator

/-- An empty read-indicator with the given number of buckets or flags. -/
def ofSize (kind : IndicatorKind) (n : Nat) : Indicator :=
  match kind with
  | .single => .single .empty
  | .paired => .paired .empty
  | .hashed => .hashed (.ofCount n)
  | .flagged => .flagged (.ofCount n)
  | .watched => .watched (.ofCount n)

/-- An empty read-indicator as a configuration sizes it. -/
def ofConfig (kind : IndicatorKind) (c : Config) : Indicator :=
  match kind with
  | .single | .paired | .flagged | .watched => ofSize kind c.maxThreads
  | .hashed => ofSize kind c.counterBuckets

/-- Records the arrival of the holder of a slot. -/
def arrive (i : Indicator) (slot : Nat) : Except Misuse Indicator :=
  match i with
  | single c => .ok (single c.arrive)
  | paired c => .ok (paired c.arrive)
  | hashed c => .ok (hashed (c.arrive slot))
  | flagged f => (f.arrive slot).map flagged
  | watched f => (f.arrive slot).map watched

/-- Records the departure of the holder of a slot. -/
def depart (i : Indicator) (slot : Nat) : Except Misuse Unit × Indicator :=
  match i with
  | single c => c.depart.map id single
  | paired c => c.depart.map id paired
  | hashed c => (c.depart slot).map id hashed
  | flagged f => (f.depart slot).map id flagged
  | watched f => (f.depart slot).map id watched

/-- Whether every arrival has departed. -/
def isEmpty : Indicator → Bool
  | single c => c.isEmpty
  | paired c => c.isEmpty
  | hashed c => c.isEmpty
  | flagged f => f.allDown
  | watched f => !f.anyUp

/-- What a motion is answered and what it leaves. -/
def pass (i : Indicator) : Motion → Except Misuse Unit × Indicator
  | .arrival slot =>
      match i.arrive slot with
      | .ok j => (.ok (), j)
      | .error m => (.error m, i)
  | .departure slot => i.depart slot

/-- The number of buckets of a hashed read-indicator. -/
def buckets? : Indicator → Option Nat
  | hashed c => some c.size
  | _ => none

end Indicator

end TwinCopy
