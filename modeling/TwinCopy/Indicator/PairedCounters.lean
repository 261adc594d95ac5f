import TwinCopy.Failure

/-!
# Arrivals and departures counted apart

Two 64-bit words that only grow: `ingress` counts arrivals, `egress` counts departures. Nobody is
in flight when they are equal. A departure is unmatched when it finds as many departures as
arrivals, and then takes its own count back.
-/

namespace TwinCopy

/-- The count of arrivals and the count of departures. -/
structure PairedCounters where
  ingress : UInt64
  egress : UInt64
  deriving DecidableEq, Repr, Inhabited

namespace PairedCounters

/-- Nobody has arrived yet. -/
def empty : PairedCounters := ⟨0, 0⟩

/-- Counts an arrival. -/
def arrive (c : PairedCounters) : PairedCounters :=
  { c with ingress := c.ingress + 1 }

/-- Counts a departure, unless there is no arrival for it. -/
def depart (c : PairedCounters) : Except Misuse Unit × PairedCounters :=
  let counted := { c with egress := c.egress + 1 }
  if c.egress ≥ c.ingress then
    (.error .unmatchedDeparture, { counted with egress := counted.egress - 1 })
  else (.ok (), counted)

/-- As many have departed as arrived. -/
def isEmpty (c : PairedCounters) : Bool :=
  c.egress == c.ingress

/-- An unmatched departure leaves both counters as they were. -/
theorem depart_of_ingress_le {c : PairedCounters} (h : c.egress ≥ c.ingress) :
    c.depart = (.error .unmatchedDeparture, c) := by
  simp [depart, h]

end PairedCounters

end TwinCopy
