import TwinCopy.Failure

/-!
# One counter for all readers

The number of readers in flight, in a 64-bit word that wraps. A departure takes one off before it
looks at what was there, so an unmatched one has to put it back.
-/

namespace TwinCopy

/-- The number of readers in flight. -/
structure SingleCounter where
  readers : UInt64
  deriving DecidableEq, Repr, Inhabited

namespace SingleCounter

/-- Nobody is in flight. -/
def empty : SingleCounter := ⟨0⟩

/-- Counts a reader. -/
def arrive (c : SingleCounter) : SingleCounter :=
  ⟨c.readers + 1⟩

/-- Takes a reader off, and puts it back if there was none. -/
def depart (c : SingleCounter) : Except Misuse Unit × SingleCounter :=
  let taken : SingleCounter := ⟨c.readers - 1⟩
  if c.readers = 0 then (.error .unmatchedDeparture, ⟨taken.readers + 1⟩) else (.ok (), taken)

/-- Nobody is left in flight. -/
def isEmpty (c : SingleCounter) : Bool :=
  c.readers == 0

/-- The borrow of an unmatched departure is undone. -/
theorem depart_of_readers_eq_zero {c : SingleCounter} (h : c.readers = 0) :
    c.depart = (.error .unmatchedDeparture, c) := by
  obtain ⟨n⟩ := c
  subst h
  rfl

end SingleCounter

end TwinCopy
