import TwinCopy.Gate
import TwinCopy.Indicator

/-!
# A gate of two read-indicators

The active side, the current version and a read-indicator for each version are kept apart. An
arriving reader joins the current version. A writer turns the side, waits until the version that
is not current has no reader left, makes it current, and waits until the other one is empty.
-/

namespace TwinCopy

/-- The parts of the gate. -/
structure Versioned where
  side : Side
  current : Version
  zero : Indicator
  one : Indicator
  deriving DecidableEq, Repr

namespace Versioned

/-- A gate without readers, with two read-indicators of one kind. -/
def ofConfig (kind : IndicatorKind) (c : Config) : Versioned :=
  ⟨.left, .zero, .ofConfig kind c, .ofConfig kind c⟩

/-- The readers of a version. -/
def readers (g : Versioned) : Version → Indicator
  | .zero => g.zero
  | .one => g.one

/-- Replaces the read-indicator of a version. -/
def setReaders (g : Versioned) (v : Version) (i : Indicator) : Versioned :=
  match v with
  | .zero => { g with zero := i }
  | .one => { g with one := i }

/-- Admits a reader to the current version. -/
def arrive (g : Versioned) (slot : Nat) : Except Misuse (Version × Versioned) :=
  match (g.readers g.current).arrive slot with
  | .ok i => .ok (g.current, g.setReaders g.current i)
  | .error m => .error m

/-- Records the departure of a reader of a version. -/
def depart (g : Versioned) (slot : Nat) (v : Version) :
    Except Misuse (List Event) × Versioned :=
  match (g.readers v).depart slot with
  | (.ok (), i) => (.ok [], g.setReaders v i)
  | (.error m, i) => (.error m, g.setReaders v i)

/-- A ticket is the version a reader joined. A writer waits twice, before and after it makes the
other version current. -/
instance : Gate Versioned Version Version where
  slotted := true
  ticket := .ofIndex
  side := side
  arrive := arrive
  depart := depart
  turn g := (g.current, { g with side := g.side.opposite })
  standby g old := (g.readers old.next).isEmpty
  shift g old := { g with current := old.next }
  cleared g old := .ok (g.readers old).isEmpty
  clearedEvent old := .readersDrained old.next
  appliedEvent _ mutations side := .mutationApplied mutations side
  view g := .versions g.current g.zero.isEmpty g.one.isEmpty

end Versioned

end TwinCopy
