import TwinCopy.Gate

/-!
# A gate in one word, with versions

The readers of both versions, the active side and the current version are fields of one 64-bit
word:

* bits 0 to 29, the readers of version zero;
* bits 30 to 59, the readers of version one;
* bit 60, the active side;
* bit 61, the current version.

Every change adds to the word or takes away from it, so it leaves the other fields alone as long
as no counter overflows. A departure that finds its counter at zero has borrowed from the fields
above it and puts the borrow back.
-/

namespace TwinCopy

/-- A word with the fields above. -/
structure VersionedWord where
  word : UInt64
  deriving DecidableEq, Repr, Inhabited

namespace VersionedWord

/-- The lowest bit of the readers of a version. -/
def counterBit : Version → UInt64
  | .zero => 0
  | .one => 30

/-- One reader of a version. -/
def unit (v : Version) : UInt64 :=
  1 <<< counterBit v

/-- All bits of a counter. -/
def counterMask : UInt64 :=
  0x3fffffff

/-- The bit of the active side. -/
def sideBit : UInt64 := 60

/-- The bit of the current version. -/
def versionBit : UInt64 := 61

/-- The readers of a version. -/
def readers (g : VersionedWord) (v : Version) : UInt64 :=
  (g.word >>> counterBit v) &&& counterMask

/-- The active side. -/
def side (g : VersionedWord) : Side :=
  .ofBit (g.word >>> sideBit)

/-- The current version. -/
def current (g : VersionedWord) : Version :=
  if (g.word >>> versionBit) &&& 1 = 0 then .zero else .one

/-- The word with the given fields. -/
def compose (readers : Version → UInt64) (side : Side) (current : Version) : VersionedWord :=
  ⟨(readers .zero &&& counterMask) ||| (readers .one &&& counterMask) <<< counterBit .one |||
    side.bit <<< sideBit ||| current.bit <<< versionBit⟩

/-- The word of an unused instance. -/
def fresh : VersionedWord :=
  compose (fun _ => 0) .left .zero

/-- Counts a reader in the current version. -/
def arrive (g : VersionedWord) : Version × VersionedWord :=
  (g.current, ⟨g.word + unit g.current⟩)

/-- Takes a reader off a version, and puts it back if there was none. -/
def depart (g : VersionedWord) (v : Version) : Except Misuse Unit × VersionedWord :=
  let taken : VersionedWord := ⟨g.word - unit v⟩
  if g.readers v = 0 then (.error .unmatchedDeparture, ⟨taken.word + unit v⟩) else (.ok (), taken)

/-- The borrow of an unmatched departure is undone, whatever fields it went through. -/
theorem depart_of_readers_eq_zero {g : VersionedWord} {v : Version} (h : g.readers v = 0) :
    g.depart v = (.error .unmatchedDeparture, g) := by
  simp [depart, h]

/-- Makes the other side active. -/
def flipSide (g : VersionedWord) : VersionedWord :=
  match g.side with
  | .left => ⟨g.word + 1 <<< sideBit⟩
  | .right => ⟨g.word - 1 <<< sideBit⟩

/-- Leaves the given version for the other one. -/
def flipVersion (g : VersionedWord) : Version → VersionedWord
  | .zero => ⟨g.word + 1 <<< versionBit⟩
  | .one => ⟨g.word - 1 <<< versionBit⟩

/-- A ticket is the version a reader was counted in. Readers need no slot. -/
instance : Gate VersionedWord Version Version where
  slotted := false
  ticket := .ofIndex
  side := side
  arrive g _ := .ok g.arrive
  depart g _ v := (g.depart v).map (·.map fun _ => []) id
  turn g := (g.current, g.flipSide)
  standby g old := g.readers old.next == 0
  shift g old := g.flipVersion old
  cleared g old := .ok (g.readers old == 0)
  clearedEvent old := .packedReadersDrained old.next
  appliedEvent _ _ side := .packedMutationApplied side
  view g := .packed g.current (g.readers .zero).toNat (g.readers .one).toNat

end VersionedWord

end TwinCopy
