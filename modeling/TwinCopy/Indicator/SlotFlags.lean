import TwinCopy.Failure

/-!
# One flag for each slot

A flag says whether the holder of the slot is reading. It does not count: to arrive twice is to
arrive once. A slot whose index is beyond the flags is misuse.
-/

namespace TwinCopy

/-- A flag for each slot, up while its holder is reading. -/
structure SlotFlags where
  reading : List Bool
  deriving DecidableEq, Repr, Inhabited

namespace SlotFlags

/-- Flags for `n` slots, all down. -/
def ofCount (n : Nat) : SlotFlags :=
  ⟨List.replicate n false⟩

/-- Raises the slot's flag. -/
def arrive (f : SlotFlags) (slot : Nat) : Except Misuse SlotFlags :=
  if slot < f.reading.length then .ok ⟨f.reading.set slot true⟩ else .error .slotBeyondCapacity

/-- Lowers the slot's flag, which must have been up. -/
def depart (f : SlotFlags) (slot : Nat) : Except Misuse Unit × SlotFlags :=
  match f.reading[slot]? with
  | none => (.error .slotBeyondCapacity, f)
  | some up =>
      (if up then .ok () else .error .unmatchedDeparture, ⟨f.reading.set slot false⟩)

/-- Every flag is down. -/
def allDown (f : SlotFlags) : Bool :=
  f.reading.all (! ·)

/-- Some flag is up. -/
def anyUp (f : SlotFlags) : Bool :=
  f.reading.any fun up => up

/-- The two ways to look for a reader agree. -/
theorem allDown_eq_not_anyUp (f : SlotFlags) : f.allDown = !f.anyUp := by
  simp [allDown, anyUp, List.all_eq_not_any_not]

end SlotFlags

end TwinCopy
