import TwinCopy.Failure

/-!
# Reader slots

Per-slot read-indicators and the request cells of a combining instance need to know which entry
belongs to a caller. Every instance owns a `Registry`; a caller asks it once for a `Slot` and
presents the slot with every call. Giving the slot back frees its entry.

A bounded registry has one claim flag for each entry and hands out the first free one. An
unbounded registry only counts: its indices feed a hash or are ignored, so they are never taken
back.
-/

namespace TwinCopy

/-- A claim on one entry of a registry. -/
structure Slot where
  /-- the registry that issued the slot -/
  issuer : Nat
  index : Nat
  deriving DecidableEq, Repr, Inhabited

/-- What a registry remembers of the slots it has handed out. -/
inductive Claims where
  /-- one flag for each entry -/
  | bounded (claimed : List Bool)
  /-- the next index, a 64-bit word that wraps -/
  | unbounded (next : UInt64)
  deriving DecidableEq, Repr

/-- Hands out slots. Registries are told apart by their `id`. -/
structure Registry where
  id : Nat
  claims : Claims
  deriving DecidableEq, Repr

namespace Registry

/-- A registry with so many entries, all free. -/
def bounded (id capacity : Nat) : Registry :=
  ⟨id, .bounded (List.replicate capacity false)⟩

/-- A registry that has handed out nothing yet. -/
def unbounded (id : Nat) : Registry :=
  ⟨id, .unbounded 0⟩

/-- A registry for the given number of slots, or for any number. -/
def ofCapacity (id : Nat) : Option Nat → Registry
  | some capacity => bounded id capacity
  | none => unbounded id

/-- How many slots may be live at once, if there is a limit. -/
def capacity (r : Registry) : Option Nat :=
  match r.claims with
  | .bounded claimed => some claimed.length
  | .unbounded _ => none

/-- Claims the first free entry. -/
def register (r : Registry) : Except Error (Slot × Registry) :=
  match r.claims with
  | .bounded claimed =>
      match claimed.findIdx? (! ·) with
      | some i => .ok (⟨r.id, i⟩, { r with claims := .bounded (claimed.set i true) })
      | none => .error (.slotsExhausted claimed.length)
  | .unbounded next => .ok (⟨r.id, next.toNat⟩, { r with claims := .unbounded (next + 1) })

/-- Frees the entry of a slot that is given back. -/
def release (r : Registry) (index : Nat) : Registry :=
  match r.claims with
  | .bounded claimed => { r with claims := .bounded (claimed.set index false) }
  | .unbounded _ => r

/-- A registry has the capacity that was asked for. -/
theorem capacity_ofCapacity (id : Nat) (c : Option Nat) : (ofCapacity id c).capacity = c := by
  cases c <;> simp [ofCapacity, bounded, unbounded, capacity]

/-- To give a slot back does not change how many there are. -/
theorem capacity_release (r : Registry) (index : Nat) :
    (r.release index).capacity = r.capacity := by
  obtain ⟨id, claims⟩ := r
  cases claims <;> simp [release, capacity]

end Registry

end TwinCopy
