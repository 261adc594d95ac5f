/-!
# Sides, versions and the two copies

An instance keeps two copies of the protected value. Readers consult the copy on the *active*
side while the writer changes the other one. Independently of the side, readers are counted
under one of two *versions*, so that a writer can wait for the old readers without waiting for
the new ones.
-/

namespace TwinCopy

/-- Which of the two copies. -/
inductive Side where
  | left
  | right
  deriving DecidableEq, Repr, Inhabited

namespace Side

/-- The other side. -/
def opposite : Side → Side
  | left => right
  | right => left

/-- The side that the lowest bit of a word names. -/
def ofBit (word : UInt64) : Side :=
  if word &&& 1 = 0 then left else right

/-- The bit that names a side in a packed word. -/
def bit : Side → UInt64
  | left => 0
  | right => 1

/-- The name of a side in diagnostic texts. -/
def name : Side → String
  | left => "Left"
  | right => "Right"

theorem opposite_ne (s : Side) : s.opposite ≠ s := by
  cases s <;> decide

/-- There are no other sides. -/
theorem eq_or_eq_opposite (s t : Side) : s = t ∨ s = t.opposite := by
  cases s <;> cases t <;> decide

@[simp] theorem opposite_opposite (s : Side) : s.opposite.opposite = s := by
  cases s <;> rfl

@[simp] theorem ofBit_bit (s : Side) : ofBit s.bit = s := by
  cases s <;> decide

end Side

/-- Which of the two groups an arriving reader is counted in. -/
inductive Version where
  | zero
  | one
  deriving DecidableEq, Repr, Inhabited

namespace Version

/-- The version that follows: there are only two, so they alternate. -/
def next : Version → Version
  | zero => one
  | one => zero

/-- A version as a number. -/
def index : Version → Nat
  | zero => 0
  | one => 1

/-- The version a number names: `0` is the first, anything else the second. -/
def ofIndex : Nat → Version
  | 0 => zero
  | _ => one

/-- The bit that names a version in a packed word. -/
def bit : Version → UInt64
  | zero => 0
  | one => 1

@[simp] theorem next_next (v : Version) : v.next.next = v := by
  cases v <;> rfl

@[simp] theorem ofIndex_index (v : Version) : ofIndex v.index = v := by
  cases v <;> rfl

end Version

/-- The two copies of a protected value. -/
structure Copies (α : Type) where
  left : α
  right : α
  deriving DecidableEq, Repr, Inhabited

namespace Copies

variable {α : Type}

/-- The copy on one side. -/
def get (c : Copies α) : Side → α
  | .left => c.left
  | .right => c.right

/-- Replaces the copy on one side. -/
def set (c : Copies α) (s : Side) (a : α) : Copies α :=
  match s with
  | .left => { c with left := a }
  | .right => { c with right := a }

@[simp] theorem get_set_same (c : Copies α) (s : Side) (a : α) : (c.set s a).get s = a := by
  cases s <;> rfl

@[simp] theorem get_set_opposite (c : Copies α) (s : Side) (a : α) :
    (c.set s a).get s.opposite = c.get s.opposite := by
  cases s <;> rfl

end Copies

end TwinCopy
