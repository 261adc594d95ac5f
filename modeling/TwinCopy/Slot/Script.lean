import TwinCopy.Instance.Text

/-!
# Scripts for a registry

A script for a registry names slots by their place in a table, to which every slot handed out is
added.
-/

namespace TwinCopy

/-- A registry together with the slots it has handed out, `none` for one that was given back. -/
structure SlotDesk where
  registry : Registry
  table : List (Option Slot)
  deriving DecidableEq, Repr

/-- What a script may ask for. -/
inductive SlotOperation where
  | register
  /-- registers and gives back, so many times -/
  | churn (n : Nat)
  | drop (k : Nat)
  | slot (k : Nat)
  | capacity
  | text
  deriving DecidableEq, Repr

/-- What a script may be told. -/
inductive SlotAnswer where
  | done
  | index (n : Nat)
  | slot (s : Slot)
  | capacity (c : Option Nat)
  | text (t : String)
  deriving DecidableEq, Repr

namespace SlotDesk

/-- A registry that no script has touched. -/
def ofRegistry (r : Registry) : SlotDesk :=
  ⟨r, []⟩

/-- The slot at a place of the table. -/
def slot? (d : SlotDesk) (k : Nat) : Option Slot :=
  d.table[k]?.join

/-- Registers and gives back again and again, until a registration fails. -/
def churn (r : Registry) : Nat → SlotAnswer → Except Failure SlotAnswer × Registry
  | 0, last => (.ok last, r)
  | n + 1, _ =>
      match r.register with
      | .ok (slot, claimed) => churn (claimed.release slot.index) n (.index slot.index)
      | .error e => (.error (.error e), r)

/-- Does one operation. -/
def act (d : SlotDesk) : SlotOperation → Except Failure SlotAnswer × SlotDesk
  | .register =>
      match d.registry.register with
      | .ok (slot, registry) => (.ok (.index slot.index), ⟨registry, d.table ++ [some slot]⟩)
      | .error e => (.error (.error e), d)
  | .churn n => (churn d.registry n .done).map id ({ d with registry := · })
  | .drop k =>
      match d.slot? k with
      | some slot => (.ok .done, ⟨d.registry.release slot.index, d.table.set k none⟩)
      | none => (.error (.refused .noSuchSlot), d)
  | .slot k =>
      match d.slot? k with
      | some slot => (.ok (.slot slot), d)
      | none => (.error (.refused .noSuchSlot), d)
  | .capacity => (.ok (.capacity d.registry.capacity), d)
  | .text => (.ok (.text d.registry.text), d)

end SlotDesk

end TwinCopy
