import TwinCopy.Indicator
import TwinCopy.Slot.Script

/-!
# Scripts for a read-indicator

The operations of a registry, and arrivals and departures by the slots it hands out.
-/

namespace TwinCopy

/-- A read-indicator and the slots that its readers hold. -/
structure IndicatorDesk where
  desk : SlotDesk
  indicator : Indicator
  deriving DecidableEq, Repr

/-- What a script may ask for. -/
inductive IndicatorOperation where
  | slots (o : SlotOperation)
  /-- the holder of a slot arrives, so many times -/
  | arrive (k n : Nat)
  /-- the holder of a slot departs, so many times -/
  | depart (k n : Nat)
  | look
  | buckets
  | refused (r : Refusal)
  deriving DecidableEq, Repr

/-- What a script may be told. -/
inductive IndicatorAnswer where
  | slots (a : SlotAnswer)
  | done
  | buckets (n : Nat)
  deriving DecidableEq, Repr

/-- Arrives or departs again and again, until it is refused. `done` counts the times before. -/
def Indicator.passTimes (i : Indicator) (p : Motion) (done : Nat) :
    Nat → Except Failure IndicatorAnswer × Indicator
  | 0 => (.ok .done, i)
  | n + 1 =>
      match i.pass p with
      | (.ok (), i) => i.passTimes p (done + 1) n
      | (.error m, i) => (.error (.fault (.misuse m) (some done)), i)

namespace IndicatorDesk

/-- The holder of a slot arrives or departs, so many times. -/
def passTimes (d : IndicatorDesk) (motion : Nat → Motion) (k n : Nat) :
    Except Failure IndicatorAnswer × IndicatorDesk :=
  match d.desk.slot? k with
  | some slot => (d.indicator.passTimes (motion slot.index) 0 n).map id ({ d with indicator := · })
  | none => (.error (.refused .noSuchSlot), d)

/-- Does one operation. -/
def act (d : IndicatorDesk) : IndicatorOperation → Except Failure IndicatorAnswer × IndicatorDesk
  | .slots o => (d.desk.act o).map (·.map .slots) ({ d with desk := · })
  | .arrive k n => d.passTimes .arrival k n
  | .depart k n => d.passTimes .departure k n
  | .look => (.ok .done, d)
  | .buckets =>
      match d.indicator.buckets? with
      | some n => (.ok (.buckets n), d)
      | none => (.error (.refused .unsupported), d)
  | .refused r => (.error (.refused r), d)

end IndicatorDesk

end TwinCopy
