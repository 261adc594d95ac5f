import TwinCopy.Event

/-!
# Gates

A gate coordinates the readers and the writer of one instance. It names the active side, counts
the readers inside, and tells a writer that has changed the side when no reader can still be on the
old one.

A writer uses a gate in four steps:

* `turn` makes the other side active and says what there is to wait for;
* while `standby` is false, readers of an earlier round are inside, and the writer waits for them;
* `shift` sends new readers elsewhere, so that those the writer waits for can only become fewer;
* while `cleared` is false, such readers are still inside.

A reader arrives with a slot and is given a ticket, with which it departs.
-/

namespace TwinCopy

/-- What a gate shows of itself, apart from the active side. -/
inductive GateView where
  /-- the current version, and whether version zero and version one have no reader -/
  | versions (current : Version) (zeroEmpty oneEmpty : Bool)
  /-- the current version, and the readers of version zero and version one -/
  | packed (current : Version) (inZero inOne : Nat)
  /-- the arrivals, the departures from either side, and how often they were rebased -/
  | ingress (arrivals left right rebases : Nat)
  deriving DecidableEq, Repr

/-- How instances of type `γ` admit readers, with tickets of type `κ`, and tell a writer what it
waits for, a value of type `δ`. -/
class Gate (γ : Type) (κ δ : outParam Type) where
  /-- whether a reader needs a slot of its own -/
  slotted : Bool
  /-- the ticket that a number names -/
  ticket : Nat → κ
  /-- the side readers are sent to -/
  side : γ → Side
  /-- admits the holder of a slot -/
  arrive : γ → Nat → Except Misuse (κ × γ)
  /-- records the departure of the holder of a slot and a ticket, and gives the events to report -/
  depart : γ → Nat → κ → Except Misuse (List Event) × γ
  /-- makes the other side active -/
  turn : γ → δ × γ
  /-- whether new readers can be sent elsewhere -/
  standby : γ → δ → Bool
  /-- sends new readers elsewhere -/
  shift : γ → δ → γ
  /-- whether the readers waited for are gone -/
  cleared : γ → δ → Except Misuse Bool
  /-- the event that says so -/
  clearedEvent : δ → Event
  /-- the event that closes a mutation, given the count of mutations and the new active side -/
  appliedEvent : γ → Nat → Side → Event
  /-- what the gate shows of itself -/
  view : γ → GateView

end TwinCopy
