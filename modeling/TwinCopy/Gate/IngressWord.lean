import TwinCopy.Gate

/-!
# A gate in one word, without versions

The arrivals since the last turn, the departures from each side and the active side are fields of
one 64-bit word:

* bits 0 to 19, the arrivals (*ingress*);
* bits 20 to 39, the departures of readers that were sent left (*egress*);
* bits 40 to 59, the departures of readers that were sent right;
* bit 60, the active side.

One addition both admits a reader and tells it the side. A writer turns the side by exchanging
the word for a fresh one, and then waits until the departures from the old side, before and after
the exchange, are as many as the arrivals it took out.

The fields are narrow. A departure that finds the arrivals at half the range takes the departures
from the active side off both counts, which leaves their difference, the readers in flight.
-/

namespace TwinCopy

/-- A word with the fields above. -/
structure IngressWord where
  word : UInt64
  /-- how often departing readers have taken the counts down; a 64-bit counter to the program, which
  no run brings to `2 ^ 64` -/
  rebases : Nat
  deriving DecidableEq, Repr, Inhabited

namespace IngressWord

/-- The fields of the word. -/
structure Fields where
  side : Side
  ingress : UInt64
  egressLeft : UInt64
  egressRight : UInt64
  deriving DecidableEq, Repr, Inhabited

/-- All bits of a count. -/
def counterMask : UInt64 :=
  0xfffff

/-- The lowest bit of the departures from a side. -/
def egressBit : Side → UInt64
  | .left => 20
  | .right => 40

/-- The bit of the active side. -/
def sideBit : UInt64 := 60

/-- One departure from a side. -/
def egressUnit (s : Side) : UInt64 :=
  1 <<< egressBit s

/-- Arrivals are kept below this by departing readers: half of what the field can hold. -/
def threshold : UInt64 :=
  0x80000

namespace Fields

/-- The fields that a word holds. -/
def unpack (word : UInt64) : Fields where
  side := .ofBit (word >>> sideBit)
  ingress := word &&& counterMask
  egressLeft := (word >>> egressBit .left) &&& counterMask
  egressRight := (word >>> egressBit .right) &&& counterMask

/-- The word that holds the given fields. A count that does not fit its field is cut to it. -/
def pack (f : Fields) : UInt64 :=
  f.side.bit <<< sideBit ||| (f.ingress &&& counterMask) |||
    (f.egressLeft &&& counterMask) <<< egressBit .left |||
    (f.egressRight &&& counterMask) <<< egressBit .right

/-- No arrival and no departure yet. -/
def reset (s : Side) : Fields :=
  ⟨s, 0, 0, 0⟩

/-- The departures from a side. -/
def egress (f : Fields) : Side → UInt64
  | .left => f.egressLeft
  | .right => f.egressRight

/-- Replaces the departures from a side. -/
def setEgress (f : Fields) (s : Side) (n : UInt64) : Fields :=
  match s with
  | .left => { f with egressLeft := n }
  | .right => { f with egressRight := n }

/-- Takes the departures from the active side off the arrivals. -/
def rebase (f : Fields) : Fields :=
  { f with ingress := f.ingress - f.egress f.side }.setEgress f.side 0

end Fields

/-- What a writer waits for: the departures from the old side that the word it took out does not
yet count. -/
structure Backlog where
  side : Side
  /-- the arrivals that were taken out -/
  ingress : UInt64
  /-- their departures that were taken out with them -/
  carried : UInt64
  deriving DecidableEq, Repr, Inhabited

/-- The word of an unused instance. -/
def fresh : IngressWord :=
  ⟨(Fields.reset .left).pack, 0⟩

/-- The fields as they are. -/
def fields (g : IngressWord) : Fields :=
  .unpack g.word

/-- The active side. -/
def side (g : IngressWord) : Side :=
  .ofBit (g.word >>> sideBit)

/-- Counts an arrival. The word it was added to names the side. -/
def arrive (g : IngressWord) : Side × IngressWord :=
  (g.side, { g with word := g.word + 1 })

/-- Counts a departure from a side. From the active side there cannot be more departures than
arrivals. -/
def depart (g : IngressWord) (s : Side) : Except Misuse (List Event) × IngressWord :=
  let counted := g.word + egressUnit s
  let f := Fields.unpack counted
  if f.side = s ∧ f.egress s > f.ingress then
    (.error .unmatchedDeparture, { g with word := counted - egressUnit s })
  else if f.ingress < threshold then
    (.ok [], { g with word := counted })
  else
    (.ok [.ingressRebased f.rebase.ingress.toNat], ⟨f.rebase.pack, g.rebases + 1⟩)

/-- A departure that is refused leaves the gate as it was. -/
theorem depart_of_error {g : IngressWord} {s : Side} {m : Misuse}
    (h : (g.depart s).1 = .error m) : (g.depart s).2 = g := by
  simp only [depart] at h ⊢
  split
  · simp
  · next hmatched =>
    rw [if_neg hmatched] at h
    split at h <;> cases h

/-- Exchanges the word for a fresh one that names the other side. -/
def exchange (g : IngressWord) : Backlog × IngressWord :=
  let last := g.fields
  (⟨last.side, last.ingress, last.egress last.side⟩,
    { g with word := (Fields.reset last.side.opposite).pack })

/-- Whether the readers of a backlog are gone when so many have departed since the exchange. There
cannot be more departures than arrivals. -/
def Backlog.drained (b : Backlog) (egress : UInt64) : Except Misuse Bool :=
  let departed := egress + b.carried
  if departed > b.ingress then .error .unmatchedDeparture else .ok (departed == b.ingress)

/-- Whether the readers of a backlog are gone. The first look is at the counts that were taken out,
and the word is read only if these do not decide: a departure that comes in between is not seen
where nobody is waited for. The first look has the same result ever after, so it need not be
remembered. -/
def cleared (g : IngressWord) (b : Backlog) : Except Misuse Bool :=
  match b.drained 0 with
  | .ok false => b.drained (g.fields.egress b.side)
  | decided => decided

/-- A ticket is the side a reader was sent to. A writer waits once, and readers need no slot. -/
instance : Gate IngressWord Side Backlog where
  slotted := false
  ticket
    | 0 => .left
    | _ => .right
  side := side
  arrive g _ := .ok g.arrive
  depart g _ s := g.depart s
  turn := exchange
  standby _ _ := true
  shift g _ := g
  cleared := cleared
  clearedEvent b := .ingressDrained (b.ingress - b.carried).toNat
  appliedEvent _ _ side := .packedMutationApplied side
  view g :=
    .ingress g.fields.ingress.toNat g.fields.egressLeft.toNat g.fields.egressRight.toNat g.rebases

end IngressWord

end TwinCopy
