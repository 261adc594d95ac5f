import TwinCopy.Gate
import TwinCopy.Lock
import TwinCopy.Mutation
import TwinCopy.Slot

/-!
# Instances

An instance protects a value by keeping two copies of it behind a gate. A reader arrives at
the gate and is given the copy on the active side, without waiting for a writer. This file has the
state of an instance and what readers do with it; `TwinCopy.Instance.Writer` has the writers.

Writers hand in requests at cells. Under the *exclusive* style there is one cell: the writer at
it waits for the lock and then applies its own mutation. Under the *combining* style every slot
has a cell: whoever gets the lock applies all the requests it finds.

An instance keeps two outboxes, `log` for the events and `finished` for the writers that are done,
both latest first. The interpreter of a script empties them after each operation.
-/

namespace TwinCopy

/-- How writers share the work. -/
inductive Style where
  /-- one writer at a time, each for itself -/
  | exclusive
  /-- one writer for all that have asked -/
  | combining
  deriving DecidableEq, Repr

/-- A mutation that a writer wants applied. -/
structure Request (α ρ : Type) where
  writer : Nat
  mutation : Mutation α ρ
  /-- whether each application first looks at the instance -/
  observed : Bool

/-- A place where a writer leaves its request and finds its output. -/
structure Cell (α ρ : Type) where
  request : Option (Request α ρ) := none
  result : Option ρ := none

/-- What an instance shows of itself. -/
structure View where
  side : Side
  gate : GateView
  mutations : Nat
  batches : Nat
  deriving DecidableEq, Repr

/-- What an application of an observed mutation finds before it changes anything: the instance,
and, unless there was no slot for a new reader, what that reader was given and whether a writer
could then have taken the lock. -/
structure Observation (α : Type) where
  view : View
  found : Except Failure (α × Bool)

/-- A writer whose mutation has not returned. -/
structure Writer (α : Type) where
  id : Nat
  cell : Nat
  /-- whether the applications of its mutation look at the instance -/
  observed : Bool
  /-- what the applications of its mutation have found, latest first -/
  seen : List (Observation α)

/-- A writer whose mutation has returned or given up. -/
structure Finished (α ρ : Type) where
  writer : Nat
  outcome : Except Fault ρ
  /-- what the applications of its mutation have found, in order, if they looked -/
  seen : Option (List (Observation α))

/-- Where the writer in charge of a round waits. -/
inductive Phase (δ : Type) where
  /-- the side is turned, new readers cannot be sent elsewhere yet -/
  | standby (d : δ)
  /-- new readers are sent elsewhere, old ones are still inside -/
  | clearing (d : δ)

/-- A round whose first pass is done: the requests with their cells, the side that was active
before it, and where it waits. -/
structure Round (δ α ρ : Type) where
  batch : List (Nat × Request α ρ)
  old : Side
  phase : Phase δ

/-- The state of an instance with a gate of type `γ`, which protects a value of type `α` and
whose mutations have outputs of type `ρ`. -/
structure Instance (γ δ α ρ : Type) where
  style : Style
  copies : Copies α
  gate : γ
  registry : Registry
  cells : List (Cell α ρ)
  lock : SpinLock
  /-- the round that waits for readers, if there is one -/
  round : Option (Round δ α ρ)
  /-- the writers inside, in the order in which they came -/
  writers : List (Writer α)
  /-- the mutations that were completed; a 64-bit counter to the program, which no run brings to
  `2 ^ 64` -/
  mutations : Nat
  /-- the batches that were completed, counted likewise -/
  batches : Nat
  log : List Event
  finished : List (Finished α ρ)

/-- A reader inside: its slot, its ticket, and the side it was sent to. -/
structure Visit (κ : Type) where
  slot : Slot
  ticket : κ
  side : Side
  deriving DecidableEq, Repr

namespace Instance

variable {γ κ δ α ρ : Type}

/-- An unused instance. -/
def fresh (style : Style) (copies : Copies α) (gate : γ) (registry : Registry) (cells : Nat)
    (wait : WaitPolicy) : Instance γ δ α ρ where
  style := style
  copies := copies
  gate := gate
  registry := registry
  cells := List.replicate cells {}
  lock := .free wait
  round := none
  writers := []
  mutations := 0
  batches := 0
  log := []
  finished := []

/-- Puts an event on record. -/
def report (s : Instance γ δ α ρ) (e : Event) : Instance γ δ α ρ :=
  { s with log := e :: s.log }

/-- Puts misuse on record. The caller does not go on. -/
def misused (s : Instance γ δ α ρ) (m : Misuse) : Fault × Instance γ δ α ρ :=
  (.misuse m, s.report (.misused m))

/-- Claims a slot. -/
def register (s : Instance γ δ α ρ) : Except Error Slot × Instance γ δ α ρ :=
  match s.registry.register with
  | .ok (slot, registry) => (.ok slot, { s with registry }.report (.slotRegistered slot.index))
  | .error e => (.error e, s)

/-- Gives a slot of this instance back. -/
def release (s : Instance γ δ α ρ) (slot : Slot) : Instance γ δ α ρ :=
  { s with registry := s.registry.release slot.index }

section Gate

variable [Gate γ κ δ]

/-- The side readers are sent to. -/
def activeSide (s : Instance γ δ α ρ) : Side :=
  Gate.side s.gate

/-- What can be seen of an instance now. -/
def view (s : Instance γ δ α ρ) : View :=
  ⟨s.activeSide, Gate.view s.gate, s.mutations, s.batches⟩

/-- Lets a reader in, with a slot of this instance. -/
def arrive (s : Instance γ δ α ρ) (slot : Slot) : Except Fault κ × Instance γ δ α ρ :=
  if slot.issuer = s.registry.id then
    match Gate.arrive s.gate slot.index with
    | .ok (ticket, gate) => (.ok ticket, { s with gate })
    | .error m => (s.misused m).map .error id
  else (s.misused .foreignSlot).map .error id

/-- Lets a reader out that came in with this slot and ticket. -/
def dismiss (s : Instance γ δ α ρ) (slot : Slot) (ticket : κ) :
    Except Fault Unit × Instance γ δ α ρ :=
  match Gate.depart s.gate slot.index ticket with
  | (.ok events, gate) => (.ok (), events.foldl report { s with gate })
  | (.error m, gate) => ({ s with gate }.misused m).map .error id

/-- Lets a reader out, with a slot of this instance. -/
def depart (s : Instance γ δ α ρ) (slot : Slot) (ticket : κ) :
    Except Fault Unit × Instance γ δ α ρ :=
  if slot.issuer = s.registry.id then s.dismiss slot ticket
  else (s.misused .foreignSlot).map .error id

/-- Begins a read: the reader arrives and only then learns the active side. -/
def enter (s : Instance γ δ α ρ) (slot : Slot) : Except Fault (Visit κ) × Instance γ δ α ρ :=
  match s.arrive slot with
  | (.ok ticket, s) => (.ok ⟨slot, ticket, s.activeSide⟩, s)
  | (.error f, s) => (.error f, s)

/-- Ends a read. -/
def leave (s : Instance γ δ α ρ) (v : Visit κ) : Except Fault Unit × Instance γ δ α ρ :=
  s.dismiss v.slot v.ticket

/-- What a reader inside is given. -/
def given (s : Instance γ δ α ρ) (v : Visit κ) : α :=
  s.copies.get v.side

/-- A read that returns the copy it is given. -/
def read (s : Instance γ δ α ρ) (slot : Slot) : Except Fault α × Instance γ δ α ρ :=
  match s.enter slot with
  | (.error f, s) => (.error f, s)
  | (.ok v, s) =>
      let a := s.given v
      match s.leave v with
      | (.ok (), s) => (.ok a, s)
      | (.error f, s) => (.error f, s)

/-- The slot that stands for all readers of an instance that needs none. -/
def commonSlot (s : Instance γ δ α ρ) : Slot :=
  ⟨s.registry.id, 0⟩

/-- A read by somebody new, who claims a slot for it and gives the slot back. -/
def readAnew (s : Instance γ δ α ρ) : Except Failure α × Instance γ δ α ρ :=
  if Gate.slotted γ then
    match s.register with
    | (.error e, s) => (.error (.error e), s)
    | (.ok slot, s) =>
        let (r, s) := s.read slot
        (r.mapError (.fault · none), s.release slot)
  else (s.read s.commonSlot).map (·.mapError (.fault · none)) id

end Gate

end Instance

end TwinCopy
