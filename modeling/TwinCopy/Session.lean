import TwinCopy.Instance.Text
import TwinCopy.Instance.Writer

/-!
# Sessions

A session drives one instance by single moves. It keeps what a caller holds: the slots it was
given, the writer lock, and the reads it has begun and not ended. Writers run concurrently: after
every move they go as far as they can, and a move that starts one does not wait for it.

A query that itself makes moves is a move that begins it, `enter`, and a move that ends it,
`leave`; queries end in the opposite order.
-/

namespace TwinCopy

/-- A single operation on an instance. Slots are named by their place in the session's table. -/
inductive Move (α ρ : Type) where
  /-- changes nothing -/
  | look
  /-- asks for the text of the instance -/
  | text
  /-- asks for the side and the version that will be active next -/
  | next
  /-- claims a slot -/
  | register
  /-- claims a slot and gives it back at once -/
  | churn
  /-- claims a slot of an unrelated registry -/
  | foreign
  /-- asks for a slot -/
  | slot (k : Nat)
  /-- gives a slot back -/
  | drop (k : Nat)
  /-- lets a reader in -/
  | arrive (k : Nat)
  /-- lets a reader out, with the ticket that a number names -/
  | depart (k : Nat) (ticket : Nat)
  /-- begins a query -/
  | enter (k : Nat)
  /-- ends the query begun last, which may give up -/
  | leave (gaveUp : Bool)
  /-- takes the writer lock -/
  | lock
  /-- gives the writer lock back -/
  | unlock
  /-- asks whether the writer lock could be taken -/
  | tryLock
  /-- starts a writer -/
  | mutate (k : Nat) (mutation : Mutation α ρ) (observed : Bool)

/-- What an operation answers. -/
inductive Answer (κ α : Type) where
  | done
  | index (n : Nat)
  | text (t : String)
  | slot (s : Slot)
  /-- the next active side, and the next version where readers choose by version -/
  | next (side : Side) (version : Option Version)
  | ticket (t : κ)
  /-- the copy a query was given -/
  | copy (a : α)
  /-- the copy a query was given, at its start and at its end -/
  | copies (before after : α)
  | held (b : Bool)
  | writer (id : Nat)
  deriving DecidableEq, Repr

/-- An instance, and what its callers hold. -/
structure Session (γ κ δ α ρ : Type) where
  inst : Instance γ δ α ρ
  /-- the slots in the order in which they were claimed, `none` for one that was given back -/
  table : List (Option Slot)
  /-- the unrelated registry -/
  stranger : Registry
  /-- whether the session holds the writer lock -/
  guarded : Bool
  /-- the reads begun and not ended, latest first -/
  visits : List (Visit κ)
  /-- how many writers were started -/
  started : Nat

namespace Session

variable {γ κ δ α ρ : Type}

/-- A session at whose start nothing was done. -/
def ofInstance (inst : Instance γ δ α ρ) : Session γ κ δ α ρ where
  inst := inst
  table := []
  stranger := .unbounded (inst.registry.id + 1)
  guarded := false
  visits := []
  started := 0

variable [Gate γ κ δ]

/-- The slot at a place of the table. Where readers need none, any place will do. -/
def slot? (s : Session γ κ δ α ρ) (k : Nat) : Option Slot :=
  if Gate.slotted γ then s.table[k]?.join else some s.inst.commonSlot

/-- Whether a writer inside left its request at the cell of this slot. -/
def hasRequest (s : Session γ κ δ α ρ) (slot : Slot) : Bool :=
  s.inst.style == .combining && slot.issuer == s.inst.registry.id &&
    s.inst.writers.any (·.cell == slot.index)

/-- Whether a query or a writer uses this slot. -/
def inUse (s : Session γ κ δ α ρ) (slot : Slot) : Bool :=
  s.visits.any (·.slot == slot) || s.hasRequest slot

/-- Whether a writer has to be turned away: exclusive writers come one at a time, combining ones
one for each slot. -/
def writerBusy (s : Session γ κ δ α ρ) (slot : Slot) : Bool :=
  match s.inst.style with
  | .exclusive => !s.inst.writers.isEmpty
  | .combining => s.hasRequest slot

/-- Turns a move down, which changes nothing. -/
def refuse (s : Session γ κ δ α ρ) (r : Refusal) :
    Except Failure (Answer κ α) × Session γ κ δ α ρ :=
  (.error (.refused r), s)

/-- Carries out a call of the instance and turns its result into an answer. -/
def call {β : Type} (s : Session γ κ δ α ρ) (r : Except Fault β × Instance γ δ α ρ)
    (answer : β → Answer κ α) : Except Failure (Answer κ α) × Session γ κ δ α ρ :=
  (match r.1 with
    | .ok b => .ok (answer b)
    | .error f => .error (.fault f none),
    { s with inst := r.2 })

/-- One move, before writers react to it. -/
def act (s : Session γ κ δ α ρ) : Move α ρ → Except Failure (Answer κ α) × Session γ κ δ α ρ
  | .look => (.ok .done, s)
  | .text => (.ok (.text s.inst.text), s)
  | .next =>
      let version := match Gate.view s.inst.gate, s.inst.style with
        | .versions current .., .exclusive | .packed current .., _ => some current.next
        | _, _ => none
      (.ok (.next s.inst.activeSide.opposite version), s)
  | .register =>
      if Gate.slotted γ then
        match s.inst.register with
        | (.ok slot, inst) =>
            (.ok (.index slot.index), { s with inst, table := s.table ++ [some slot] })
        | (.error e, inst) => (.error (.error e), { s with inst })
      else s.refuse .unsupported
  | .churn =>
      if Gate.slotted γ then
        match s.inst.register with
        | (.ok slot, inst) => (.ok (.index slot.index), { s with inst := inst.release slot })
        | (.error e, inst) => (.error (.error e), { s with inst })
      else s.refuse .unsupported
  | .foreign =>
      if Gate.slotted γ then
        match s.stranger.register with
        | .ok (slot, stranger) =>
            (.ok (.index slot.index),
              { s with
                stranger, table := s.table ++ [some slot],
                inst := s.inst.report (.slotRegistered slot.index) })
        | .error e => (.error (.error e), s)
      else s.refuse .unsupported
  | .slot k =>
      if Gate.slotted γ then
        match s.slot? k with
        | some slot => (.ok (.slot slot), s)
        | none => s.refuse .noSuchSlot
      else s.refuse .unsupported
  | .drop k =>
      if Gate.slotted γ then
        match s.slot? k with
        | none => s.refuse .noSuchSlot
        | some slot =>
            if s.inUse slot then s.refuse .slotBusy
            else
              let s := { s with table := s.table.set k none }
              (.ok .done,
                if slot.issuer = s.inst.registry.id then { s with inst := s.inst.release slot }
                else { s with stranger := s.stranger.release slot.index })
      else s.refuse .unsupported
  | .arrive k =>
      match s.inst.style, s.slot? k with
      | .combining, _ => s.refuse .unsupported
      | .exclusive, none => s.refuse .noSuchSlot
      | .exclusive, some slot => s.call (s.inst.arrive slot) .ticket
  | .depart k ticket =>
      match s.inst.style, s.slot? k with
      | .combining, _ => s.refuse .unsupported
      | .exclusive, none => s.refuse .noSuchSlot
      | .exclusive, some slot =>
          s.call (s.inst.depart slot (Gate.ticket γ ticket)) fun _ => .done
  | .enter k =>
      match s.slot? k with
      | none => s.refuse .noSuchSlot
      | some slot =>
          match s.inst.enter slot with
          | (.ok v, inst) => (.ok (.copy (inst.given v)), { s with inst, visits := v :: s.visits })
          | (.error f, inst) => (.error (.fault f none), { s with inst })
  | .leave gaveUp =>
      match s.visits with
      | [] => (.ok .done, s)
      | v :: visits =>
          let a := s.inst.given v
          let (r, inst) := s.inst.leave v
          (match gaveUp, r with
            | true, _ => .error (.fault (.raised "reader failed") none)
            | false, .ok () => .ok (.copy a)
            | false, .error f => .error (.fault f none),
            { s with inst, visits })
  | .lock =>
      if s.guarded || !s.inst.writers.isEmpty then s.refuse .busy
      else match s.inst.style, s.inst.lock.tryAcquire with
        | .combining, _ => s.refuse .unsupported
        | .exclusive, none => s.refuse .busy
        | .exclusive, some lock =>
            (.ok .done, { s with inst := { s.inst with lock }, guarded := true })
  | .unlock =>
      if s.guarded then
        let inst := { s.inst with lock := s.inst.lock.release.2 }
        (.ok .done, { s with inst, guarded := false })
      else s.refuse .notLocked
  | .tryLock =>
      match s.inst.style, Gate.slotted γ with
      | .exclusive, true => (.ok (.held s.inst.lock.tryAcquire.isSome), s)
      | _, _ => s.refuse .unsupported
  | .mutate k mutation observed =>
      match s.inst.style, s.slot? k with
      | .combining, none => s.refuse .noSuchSlot
      | _, slot =>
          let slot := slot.getD s.inst.commonSlot
          if s.writerBusy slot then s.refuse .busy
          else
            (.ok (.writer s.started),
              { s with
                inst := s.inst.mutate slot ⟨s.started, mutation, observed⟩
                started := s.started + 1 })

/-- One move, after which the writers go as far as they can. -/
def perform (s : Session γ κ δ α ρ) (m : Move α ρ) :
    Except Failure (Answer κ α) × Session γ κ δ α ρ :=
  let (r, s) := s.act m
  (r, { s with inst := s.inst.settle })

/-- A succession of moves, of which only the state is kept. -/
def performAll (s : Session γ κ δ α ρ) (moves : List (Move α ρ)) : Session γ κ δ α ρ :=
  moves.foldl (fun s m => (s.perform m).2) s

@[simp] theorem performAll_nil (s : Session γ κ δ α ρ) : s.performAll [] = s := rfl

@[simp] theorem performAll_cons (s : Session γ κ δ α ρ) (m : Move α ρ) (moves : List (Move α ρ)) :
    s.performAll (m :: moves) = (s.perform m).2.performAll moves := rfl

end Session

end TwinCopy
