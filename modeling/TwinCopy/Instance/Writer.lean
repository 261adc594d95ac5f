import TwinCopy.Instance

/-!
# Writers

A writer leaves its request at a cell. Whoever takes the lock serves a *batch*, all the requests
it finds, in one round:

1. the first pass applies the batch to the inactive copy and leaves each output at its cell;
2. the gate turns, so that new readers are given the changed copy;
3. the round waits until no reader can be left on the old side;
4. the second pass applies the same batch to the other copy;
5. the requests are withdrawn and their writers take their outputs.

A round that has to wait is kept in the state, and `settle` takes it up again. If an application
gives up, the round ends there: requests and outputs of the whole batch are withdrawn, the writer
in charge passes the fault on, and the others find no output.

After every operation of a caller `settle` runs the writers as far as they can go, which is at most
the end of the round that waits and the beginning of another one, for that takes all the requests
there are.
-/

namespace TwinCopy.Instance

variable {γ κ δ α ρ : Type} [Gate γ κ δ]

/-- The requests left at the cells, with the cells' indices, in the order of the cells. -/
def published (s : Instance γ δ α ρ) : List (Nat × Request α ρ) :=
  s.cells.zipIdx.filterMap fun (cell, i) => cell.request.map (i, ·)

/-- Changes one cell. -/
def modifyCell (s : Instance γ δ α ρ) (i : Nat) (f : Cell α ρ → Cell α ρ) : Instance γ δ α ρ :=
  { s with cells := s.cells.modify i f }

/-- Looks at the instance on behalf of a writer. -/
def observe (s : Instance γ δ α ρ) (writer : Nat) : Instance γ δ α ρ :=
  let view := s.view
  let (read, s) := s.readAnew
  let seen := ⟨view, read.map (·, s.lock.tryAcquire.isSome)⟩
  let note := fun (w : Writer α) => if w.id = writer then { w with seen := seen :: w.seen } else w
  { s with writers := s.writers.map note }

/-- Applies requests in order to the copy on one side, and stops at the first that gives up. On
the first pass the outputs are left at the cells. -/
def pass (s : Instance γ δ α ρ) (side : Side) (application : Nat) :
    List (Nat × Request α ρ) → Except Fault Unit × Instance γ δ α ρ
  | [] => (.ok (), s)
  | (i, r) :: rest =>
      let s := if r.observed then s.observe r.writer else s
      let done := r.mutation.apply application (s.copies.get side)
      let s := { s with copies := s.copies.set side done.copy }
      match done.outcome with
      | .error message => (.error (.raised message), s)
      | .ok output =>
          let s := if application = 1 then s.modifyCell i ({ · with result := some output }) else s
          s.pass side application rest

/-- A writer is done. -/
def finish (s : Instance γ δ α ρ) (w : Writer α) (outcome : Except Fault ρ) : Instance γ δ α ρ :=
  let seen := if w.observed then some w.seen.reverse else none
  { s with
    writers := s.writers.filter (·.id != w.id)
    finished := ⟨w.id, outcome, seen⟩ :: s.finished }

/-- A writer whose request was withdrawn takes the output from its cell, and is done. -/
def collect (s : Instance γ δ α ρ) (w : Writer α) : Instance γ δ α ρ :=
  match s.cells[w.cell]? with
  | some ⟨none, result⟩ =>
      let s := s.modifyCell w.cell ({ · with result := none })
      match result with
      | some output => s.finish w (.ok output)
      | none =>
          let (fault, s) := s.misused .noOutput
          s.finish w (.error fault)
  | _ => s

/-- Gives up the lock and lets every writer see to its cell. -/
def unlock (s : Instance γ δ α ρ) : Instance γ δ α ρ :=
  let s := { s with lock := s.lock.release.2 }
  s.writers.foldl collect s

/-- A writer inside passes a fault on. -/
def fail (s : Instance γ δ α ρ) (writer : Nat) (fault : Fault) : Instance γ δ α ρ :=
  match s.writers.find? (·.id == writer) with
  | some w => s.finish w (.error fault)
  | none => s

/-- Ends a round that could not be completed, in which this writer is in charge. -/
def abandonAs (s : Instance γ δ α ρ) (leader : Option Nat) (batch : List (Nat × Request α ρ))
    (fault : Fault) : Instance γ δ α ρ :=
  let s := batch.foldl (fun s (i, _) => s.modifyCell i fun _ => {}) s
  let s := match s.style with
    | .exclusive => s
    | .combining => s.report (.batchAbandoned batch.length)
  let s := match leader with
    | none => s
    | some writer => s.fail writer fault
  s.unlock

/-- Ends a round that could not be completed. Any writer of the batch can be in charge, whichever
takes the lock first. Here the first of the batch is; with another one the instance is the same but
for who gets the fault, which nothing else depends on (`abandonAs_spec`). -/
def abandon (s : Instance γ δ α ρ) (batch : List (Nat × Request α ρ)) (fault : Fault) :
    Instance γ δ α ρ :=
  s.abandonAs (batch.head?.map (·.2.writer)) batch fault

/-- Ends a round that was completed, and that began with readers on the old side. -/
def complete (s : Instance γ δ α ρ) (batch : List (Nat × Request α ρ)) (old : Side) :
    Instance γ δ α ρ :=
  let s := batch.foldl (fun s (i, _) => s.modifyCell i ({ · with request := none })) s
  let s := { s with mutations := s.mutations + batch.length, batches := s.batches + 1 }
  let event := match s.style with
    | .exclusive => Gate.appliedEvent s.gate s.mutations old.opposite
    | .combining => .batchApplied batch.length s.batches
  (s.report event).unlock

/-- Goes on with a round as soon as no reader is left on the old side. -/
def clear (s : Instance γ δ α ρ) (batch : List (Nat × Request α ρ)) (old : Side) (d : δ) :
    Instance γ δ α ρ :=
  match Gate.cleared s.gate d with
  | .error m =>
      let (fault, s) := s.misused m
      s.abandon batch fault
  | .ok false => { s with round := some ⟨batch, old, .clearing d⟩ }
  | .ok true =>
      match (s.report (Gate.clearedEvent γ d)).pass old 2 batch with
      | (.error fault, s) => s.abandon batch fault
      | (.ok (), s) => s.complete batch old

/-- Takes up a round where it waits. -/
def proceed (s : Instance γ δ α ρ) (r : Round δ α ρ) : Instance γ δ α ρ :=
  match r.phase with
  | .standby d =>
      if Gate.standby s.gate d then
        { s with gate := Gate.shift s.gate d }.clear r.batch r.old d
      else { s with round := some r }
  | .clearing d => s.clear r.batch r.old d

/-- Begins a round for a batch, with the lock taken. -/
def begin (s : Instance γ δ α ρ) (batch : List (Nat × Request α ρ)) : Instance γ δ α ρ :=
  let old := s.activeSide
  match s.pass old.opposite 1 batch with
  | (.error fault, s) => s.abandon batch fault
  | (.ok (), s) =>
      let (d, gate) := Gate.turn s.gate
      { s with gate }.proceed ⟨batch, old, .standby d⟩

/-- Takes up the round that waits, if there is one. -/
def resume (s : Instance γ δ α ρ) : Instance γ δ α ρ :=
  match s.round with
  | none => s
  | some r => { s with round := none }.proceed r

/-- Begins a round if there are requests and the lock is free. -/
def elect (s : Instance γ δ α ρ) : Instance γ δ α ρ :=
  match s.published, s.lock.tryAcquire with
  | [], _ | _, none => s
  | batch, some lock => { s with lock }.begin batch

/-- Lets the writers inside go as far as they can. -/
def settle (s : Instance γ δ α ρ) : Instance γ δ α ρ :=
  if s.writers.isEmpty then s else s.resume.elect

/-- Leaves a request at a cell. -/
def publish (s : Instance γ δ α ρ) (i : Nat) (r : Request α ρ) : Instance γ δ α ρ :=
  let s := s.modifyCell i ({ · with request := some r })
  { s with writers := s.writers ++ [⟨r.writer, i, r.observed, []⟩] }

/-- A writer comes in with a request. Only where writers combine does it present a slot, and the
slot has to be one of this instance. -/
def mutate (s : Instance γ δ α ρ) (slot : Slot) (r : Request α ρ) : Instance γ δ α ρ :=
  match s.style with
  | .exclusive => s.publish 0 r
  | .combining =>
      if slot.issuer = s.registry.id then s.publish slot.index r
      else
        let (fault, s) := s.misused .foreignSlot
        s.finish ⟨r.writer, slot.index, r.observed, []⟩ (.error fault)

end TwinCopy.Instance
