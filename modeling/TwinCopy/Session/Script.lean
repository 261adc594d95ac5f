import TwinCopy.Session

/-!
# Scripts

A script is a tree of operations: most are single moves, some repeat a move, and a query may carry
operations of its own that are done while it runs. Running a script gives a step for each
operation. A step has the answer, what the instance then shows, the writers that finished, and the
events since the step before; a query's own operations have steps of their own and take with them
what finishes and what is reported while they are done.
-/

namespace TwinCopy

/-- An operation of a script. -/
inductive Operation (α ρ : Type) where
  /-- one move -/
  | single (m : Move α ρ)
  /-- a move done so many times -/
  | times (n : Nat) (m : Move α ρ)
  /-- a slot claimed and given back so many times -/
  | churn (n : Nat)
  /-- so many reads that only look, each of which may give up -/
  | read (k : Nat) (n : Nat) (gaveUp : Bool)
  /-- a read that does operations of its own, and may then give up -/
  | query (k : Nat) (gaveUp : Bool) (body : List (Operation α ρ))
  /-- an operation that nobody can carry out -/
  | refused (r : Refusal)

instance {α ρ : Type} : Inhabited (Operation α ρ) :=
  ⟨.refused .unknownOperation⟩

/-- What is recorded of an operation that was done. -/
inductive Step (κ α ρ : Type) where
  | mk (answer : Except Failure (Answer κ α)) (view : View)
      (inner : Option (List (Step κ α ρ))) (finished : List (Finished α ρ)) (log : List Event)

/-- What is left when a script is over: the two copies, or the writers that are still inside. -/
inductive Ending (α : Type) where
  | copies (c : Copies α)
  | blocked (writers : List Nat)
  deriving DecidableEq, Repr

namespace Finished

variable {α ρ : Type}

/-- Puts a writer into a list that is ordered by writer. -/
def insert (w : Finished α ρ) : List (Finished α ρ) → List (Finished α ρ)
  | [] => [w]
  | v :: rest => if w.writer ≤ v.writer then w :: v :: rest else v :: insert w rest

/-- The faults of some writers. -/
def faults (ws : List (Finished α ρ)) : List Fault :=
  ws.filterMap fun w => match w.outcome with
    | .ok _ => none
    | .error f => some f

/-- Puts a fault into a list that is ordered by message. -/
def insertFault (f : Fault) : List Fault → List Fault
  | [] => [f]
  | g :: rest => if f.message ≤ g.message then f :: g :: rest else g :: insertFault f rest

/-- Hands faults out, in order, to the writers that ended in one. -/
def deal : List Fault → List (Finished α ρ) → List (Finished α ρ)
  | _, [] => []
  | fs, w :: rest =>
      match w.outcome, fs with
      | .error _, f :: fs => { w with outcome := .error f } :: deal fs rest
      | _, fs => w :: deal fs rest

/-- The writers that finished in one step, ordered. Which writer of a batch was in charge is not
part of the answer, so their faults are handed out in the order of their messages. -/
def inOrder (ws : List (Finished α ρ)) : List (Finished α ρ) :=
  let ws := ws.foldr insert []
  deal ((faults ws).foldr insertFault []) ws

end Finished

namespace Session

variable {γ κ δ α ρ : Type} [Gate γ κ δ]

/-- Closes a step: empties the outboxes into it. -/
def close (s : Session γ κ δ α ρ) (answer : Except Failure (Answer κ α))
    (inner : Option (List (Step κ α ρ))) : Step κ α ρ × Session γ κ δ α ρ :=
  (.mk answer s.inst.view inner (Finished.inOrder s.inst.finished) s.inst.log.reverse,
    { s with inst := { s.inst with finished := [], log := [] } })

/-- One read that only looks. -/
def readOnce (s : Session γ κ δ α ρ) (k : Nat) (gaveUp : Bool) :
    Except Failure (Answer κ α) × Session γ κ δ α ρ :=
  match s.perform (.enter k) with
  | (.ok _, s) => s.perform (.leave gaveUp)
  | (.error f, s) => (.error f, s)

/-- Does something again and again until it fails. A fault says in which repetition it arose. -/
def repeating (act : Session γ κ δ α ρ → Except Failure (Answer κ α) × Session γ κ δ α ρ)
    (done : Nat) : Nat → Answer κ α → Session γ κ δ α ρ →
    Except Failure (Answer κ α) × Session γ κ δ α ρ
  | 0, last, s => (.ok last, s)
  | n + 1, _, s =>
      match act s with
      | (.ok a, s) => repeating act (done + 1) n a s
      | (.error (.fault f _), s) => (.error (.fault f (some done)), s)
      | (.error e, s) => (.error e, s)

/-- Does something so many times. Done once, it is not counted. -/
def repeatedly (s : Session γ κ δ α ρ) (n : Nat)
    (act : Session γ κ δ α ρ → Except Failure (Answer κ α) × Session γ κ δ α ρ) :
    Except Failure (Answer κ α) × Session γ κ δ α ρ :=
  if n = 1 then act s else repeating act 0 n .done s

mutual

/-- Does one operation. -/
def step (s : Session γ κ δ α ρ) : Operation α ρ → Step κ α ρ × Session γ κ δ α ρ
  | .single m =>
      let (r, s) := s.perform m
      s.close r none
  | .times n m =>
      let (r, s) := s.repeatedly n (·.perform m)
      s.close r none
  | .churn n =>
      let (r, s) :=
        if Gate.slotted γ then s.repeatedly n (·.perform .churn) else s.refuse .unsupported
      s.close r none
  | .read k n gaveUp =>
      let (r, s) := s.repeatedly n (·.readOnce k gaveUp)
      s.close r none
  | .query k gaveUp body =>
      match s.perform (.enter k) with
      | (.ok (.copy before), s) =>
          let (steps, s) := s.steps body
          let (r, s) := s.perform (.leave gaveUp)
          let r := r.map fun
            | .copy after => .copies before after
            | a => a
          s.close r (some steps)
      | (r, s) => s.close r (some [])
  | .refused r =>
      let (r, s) := s.refuse r
      s.close r none

/-- Does operations one after the other. -/
def steps (s : Session γ κ δ α ρ) : List (Operation α ρ) → List (Step κ α ρ) × Session γ κ δ α ρ
  | [] => ([], s)
  | o :: rest =>
      let (first, s) := s.step o
      let (others, s) := s.steps rest
      (first :: others, s)

end

/-- What is left after the last operation. Nothing is given back for writers that still wait. -/
def ending (s : Session γ κ δ α ρ) : Ending α :=
  if s.inst.writers.isEmpty then .copies s.inst.copies else .blocked (s.inst.writers.map (·.id))

end Session

end TwinCopy
