import TwinCopy.Instance.Text

/-!
# Scripts for a lock

The interpreter of a script for a lock keeps a stack of guards, each of which gives the lock up
when it is dropped, whoever holds it by then. Contenders run beside it: each takes the lock as
soon as it can and at once gives it up.
-/

namespace TwinCopy

/-- A lock, its guards and its contenders. -/
structure LockDesk where
  lock : SpinLock
  /-- the guards on the stack; they are all alike -/
  guards : Nat
  /-- the contenders that wait, in the order in which they came -/
  waiting : List Nat
  /-- how many contenders there have been -/
  started : Nat
  deriving DecidableEq, Repr

/-- What a script may ask for. -/
inductive LockOperation where
  /-- takes the lock, unless that would block -/
  | acquire
  /-- takes the lock if nobody holds it -/
  | tryAcquire
  /-- drops the last guard -/
  | release
  /-- does what dropping the last guard does, and keeps it -/
  | strayRelease
  /-- takes the last guard off the stack and does not drop it -/
  | forget
  /-- starts so many contenders -/
  | contend (n : Nat)
  | text
  | look
  | refused (r : Refusal)
  deriving DecidableEq, Repr

/-- What a script may be told. -/
inductive LockAnswer where
  | done
  | taken (b : Bool)
  | text (t : String)
  deriving DecidableEq, Repr

namespace LockDesk

/-- A lock that no script has touched. -/
def ofLock (l : SpinLock) : LockDesk :=
  ⟨l, 0, [], 0⟩

/-- The contenders in a row that get the lock, one after the other, those that go on waiting, and
the lock they leave. -/
def serve (l : SpinLock) : List Nat → (List Nat × List Nat) × SpinLock
  | [] => (([], []), l)
  | w :: rest =>
      match l.tryAcquire with
      | none => (([], w :: rest), l)
      | some held => (serve held.release.2 rest).map (·.map (w :: ·) id) id

/-- Drops a guard. -/
def drop (d : LockDesk) : Except Failure LockAnswer × LockDesk :=
  let (r, lock) := d.lock.release
  (match r with
    | .ok () => .ok .done
    | .error m => .error (.fault (.misuse m) none),
    { d with lock })

/-- One operation, before contenders react to it. -/
def act (d : LockDesk) : LockOperation → Except Failure LockAnswer × LockDesk
  | .acquire =>
      match d.lock.tryAcquire with
      | some lock => (.ok .done, { d with lock, guards := d.guards + 1 })
      | none => (.error (.refused .wouldBlock), d)
  | .tryAcquire =>
      match d.lock.tryAcquire with
      | some lock => (.ok (.taken true), { d with lock, guards := d.guards + 1 })
      | none => (.ok (.taken false), d)
  | .release =>
      match d.guards with
      | 0 => (.error (.refused .noGuard), d)
      | guards + 1 => { d with guards }.drop
  | .strayRelease =>
      match d.guards with
      | 0 => (.error (.refused .noGuard), d)
      | _ + 1 => d.drop
  | .forget =>
      match d.guards with
      | 0 => (.error (.refused .noGuard), d)
      | guards + 1 => (.ok .done, { d with guards })
  | .contend n =>
      (.ok .done,
        { d with waiting := d.waiting ++ List.range' d.started n, started := d.started + n })
  | .text => (.ok (.text d.lock.text), d)
  | .look => (.ok .done, d)
  | .refused r => (.error (.refused r), d)

/-- One operation: its answer, the contenders that have had the lock since, and what is left. -/
def perform (d : LockDesk) (o : LockOperation) :
    (Except Failure LockAnswer × List Nat) × LockDesk :=
  let (r, d) := d.act o
  let ((acquired, waiting), lock) := serve d.lock d.waiting
  ((r, acquired), { d with lock, waiting })

end LockDesk

end TwinCopy
