import TwinCopy.Failure

/-!
# The writer lock

A test-and-set lock. Its holder is not recorded: whoever releases it, releases it for everybody.
-/

namespace TwinCopy

/-- What a caller does between two looks at a condition it waits for. It changes no answer. -/
inductive WaitPolicy where
  /-- gives the processor back -/
  | yield
  /-- keeps the processor busy -/
  | spin
  deriving DecidableEq, Repr, Inhabited

/-- How often a caller that waits under either policy looks at a condition that holds from the
`n`-th look on: it looks before it first pauses, so at least once. -/
def WaitPolicy.looks (_ : WaitPolicy) (n : Nat) : Nat :=
  max 1 n

/-- Whether somebody holds the lock, and how callers wait for it. -/
structure SpinLock where
  locked : Bool
  wait : WaitPolicy
  deriving DecidableEq, Repr, Inhabited

namespace SpinLock

/-- A lock that nobody holds. -/
def free (wait : WaitPolicy) : SpinLock :=
  ⟨false, wait⟩

/-- Takes the lock if nobody holds it. -/
def tryAcquire (l : SpinLock) : Option SpinLock :=
  if l.locked then none else some { l with locked := true }

/-- Gives the lock up. To release a lock that nobody holds is misuse, and leaves it so. -/
def release (l : SpinLock) : Except Misuse Unit × SpinLock :=
  if l.locked then (.ok (), { l with locked := false }) else (.error .lockNotHeld, l)

/-- The lock is refused to those who ask while somebody holds it, and to nobody else. -/
theorem tryAcquire_eq_none_iff {l : SpinLock} : l.tryAcquire = none ↔ l.locked = true := by
  cases h : l.locked <;> simp [tryAcquire, h]

/-- Whoever takes the lock can give it up, which leaves it as it was. -/
theorem release_of_tryAcquire {l held : SpinLock} (h : l.tryAcquire = some held) :
    held.release = (.ok (), l) := by
  obtain ⟨locked, wait⟩ := l
  cases locked with
  | false =>
    simp only [tryAcquire, Bool.false_eq_true, if_false, Option.some.injEq] at h
    subst h
    rfl
  | true => simp [tryAcquire] at h

end SpinLock

end TwinCopy
