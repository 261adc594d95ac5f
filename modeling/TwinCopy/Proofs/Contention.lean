import Mathlib.Data.List.Induction
import Mathlib.Data.List.Perm.Basic
import TwinCopy.Lock.Script
import TwinCopy.Proofs.Schedule

/-!
# The lock of a script under contention

`LockDesk.perform` serves the waiting contenders one after the other as soon as an operation of the
script is over. Here contenders act on their own: a contender tries to take the lock, and once it
has it, drops its guard, each at any time between the operations of the script. A `LockRun` consists
of a desk, the contenders that have a guard, and everything done to the lock so far, so that
statements about all runs cover every interleaving of operations and contenders. Scripts are
particular interleavings: `exists_ticks_performAll`.

The lock does not record its holder, so results are stated in terms of the numbers of takings and
releases. Main statement: `lock_accounts`.
-/

namespace TwinCopy

/-- An action on a lock: by the script if no contender is named. -/
inductive LockAction where
  | taken (who : Option Nat)
  /-- an attempt to take it was refused -/
  | denied (who : Option Nat)
  | freed (who : Option Nat)
  /-- an attempt to release it was refused -/
  | misused (who : Option Nat)
  /-- a guard was removed from the stack without being dropped -/
  | forgotten
  deriving DecidableEq, Repr

namespace LockAction

def isTaken : LockAction → Bool
  | taken _ => true
  | _ => false

def isFreed : LockAction → Bool
  | freed _ => true
  | _ => false

/-- The contender that took the lock. -/
def entered? : LockAction → Option Nat
  | taken who => who
  | _ => none

/-- The contender that dropped its guard. -/
def left? : LockAction → Option Nat
  | freed who | misused who => who
  | _ => none

/-- The number of times that the lock was taken. -/
def takings (history : List LockAction) : Nat :=
  history.countP isTaken

/-- The number of times that the lock was released. -/
def releases (history : List LockAction) : Nat :=
  history.countP isFreed

/-- Whether an action is legal after a history: the lock is taken, and a release refused, only if
takings equal releases; an attempt to take it is refused, and a release accepted, only if there is
one taking more. -/
def Legal : LockAction → List LockAction → Prop
  | taken _, earlier | misused _, earlier => takings earlier = releases earlier
  | denied _, earlier | freed _, earlier => takings earlier = releases earlier + 1
  | forgotten, _ => True

/-- The history accounts for the state of the lock: there is one taking more than releases if the
lock reads as locked, and none otherwise, and every action was legal after those before it. -/
structure Account (locked : Bool) (history : List LockAction) : Prop where
  balance : takings history = releases history + locked.toNat
  legal : Whenever Legal history

lemma takings_cons (action : LockAction) (history : List LockAction) :
    takings (action :: history) = takings history + action.isTaken.toNat := by
  cases h : action.isTaken <;> simp [takings, h]

lemma releases_cons (action : LockAction) (history : List LockAction) :
    releases (action :: history) = releases history + action.isFreed.toNat := by
  cases h : action.isFreed <;> simp [releases, h]

namespace Account

variable {locked : Bool} {history : List LockAction}

lemma fresh : Account false [] :=
  ⟨rfl, .nil⟩

lemma taken (h : Account locked history) (hfree : locked = false) (who : Option Nat) :
    Account true (.taken who :: history) := by
  subst hfree
  refine ⟨?_, h.legal.cons h.balance⟩
  rw [takings_cons, releases_cons, h.balance]
  rfl

lemma denied (h : Account locked history) (hlocked : locked = true) (who : Option Nat) :
    Account locked (.denied who :: history) := by
  subst hlocked
  exact ⟨h.balance, h.legal.cons h.balance⟩

lemma freed (h : Account locked history) (hlocked : locked = true) (who : Option Nat) :
    Account false (.freed who :: history) := by
  subst hlocked
  refine ⟨?_, h.legal.cons h.balance⟩
  rw [takings_cons, releases_cons, h.balance]
  rfl

lemma misused (h : Account locked history) (hfree : locked = false) (who : Option Nat) :
    Account locked (.misused who :: history) := by
  subst hfree
  exact ⟨h.balance, h.legal.cons h.balance⟩

lemma forgotten (h : Account locked history) : Account locked (.forgotten :: history) :=
  ⟨h.balance, h.legal.cons trivial⟩

/-- The lock reads as free exactly if takings equal releases. -/
lemma free_iff (h : Account locked history) :
    locked = false ↔ takings history = releases history := by
  have hbalance := h.balance
  cases locked with
  | false => simpa using hbalance
  | true => simp only [Bool.toNat_true] at hbalance; simp; omega

end Account

end LockAction

open LockAction

/-- A desk, the contenders that have a guard, and the actions on the lock, latest first. -/
structure LockRun where
  desk : LockDesk
  inside : List Nat
  history : List LockAction
  deriving Repr

/-- A tick of a schedule of the script and the contenders. -/
inductive LockTick where
  /-- the script makes an operation; no contender reacts -/
  | call (o : LockOperation)
  /-- a waiting contender tries to take the lock -/
  | enter (w : Nat)
  /-- a contender that has a guard drops it -/
  | leave (w : Nat)
  deriving DecidableEq, Repr

/-- The operation of the script at a tick. -/
def LockTick.call? : LockTick → Option LockOperation
  | call o => some o
  | _ => none

/-- The actions of an operation on the lock, given its answer. -/
def LockOperation.actions (o : LockOperation) (answer : Except Failure LockAnswer) :
    List LockAction :=
  match o, answer with
  | .acquire, .ok _ => [.taken none]
  | .acquire, .error _ => [.denied none]
  | .tryAcquire, .ok (.taken true) => [.taken none]
  | .tryAcquire, .ok (.taken false) => [.denied none]
  | .release, .ok _ | .strayRelease, .ok _ => [.freed none]
  | .release, .error (.fault ..) | .strayRelease, .error (.fault ..) => [.misused none]
  | .forget, .ok _ => [.forgotten]
  | _, _ => []

namespace LockRun

/-- The initial state. -/
def start (wait : WaitPolicy) : LockRun :=
  ⟨.ofLock (.free wait), [], []⟩

/-- A waiting contender tries to take the lock. -/
def enter (s : LockRun) (w : Nat) : LockRun :=
  match s.desk.lock.tryAcquire with
  | some lock =>
    ⟨{ s.desk with lock, waiting := s.desk.waiting.erase w }, w :: s.inside,
      .taken (some w) :: s.history⟩
  | none => { s with history := .denied (some w) :: s.history }

/-- A contender drops its guard. -/
def leave (s : LockRun) (w : Nat) : LockRun :=
  let (released, lock) := s.desk.lock.release
  ⟨{ s.desk with lock }, s.inside.erase w,
    (match released with
      | .ok () => .freed (some w)
      | .error _ => .misused (some w)) :: s.history⟩

/-- The state after a tick. Contenders that do not wait cannot enter, and those without a guard
cannot leave. -/
def next (s : LockRun) : LockTick → LockRun
  | .call o =>
    { s with desk := (s.desk.act o).2, history := o.actions (s.desk.act o).1 ++ s.history }
  | .enter w => if w ∈ s.desk.waiting then s.enter w else s
  | .leave w => if w ∈ s.inside then s.leave w else s

/-- The state after a list of ticks. -/
def after (s : LockRun) (ticks : List LockTick) : LockRun :=
  ticks.foldl next s

/-- The graph of `next`, with the state of the lock as a condition. -/
inductive Stepped (s : LockRun) : LockTick → LockRun → Prop
  | quiet {t} : Stepped s t s
  | joined {t} (n : Nat) :
      Stepped s t { s with desk := { s.desk with
        waiting := s.desk.waiting ++ List.range' s.desk.started n
        started := s.desk.started + n } }
  | taken {t} (hfree : s.desk.lock.locked = false) :
      Stepped s t { s with
        desk := { s.desk with
          lock := { s.desk.lock with locked := true }
          guards := s.desk.guards + 1 }
        history := .taken none :: s.history }
  | denied {t} (who : Option Nat) (hlocked : s.desk.lock.locked = true) :
      Stepped s t { s with history := .denied who :: s.history }
  | freed {t} {guards : Nat} (hguards : s.desk.guards = guards + 1)
      (hlocked : s.desk.lock.locked = true) :
      Stepped s t { s with
        desk := { s.desk with lock := { s.desk.lock with locked := false }, guards }
        history := .freed none :: s.history }
  | misused {t} {guards : Nat} (hguards : s.desk.guards = guards + 1)
      (hfree : s.desk.lock.locked = false) :
      Stepped s t { s with
        desk := { s.desk with guards }
        history := .misused none :: s.history }
  | strayed (hlocked : s.desk.lock.locked = true) :
      Stepped s (.call .strayRelease) { s with
        desk := { s.desk with lock := { s.desk.lock with locked := false } }
        history := .freed none :: s.history }
  | strayedInVain (hfree : s.desk.lock.locked = false) :
      Stepped s (.call .strayRelease) { s with history := .misused none :: s.history }
  | forgotten {t} {guards : Nat} (hguards : s.desk.guards = guards + 1) :
      Stepped s t { s with
        desk := { s.desk with guards }
        history := .forgotten :: s.history }
  | entered {t} {w : Nat} (hwaits : w ∈ s.desk.waiting) (hfree : s.desk.lock.locked = false) :
      Stepped s t ⟨{ s.desk with
          lock := { s.desk.lock with locked := true }
          waiting := s.desk.waiting.erase w },
        w :: s.inside, .taken (some w) :: s.history⟩
  | left {t} {w : Nat} (hinside : w ∈ s.inside) (hlocked : s.desk.lock.locked = true) :
      Stepped s t ⟨{ s.desk with lock := { s.desk.lock with locked := false } },
        s.inside.erase w, .freed (some w) :: s.history⟩
  | leftInVain {t} {w : Nat} (hinside : w ∈ s.inside) (hfree : s.desk.lock.locked = false) :
      Stepped s t ⟨s.desk, s.inside.erase w, .misused (some w) :: s.history⟩

lemma stepped_call (s : LockRun) (o : LockOperation) :
    Stepped s (.call o) (s.next (.call o)) := by
  obtain ⟨⟨⟨locked, wait⟩, guards, waiting, started⟩, inside, history⟩ := s
  cases o with
  | acquire =>
    cases locked with
    | false => exact .taken rfl
    | true => exact .denied none rfl
  | tryAcquire =>
    cases locked with
    | false => exact .taken rfl
    | true => exact .denied none rfl
  | release =>
    cases guards with
    | zero => exact .quiet
    | succ guards =>
      cases locked with
      | false => exact .misused rfl rfl
      | true => exact .freed rfl rfl
  | strayRelease =>
    cases guards with
    | zero => exact .quiet
    | succ guards =>
      cases locked with
      | false => exact .strayedInVain rfl
      | true => exact .strayed rfl
  | forget =>
    cases guards with
    | zero => exact .quiet
    | succ guards => exact .forgotten rfl
  | contend n => exact .joined n
  | text => exact .quiet
  | look => exact .quiet
  | refused r => exact .quiet

lemma stepped_next (s : LockRun) (t : LockTick) : Stepped s t (s.next t) := by
  cases t with
  | call o => exact s.stepped_call o
  | enter w =>
    rw [next]
    split
    · next hwaits =>
      obtain ⟨⟨⟨locked, wait⟩, guards, waiting, started⟩, inside, history⟩ := s
      cases locked with
      | false => exact .entered hwaits rfl
      | true => exact .denied (some w) rfl
    · exact .quiet
  | leave w =>
    rw [next]
    split
    · next hinside =>
      obtain ⟨⟨⟨locked, wait⟩, guards, waiting, started⟩, inside, history⟩ := s
      cases locked with
      | false => exact .leftInVain hinside rfl
      | true => exact .left hinside rfl
    · exact .quiet

/-- Induction over a run. -/
lemma after_induction {P : LockRun → Prop} {start : LockRun} (hstart : P start)
    (hstep : ∀ s t, P s → P (s.next t)) (ticks : List LockTick) : P (start.after ticks) := by
  induction ticks generalizing start with
  | nil => exact hstart
  | cons t ticks ih => exact ih (hstep start t hstart)

/-! ## The numbers of takings and releases -/

/-- The history accounts for the state of the lock. -/
def Accounted (s : LockRun) : Prop :=
  Account s.desk.lock.locked s.history

lemma Accounted.step {s s' : LockRun} {t : LockTick} (h : s.Accounted) (hstep : s.Stepped t s') :
    s'.Accounted := by
  cases hstep with
  | quiet => exact h
  | joined n => exact h
  | taken hfree => exact Account.taken h hfree none
  | denied who hlocked => exact Account.denied h hlocked who
  | freed hguards hlocked => exact Account.freed h hlocked none
  | misused hguards hfree => exact Account.misused h hfree none
  | strayed hlocked => exact Account.freed h hlocked none
  | strayedInVain hfree => exact Account.misused h hfree none
  | forgotten hguards => exact Account.forgotten h
  | entered hwaits hfree => exact Account.taken h hfree _
  | left hinside hlocked => exact Account.freed h hlocked _
  | leftInVain hinside hfree => exact Account.misused h hfree _

lemma accounted_after (wait : WaitPolicy) (ticks : List LockTick) :
    ((start wait).after ticks).Accounted :=
  after_induction Account.fresh (fun s t h => h.step (s.stepped_next t)) ticks

/-! ## The contenders -/

/-- The contenders that took the lock, latest first. -/
def entered (s : LockRun) : List Nat :=
  s.history.filterMap entered?

/-- The contenders that dropped their guards, latest first. -/
def left (s : LockRun) : List Nat :=
  s.history.filterMap left?

/-- Each contender that was started either waits, or has taken the lock once; each of the latter has
its guard or has dropped it once. -/
structure ContendersCounted (s : LockRun) : Prop where
  once : (s.entered ++ s.desk.waiting).Perm (List.range s.desk.started)
  leaves : (s.left ++ s.inside).Perm s.entered

lemma ContendersCounted.step {s s' : LockRun} {t : LockTick} (h : s.ContendersCounted)
    (hstep : s.Stepped t s') :
    s'.ContendersCounted := by
  obtain ⟨honce, hleaves⟩ := h
  -- a contender that drops its guard moves from those inside to those that left
  have hmove {w : Nat} (hinside : w ∈ s.inside) :
      ((w :: s.left) ++ s.inside.erase w).Perm s.entered :=
    (List.perm_middle.symm.trans ((List.perm_cons_erase hinside).symm.append_left _)).trans hleaves
  cases hstep with
  | quiet => exact ⟨honce, hleaves⟩
  | joined n =>
    refine ⟨?_, hleaves⟩
    have hrange : List.range (s.desk.started + n) =
        List.range s.desk.started ++ List.range' s.desk.started n := by
      simp only [List.range_eq_range', ← List.range'_append_1, Nat.zero_add]
    change (s.entered ++ (s.desk.waiting ++ List.range' s.desk.started n)).Perm
      (List.range (s.desk.started + n))
    rw [hrange, ← List.append_assoc]
    exact honce.append_right _
  | taken hfree => exact ⟨honce, hleaves⟩
  | denied who hlocked => exact ⟨honce, hleaves⟩
  | freed hguards hlocked => exact ⟨honce, hleaves⟩
  | misused hguards hfree => exact ⟨honce, hleaves⟩
  | strayed hlocked => exact ⟨honce, hleaves⟩
  | strayedInVain hfree => exact ⟨honce, hleaves⟩
  | forgotten hguards => exact ⟨honce, hleaves⟩
  | entered hwaits hfree =>
    refine ⟨?_, ?_⟩
    · exact (List.perm_middle.symm.trans
        ((List.perm_cons_erase hwaits).symm.append_left _)).trans honce
    · exact List.perm_middle.trans (hleaves.cons _)
  | left hinside hlocked => exact ⟨honce, hmove hinside⟩
  | leftInVain hinside hfree => exact ⟨honce, hmove hinside⟩

lemma contendersCounted_after (wait : WaitPolicy) (ticks : List LockTick) :
    ((start wait).after ticks).ContendersCounted :=
  after_induction ⟨.refl _, .refl _⟩ (fun s t h => h.step (s.stepped_next t)) ticks

/-! ## Guards -/

/-- The number of guards not dropped: on the stack, forgotten, or with a contender. -/
def guards (s : LockRun) : Nat :=
  s.desk.guards + s.history.count .forgotten + s.inside.length

/-- There is one guard if the lock reads as locked, and none otherwise, and no release was
refused. -/
structure GuardsExact (s : LockRun) : Prop where
  sole : s.guards = s.desk.lock.locked.toNat
  matched : ∀ who, .misused who ∉ s.history

lemma GuardsExact.step {s s' : LockRun} {t : LockTick} (h : s.GuardsExact) (hstep : s.Stepped t s')
    (ht : t ≠ .call .strayRelease) : s'.GuardsExact := by
  obtain ⟨hsole, hmatched⟩ := h
  have hkept {action : LockAction} (haction : ∀ who, action ≠ .misused who) (who : Option Nat) :
      .misused who ∉ action :: s.history :=
    fun hmem => (List.mem_cons.1 hmem).elim (fun h => haction who h.symm) (hmatched who)
  have hsame (action : LockAction) (haction : action ≠ .forgotten) :
      (action :: s.history).count .forgotten = s.history.count .forgotten :=
    List.count_cons_of_ne haction
  simp only [guards] at hsole
  cases hstep with
  | quiet => exact ⟨hsole, hmatched⟩
  | joined n => exact ⟨hsole, hmatched⟩
  | strayed hlocked => exact absurd rfl ht
  | strayedInVain hfree => exact absurd rfl ht
  | taken hfree =>
    refine ⟨?_, hkept (by simp)⟩
    simp only [guards, hsame (.taken none) (by simp)]
    simp only [hfree, Bool.toNat_false, Bool.toNat_true] at hsole ⊢
    omega
  | denied who hlocked =>
    refine ⟨?_, hkept (by simp)⟩
    simp only [guards, hsame (.denied who) (by simp)]
    exact hsole
  | freed hguards hlocked =>
    refine ⟨?_, hkept (by simp)⟩
    simp only [guards, hsame (.freed none) (by simp)]
    simp only [hguards, hlocked, Bool.toNat_false, Bool.toNat_true] at hsole ⊢
    omega
  | misused hguards hfree =>
    -- the guard that is dropped is the one that holds the lock
    simp only [hguards, hfree, Bool.toNat_false] at hsole
    omega
  | forgotten hguards =>
    refine ⟨?_, hkept (by simp)⟩
    simp only [guards, List.count_cons_self]
    omega
  | @entered _ w hwaits hfree =>
    refine ⟨?_, hkept (by simp)⟩
    simp only [guards, hsame (.taken (some w)) (by simp), List.length_cons]
    simp only [hfree, Bool.toNat_false, Bool.toNat_true] at hsole ⊢
    omega
  | @left _ w hinside hlocked =>
    refine ⟨?_, hkept (by simp)⟩
    have hlength := List.length_erase_add_one hinside
    simp only [guards, hsame (.freed (some w)) (by simp)]
    simp only [hlocked, Bool.toNat_false, Bool.toNat_true] at hsole ⊢
    omega
  | leftInVain hinside hfree =>
    have hlength := List.length_pos_of_mem hinside
    simp only [hfree, Bool.toNat_false] at hsole
    omega

lemma guardsExact_after (wait : WaitPolicy) {ticks : List LockTick}
    (hticks : .call .strayRelease ∉ ticks) : ((start wait).after ticks).GuardsExact := by
  induction ticks using List.reverseRecOn with
  | nil => exact ⟨rfl, fun _ => List.not_mem_nil⟩
  | append_singleton ticks t ih =>
    rw [after, List.foldl_append]
    rw [List.mem_append, List.mem_singleton, not_or] at hticks
    exact (ih hticks.1).step (stepped_next _ t) (Ne.symm hticks.2)

end LockRun

/-! ## Scripts -/

namespace LockDesk

/-- An attempt to take the lock answers whether it was free. -/
lemma tryAcquire_answer (d : LockDesk) : (d.act .tryAcquire).1 = .ok (.taken !d.lock.locked) := by
  obtain ⟨⟨locked, wait⟩, guards, waiting, started⟩ := d
  cases locked <;> rfl

lemma acquire_done_iff (d : LockDesk) : (d.act .acquire).1 = .ok .done ↔ d.lock.locked = false := by
  obtain ⟨⟨locked, wait⟩, guards, waiting, started⟩ := d
  cases locked with
  | false => exact iff_of_true rfl rfl
  | true => exact iff_of_false nofun nofun

lemma drop_done_iff (d : LockDesk) : d.drop.1 = .ok .done ↔ d.lock.locked = true := by
  obtain ⟨⟨locked, wait⟩, guards, waiting, started⟩ := d
  cases locked with
  | false => exact iff_of_false nofun nofun
  | true => exact iff_of_true rfl rfl

lemma drop_refused_iff (d : LockDesk) :
    d.drop.1 = .error (.fault (.misuse .lockNotHeld) none) ↔ d.lock.locked = false := by
  obtain ⟨⟨locked, wait⟩, guards, waiting, started⟩ := d
  cases locked with
  | false => exact iff_of_true rfl rfl
  | true => exact iff_of_false nofun nofun

/-- A release leaves the lock free, refused or not. -/
lemma locked_drop (d : LockDesk) : d.drop.2.lock.locked = false := by
  obtain ⟨⟨locked, wait⟩, guards, waiting, started⟩ := d
  cases locked <;> rfl

lemma serve_of_locked {l : SpinLock} (h : l.locked = true) (ws : List Nat) :
    serve l ws = (([], ws), l) := by
  cases ws with
  | nil => rfl
  | cons w ws => rw [serve, SpinLock.tryAcquire_eq_none_iff.2 h]

/-- Contenders that find the lock free leave it free. -/
lemma serve_of_free {l : SpinLock} (h : l.locked = false) (ws : List Nat) :
    serve l ws = ((ws, []), l) := by
  induction ws with
  | nil => rfl
  | cons w ws ih =>
    have htaken : l.tryAcquire = some { l with locked := true } := by
      simp [SpinLock.tryAcquire, h]
    simp only [serve, htaken, SpinLock.release_of_tryAcquire htaken, ih, Prod.map, id]

/-- The answers to a script, each with the contenders that had the lock after the operation, and the
final state. -/
def performAll (d : LockDesk) :
    List LockOperation → List (Except Failure LockAnswer × List Nat) × LockDesk
  | [] => ([], d)
  | o :: os =>
      ((d.perform o).1 :: ((d.perform o).2.performAll os).1, ((d.perform o).2.performAll os).2)

/-- After an operation contenders wait only if the lock is held. They are the last of those that
waited; the others had the lock, in order. -/
lemma perform_cases (d : LockDesk) (o : LockOperation) :
    ((d.act o).2.lock.locked = true ∧ d.perform o = (((d.act o).1, []), (d.act o).2)) ∨
      ((d.act o).2.lock.locked = false ∧
        d.perform o =
          (((d.act o).1, (d.act o).2.waiting), { (d.act o).2 with waiting := [] })) := by
  cases h : (d.act o).2.lock.locked with
  | true => exact .inl ⟨rfl, by simp only [perform, serve_of_locked h]⟩
  | false => exact .inr ⟨rfl, by simp only [perform, serve_of_free h]⟩

/-- Only an operation that starts contenders changes the waiting ones. -/
lemma waiting_act (d : LockDesk) (o : LockOperation) :
    ∃ n, (d.act o).2.waiting = d.waiting ++ List.range' d.started n ∧
      (d.act o).2.started = d.started + n := by
  obtain ⟨⟨locked, wait⟩, guards, waiting, started⟩ := d
  have habsent : ∃ n, waiting = waiting ++ List.range' started n ∧ started = started + n :=
    ⟨0, by simp⟩
  cases o with
  | contend n => exact ⟨n, rfl, rfl⟩
  | acquire => cases locked <;> exact habsent
  | tryAcquire => cases locked <;> exact habsent
  | release => cases guards <;> exact habsent
  | strayRelease => cases guards <;> exact habsent
  | forget => cases guards <;> exact habsent
  | text => exact habsent
  | look => exact habsent
  | refused r => exact habsent

/-- Contenders have the lock in the order in which they were started. -/
lemma served_perform {d : LockDesk} {served : List Nat} (o : LockOperation)
    (h : served ++ d.waiting = List.range d.started) :
    (served ++ (d.perform o).1.2) ++ (d.perform o).2.waiting =
      List.range (d.perform o).2.started := by
  obtain ⟨n, hwaiting, hstarted⟩ := d.waiting_act o
  have hact : served ++ (d.act o).2.waiting = List.range (d.act o).2.started := by
    rw [hwaiting, hstarted, ← List.append_assoc, h]
    simp only [List.range_eq_range', ← List.range'_append_1, Nat.zero_add]
  rcases d.perform_cases o with ⟨-, hperform⟩ | ⟨-, hperform⟩
  · rw [hperform, List.append_nil]
    exact hact
  · rw [hperform, List.append_nil]
    exact hact

lemma served_performAll {d : LockDesk} (served : List Nat) (os : List LockOperation)
    (h : served ++ d.waiting = List.range d.started) :
    (served ++ (d.performAll os).1.flatMap Prod.snd) ++ (d.performAll os).2.waiting =
      List.range (d.performAll os).2.started := by
  induction os generalizing d served with
  | nil => rwa [performAll, List.flatMap_nil, List.append_nil]
  | cons o os ih =>
    rw [performAll, List.flatMap_cons, ← List.append_assoc]
    exact ih _ (served_perform o h)

/-- No contender waits for a free lock once an operation is over. -/
lemma locked_performAll {d : LockDesk} (os : List LockOperation)
    (h : d.waiting ≠ [] → d.lock.locked = true) (hwaits : (d.performAll os).2.waiting ≠ []) :
    (d.performAll os).2.lock.locked = true := by
  induction os generalizing d with
  | nil => exact h hwaits
  | cons o os ih =>
    refine ih ?_ hwaits
    rcases d.perform_cases o with ⟨hlocked, hperform⟩ | ⟨-, hperform⟩
    · rw [hperform]
      exact fun _ => hlocked
    · rw [hperform]
      exact fun h => absurd rfl h

end LockDesk

namespace LockRun

/-- The ticks in which a contender takes the lock and releases it. -/
def enterAndLeave (w : Nat) : List LockTick :=
  [.enter w, .leave w]

/-- Contenders that wait for a free lock may take it and release it one after the other. -/
lemma after_enterAndLeave {d : LockDesk} (hfree : d.lock.locked = false)
    (history : List LockAction) :
    ∃ history', (⟨d, [], history⟩ : LockRun).after (d.waiting.flatMap enterAndLeave) =
      ⟨{ d with waiting := [] }, [], history'⟩ := by
  obtain ⟨⟨locked, wait⟩, guards, waiting, started⟩ := d
  subst hfree
  induction waiting generalizing history with
  | nil => exact ⟨history, rfl⟩
  | cons w waiting ih =>
    have hvisit : (⟨⟨⟨false, wait⟩, guards, w :: waiting, started⟩, [], history⟩ : LockRun).after
        (enterAndLeave w) = ⟨⟨⟨false, wait⟩, guards, waiting, started⟩, [],
          .freed (some w) :: .taken (some w) :: history⟩ := by
      simp [enterAndLeave, after, next, enter, leave, SpinLock.tryAcquire, SpinLock.release]
    obtain ⟨history', hafter⟩ := ih (.freed (some w) :: .taken (some w) :: history)
    refine ⟨history', ?_⟩
    change after _ (enterAndLeave w ++ waiting.flatMap enterAndLeave) = _
    rw [after, List.foldl_append]
    change after (after _ (enterAndLeave w)) (waiting.flatMap enterAndLeave) = _
    rw [hvisit]
    exact hafter

/-- An operation of a script is a tick of its own, followed by those of the contenders that it lets
in. -/
lemma after_perform (d : LockDesk) (history : List LockAction) (o : LockOperation) :
    ∃ history',
      (⟨d, [], history⟩ : LockRun).after (.call o :: (d.perform o).1.2.flatMap enterAndLeave) =
      ⟨(d.perform o).2, [], history'⟩ := by
  rcases d.perform_cases o with ⟨-, hperform⟩ | ⟨hfree, hperform⟩
  · rw [hperform]
    exact ⟨_, rfl⟩
  · rw [hperform]
    exact after_enterAndLeave hfree _

lemma call?_enterAndLeave (ws : List Nat) :
    (ws.flatMap enterAndLeave).filterMap LockTick.call? = [] := by
  induction ws with
  | nil => rfl
  | cons w ws ih => exact ih

/-- The run of a script is a schedule of its operations and the contenders. -/
lemma exists_ticks_performAll (d : LockDesk) (history : List LockAction) (os : List LockOperation) :
    ∃ ticks history', ticks.filterMap LockTick.call? = os ∧
      (⟨d, [], history⟩ : LockRun).after ticks = ⟨(d.performAll os).2, [], history'⟩ := by
  induction os generalizing d history with
  | nil => exact ⟨[], history, rfl, rfl⟩
  | cons o os ih =>
    obtain ⟨history₁, hfirst⟩ := after_perform d history o
    obtain ⟨ticks, history₂, hcalls, hrest⟩ := ih (d.perform o).2 history₁
    refine ⟨(.call o :: (d.perform o).1.2.flatMap enterAndLeave) ++ ticks, history₂, ?_, ?_⟩
    · rw [List.filterMap_append, hcalls]
      exact congrArg (o :: · ++ os) (call?_enterAndLeave _)
    · rw [after, List.foldl_append]
      change after (after _ _) ticks = _
      rw [hfirst]
      exact hrest

end LockRun

/-- In every schedule of operations and contenders, the lock was taken as often as it was released,
or once more, and it reads as locked exactly in the latter case. This was so at each taking and at
each release before, and it determines what comes next: the lock can be taken, and a release is
refused, exactly if takings equal releases. A release leaves the lock free, refused or not. Each
contender waits or has had the lock once. Without stray releases there is one guard if the lock is
locked and none if it is free, no release was refused, and the next one is not.

Every script is such a schedule. After each of its operations contenders wait only if the lock is
locked, and the others had it in the order in which they were started. -/
theorem lock_accounts (wait : WaitPolicy) :
    (∀ ticks : List LockTick,
      let s := (LockRun.start wait).after ticks
      takings s.history = releases s.history + s.desk.lock.locked.toNat ∧
      Whenever Legal s.history ∧
      (s.desk.act .tryAcquire).1 = .ok (.taken (takings s.history = releases s.history)) ∧
      ((s.desk.act .acquire).1 = .ok .done ↔ takings s.history = releases s.history) ∧
      (s.desk.drop.1 = .error (.fault (.misuse .lockNotHeld) none) ↔
        takings s.history = releases s.history) ∧
      s.desk.drop.2.lock.locked = false ∧
      (s.entered ++ s.desk.waiting).Perm (List.range s.desk.started) ∧
      (s.left ++ s.inside).Perm s.entered ∧
      (.call .strayRelease ∉ ticks →
        s.guards = s.desk.lock.locked.toNat ∧ (∀ who, .misused who ∉ s.history) ∧
        (0 < s.desk.guards + s.inside.length → s.desk.drop.1 = .ok .done))) ∧
    ∀ script : List LockOperation,
      let d := (LockDesk.ofLock (.free wait)).performAll script
      (d.2.waiting ≠ [] → d.2.lock.locked = true) ∧
      d.1.flatMap Prod.snd ++ d.2.waiting = List.range d.2.started ∧
      ∃ ticks history, ticks.filterMap LockTick.call? = script ∧
        (LockRun.start wait).after ticks = ⟨d.2, [], history⟩ := by
  constructor
  · intro ticks s
    have haccount : Account s.desk.lock.locked s.history := LockRun.accounted_after wait ticks
    have hcounted : s.ContendersCounted := LockRun.contendersCounted_after wait ticks
    refine ⟨haccount.balance, haccount.legal, ?_, s.desk.acquire_done_iff.trans haccount.free_iff,
      s.desk.drop_refused_iff.trans haccount.free_iff, s.desk.locked_drop, hcounted.once,
      hcounted.leaves, ?_⟩
    · have hanswer :
          (!s.desk.lock.locked) = decide (takings s.history = releases s.history) := by
        rw [Bool.eq_iff_iff, decide_eq_true_iff, Bool.not_eq_true', haccount.free_iff]
      rw [s.desk.tryAcquire_answer, hanswer]
    · intro hticks
      -- without stray releases only its guard frees the lock
      have hguarded : s.GuardsExact := LockRun.guardsExact_after wait hticks
      refine ⟨hguarded.sole, hguarded.matched, fun hpos => s.desk.drop_done_iff.2 ?_⟩
      refine eq_true_of_ne_false fun hfree => ?_
      have hsole := hguarded.sole
      simp only [LockRun.guards, hfree, Bool.toNat_false] at hsole
      omega
  · intro script d
    exact ⟨LockDesk.locked_performAll script (fun h => absurd rfl h),
      LockDesk.served_performAll [] script rfl,
      LockRun.exists_ticks_performAll _ [] script⟩

/-- One contender has the lock while another one waits and the script is refused, and later a guard
is forgotten. A contender started after that waits forever. -/
theorem lock_accounts_while_contended :
    let ticks : List LockTick :=
      [.call .acquire, .call (.contend 2), .enter 0, .call .release, .enter 1, .call .tryAcquire]
    let s := (LockRun.start .spin).after ticks
    let script : List LockOperation := [.acquire, .contend 2, .forget, .contend 1]
    let d := (LockDesk.ofLock (.free .spin)).performAll script
    .call .strayRelease ∉ ticks ∧ s.inside = [1] ∧ s.guards = 1 ∧ s.desk.drop.1 = .ok .done ∧
      d.2.waiting = [0, 1, 2] ∧ d.2.lock.locked = true := by
  intro ticks s script d
  obtain ⟨hturns, hscripts⟩ := lock_accounts .spin
  obtain ⟨-, -, -, -, -, -, -, -, hguards⟩ := hturns ticks
  have hstrays : .call .strayRelease ∉ ticks := by decide
  obtain ⟨hsole, -, hdrop⟩ := hguards hstrays
  exact ⟨hstrays, by decide, hsole.trans (by decide), hdrop (by decide), by decide,
    (hscripts script).1 (by decide)⟩

end TwinCopy
