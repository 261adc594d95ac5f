import Mathlib.Data.List.Infix
import TwinCopy.Proofs.BackwardClosed
import TwinCopy.Proofs.EqOffGate

/-!
# The reference gate

`RefGate` is the specification of a gate. It keeps the active side and the list of all arrivals and
departures, from which the readers inside are computed, and it has no counter that could overflow. A
writer turns the side and waits until no reader is left on the other one. `SimulatesRef` says what a
gate has to satisfy to be simulated by the reference gate. The conditions under which a gate does
so, on the number of readers or on their departures, are conditions on the log of the reference
gate, which only grows.
-/

namespace TwinCopy

/-- The version that goes with a side, where the two are turned together. -/
def Side.version : Side → Version
  | .left => .zero
  | .right => .one

lemma Side.version_opposite (s : Side) : s.opposite.version = s.version.next := by
  cases s <;> rfl

/-- The side that goes with a version. -/
def Version.side : Version → Side
  | .zero => .left
  | .one => .right

@[simp] lemma Side.side_version (s : Side) : s.version.side = s := by
  cases s <;> rfl

@[simp] lemma Version.version_side (v : Version) : v.side.version = v := by
  cases v <;> rfl

/-- An arrival or a departure at a gate. -/
inductive Passage where
  /-- a reader arrives and is sent to a side -/
  | arrived (side : Side)
  /-- a reader departs from a side -/
  | departed (side : Side)
  /-- a departure from a side without readers, which is refused -/
  | refused (side : Side)
  deriving DecidableEq, Repr

/-- The sides of the readers inside, computed from the passages, latest first. -/
def Passage.inside : List Passage → List Side
  | [] => []
  | .arrived side :: log => side :: inside log
  | .departed side :: log => (inside log).erase side
  | .refused _ :: log => inside log

/-- The active side, and all arrivals and departures so far. -/
structure RefGate where
  side : Side
  /-- the passages, latest first -/
  log : List Passage
  deriving DecidableEq, Repr

namespace RefGate

/-- The gate before any arrival. -/
def fresh : RefGate :=
  ⟨.left, []⟩

/-- The sides of the readers inside. -/
def inside (r : RefGate) : List Side :=
  Passage.inside r.log

/-- Admits a reader to the active side. -/
def arrive (r : RefGate) : RefGate :=
  { r with log := .arrived r.side :: r.log }

/-- Dismisses a reader of a side, and refuses if there is none. -/
def depart (r : RefGate) (side : Side) : Except Misuse (List Event) × RefGate :=
  if side ∈ r.inside then (.ok [], { r with log := .departed side :: r.log })
  else (.error .unmatchedDeparture, { r with log := .refused side :: r.log })

/-- Makes the other side active. -/
def turn (r : RefGate) : RefGate :=
  { r with side := r.side.opposite }

/-- A ticket is the side a reader was sent to. -/
instance : Gate RefGate Side Side where
  slotted := false
  ticket
    | 0 => .left
    | _ => .right
  side := side
  arrive r _ := .ok (r.side, r.arrive)
  depart r _ := r.depart
  turn r := (r.side, r.turn)
  standby _ _ := true
  shift r _ := r
  cleared r old := .ok (decide (old ∉ r.inside))
  clearedEvent old := .readersDrained old.opposite.version
  appliedEvent _ mutations side := .mutationApplied mutations side
  view r := .versions r.side.version (decide (.left ∉ r.inside)) (decide (.right ∉ r.inside))

@[simp] lemma side_depart (r : RefGate) (side : Side) : (r.depart side).2.side = r.side := by
  unfold depart
  split <;> rfl

lemma suffix_arrive (r : RefGate) : r.log <:+ r.arrive.log :=
  List.suffix_cons _ _

lemma suffix_depart (r : RefGate) (side : Side) : r.log <:+ (r.depart side).2.log := by
  unfold depart
  split <;> exact List.suffix_cons _ _

/-- A fresh instance with exclusive writers behind the reference gate. -/
def freshInstance {α ρ : Type} (init : Copies α) (wait : WaitPolicy) : Instance RefGate Side α ρ :=
  .fresh .exclusive init fresh (.unbounded 0) 1 wait

end RefGate

variable {γ κ δ α ρ : Type}

/-! ## The log only grows -/

/-- To have a log that is a suffix of a given one is backward closed. -/
lemma RefGate.backwardClosed (log : List Passage) :
    BackwardClosed fun r : RefGate => r.log <:+ log where
  arrive {r r' slot ticket} harrive hsuffix := by
    obtain ⟨-, rfl⟩ := Prod.mk.inj (Except.ok.inj harrive)
    exact r.suffix_arrive.trans hsuffix
  depart {r slot ticket} hsuffix := (r.suffix_depart ticket).trans hsuffix
  turn := id
  shift := id

namespace Instance

lemma suffix_pass (batch : Batch α ρ) (s : Instance RefGate Side α ρ) (side : Side) (n : Nat) :
    s.gate.log <:+ (s.pass side n batch).2.gate.log :=
  (RefGate.backwardClosed _).pass batch s side n List.suffix_rfl

lemma Leads.suffix {s t : Instance RefGate Side α ρ} {c c' : Control Side α ρ}
    (h : Leads s c t c') : s.gate.log <:+ t.gate.log :=
  (RefGate.backwardClosed _).leads h List.suffix_rfl

end Instance

namespace Session

/-- Every schedule extends the log of the reference gate and preserves the lock discipline. -/
lemma Reaches.suffix {allowed : Move α ρ → Prop} {s t : Session RefGate Side Side α ρ}
    (h : s.Reaches allowed t) (hs : s.Exclusive .resting) :
    s.inst.gate.log <:+ t.inst.gate.log ∧ t.Exclusive .resting :=
  ⟨(RefGate.backwardClosed _).reaches h hs List.suffix_rfl, h.exclusive hs⟩

section Suffix

variable {s : Session RefGate Side Side α ρ} (hs : s.Exclusive .resting)

include hs

lemma suffix_perform (m : Move α ρ) :
    s.inst.gate.log <:+ (s.perform m).2.inst.gate.log ∧ (s.perform m).2.Exclusive .resting :=
  have hreaches : s.Reaches (fun _ => True) (s.perform m).2 := s.reaches_perform trivial
  hreaches.suffix hs

lemma suffix_performAll (moves : List (Move α ρ)) :
    s.inst.gate.log <:+ (s.performAll moves).inst.gate.log ∧
      (s.performAll moves).Exclusive .resting :=
  have hreaches : s.Reaches (fun _ => True) (s.performAll moves) :=
    reaches_runRelation.performAll s fun _ _ => trivial
  hreaches.suffix hs

lemma suffix_step (o : Operation α ρ) :
    s.inst.gate.log <:+ (s.step o).2.inst.gate.log ∧ (s.step o).2.Exclusive .resting :=
  have hreaches : s.Reaches (fun _ => True) (s.step o).2 :=
    reaches_runRelation.step s o fun _ _ => trivial
  hreaches.suffix hs

lemma suffix_steps (os : List (Operation α ρ)) :
    s.inst.gate.log <:+ (s.steps os).2.inst.gate.log ∧ (s.steps os).2.Exclusive .resting :=
  have hreaches : s.Reaches (fun _ => True) (s.steps os).2 :=
    reaches_runRelation.steps s os fun _ _ => trivial
  hreaches.suffix hs

end Suffix

end Session

/-! ## Simulation of the reference gate -/

/-- `fits` relates the reference gate to a gate that behaves the same, as long as `fine` holds of
the passages logged. Its last argument is the backlog a writer waits for, if one does. Tickets of
the reference gate are renamed by `ticket`, and the views of the two gates are compared after
`shown`. -/
structure SimulatesRef [Gate γ κ δ] (ticket : Side → κ) (shown : GateView → GateView)
    (fine : List Passage → Prop) (fits : RefGate → γ → Option δ → Prop) : Prop where
  fine_of_suffix : ∀ {log log' : List Passage}, log <:+ log' → fine log' → fine log
  ticket_eq : ∀ n, Gate.ticket γ n = ticket (Gate.ticket RefGate n)
  side_eq : ∀ {r g d}, fits r g d → Gate.side g = r.side
  shown_eq : ∀ {r g d}, fits r g d → fine r.log → shown (Gate.view g) = shown (Gate.view r)
  arrive : ∀ {r g d}, fits r g d → fine r.arrive.log → ∀ slot,
    ∃ g', Gate.arrive g slot = .ok (ticket r.side, g') ∧ fits r.arrive g' d
  depart : ∀ {r g d} side, fits r g d → fine (r.depart side).2.log → ∀ slot,
    (Gate.depart g slot (ticket side)).1.map (fun _ => ()) = (r.depart side).1.map (fun _ => ()) ∧
      fits (r.depart side).2 (Gate.depart g slot (ticket side)).2 d
  turn : ∀ {r g}, fits r g none → fine r.log →
    Gate.standby (Gate.turn g).2 (Gate.turn g).1 = true ∧
      fits r.turn (Gate.shift (Gate.turn g).2 (Gate.turn g).1) (some (Gate.turn g).1)
  cleared : ∀ {r g d}, fits r g (some d) → fine r.log →
    Gate.cleared g d = .ok (decide (r.side.opposite ∉ r.inside))
  rest : ∀ {r g d}, fits r g (some d) → r.side.opposite ∉ r.inside → fits r g none

end TwinCopy
