import TwinCopy.Proofs.LockstepSimulation

/-!
# Gates with a log of arrivals and departures

`LoggedGate γ κ` adds to a gate the list of its arrivals and departures. The log is a ghost
variable: forgetting it is a homomorphism of gates, and a script has the same steps with it and
without it (`steps_logged`). From the log one computes the readers inside and the number of
arrivals, and states whether these were within the limits of the gate.
-/

namespace TwinCopy

variable {γ κ δ α ρ : Type}

/-! ## Logs -/

/-- An arrival or a departure, with the index of the slot and the ticket. -/
inductive Transit (κ : Type) where
  | arrived (index : Nat) (ticket : κ)
  | departed (index : Nat) (ticket : κ)
  deriving DecidableEq

namespace Transit

/-- The number of arrivals. -/
def arrivals : List (Transit κ) → Nat
  | [] => 0
  | .arrived .. :: transits => arrivals transits + 1
  | .departed .. :: transits => arrivals transits

variable [DecidableEq κ]

/-- The readers inside, latest first. -/
def inside : List (Transit κ) → List (Nat × κ)
  | [] => []
  | .arrived index ticket :: transits => (index, ticket) :: inside transits
  | .departed index ticket :: transits => (inside transits).erase (index, ticket)

/-- Every departure was of a reader inside, and at every arrival the tickets of the readers inside
and the number of arrivals so far were within a limit. -/
def Regular (limit : List κ → Nat → Prop) : List (Transit κ) → Prop
  | [] => True
  | .arrived _ ticket :: transits =>
      Regular limit transits ∧ limit (ticket :: (inside transits).map Prod.snd)
        (arrivals transits + 1)
  | .departed index ticket :: transits => Regular limit transits ∧ (index, ticket) ∈ inside transits

instance decidableRegular (limit : List κ → Nat → Prop) [∀ tickets n, Decidable (limit tickets n)] :
    (transits : List (Transit κ)) → Decidable (Regular limit transits)
  | [] => inferInstanceAs (Decidable True)
  | .arrived .. :: transits =>
      have := decidableRegular limit transits
      inferInstanceAs (Decidable (_ ∧ _))
  | .departed .. :: transits =>
      have := decidableRegular limit transits
      inferInstanceAs (Decidable (_ ∧ _))

/-- An arrival and the departure that belongs to it cancel. -/
@[simp] lemma inside_visit (index : Nat) (ticket : κ) (transits : List (Transit κ)) :
    inside (.departed index ticket :: .arrived index ticket :: transits) = inside transits :=
  List.erase_cons_head _ _

end Transit

/-! ## The gate -/

/-- A gate with the log of its arrivals and departures, latest first. -/
structure LoggedGate (γ κ : Type) where
  gate : γ
  transits : List (Transit κ)

namespace LoggedGate

variable [Gate γ κ δ]

/-- Logs an arrival if the gate admits it. -/
def arrive (q : LoggedGate γ κ) (index : Nat) : Except Misuse (κ × LoggedGate γ κ) :=
  (Gate.arrive q.gate index).map fun (ticket, gate) =>
    (ticket, ⟨gate, .arrived index ticket :: q.transits⟩)

/-- Logs every departure, refused ones included. -/
def depart (q : LoggedGate γ κ) (index : Nat) (ticket : κ) :
    Except Misuse (List Event) × LoggedGate γ κ :=
  (Gate.depart q.gate index ticket).map id (⟨·, .departed index ticket :: q.transits⟩)

instance : Gate (LoggedGate γ κ) κ δ where
  slotted := Gate.slotted γ
  ticket := Gate.ticket γ
  side q := Gate.side q.gate
  arrive := arrive
  depart := depart
  turn q := (Gate.turn q.gate).map id (⟨·, q.transits⟩)
  standby q := Gate.standby q.gate
  shift q d := ⟨Gate.shift q.gate d, q.transits⟩
  cleared q := Gate.cleared q.gate
  clearedEvent := Gate.clearedEvent γ
  appliedEvent q := Gate.appliedEvent q.gate
  view q := Gate.view q.gate

lemma arrive_of_error {q : LoggedGate γ κ} {index : Nat} {m : Misuse}
    (h : Gate.arrive q.gate index = .error m) : Gate.arrive q index = .error m := by
  show q.arrive index = .error m
  rw [arrive, h]
  rfl

lemma arrive_of_ok {q : LoggedGate γ κ} {index : Nat} {ticket : κ} {gate : γ}
    (h : Gate.arrive q.gate index = .ok (ticket, gate)) :
    Gate.arrive q index = .ok (ticket, ⟨gate, .arrived index ticket :: q.transits⟩) := by
  show q.arrive index = _
  rw [arrive, h]
  rfl

/-- An arrival at the logged gate is one at the gate. -/
lemma eq_of_arrive {q u : LoggedGate γ κ} {index : Nat} {ticket : κ}
    (h : Gate.arrive q index = .ok (ticket, u)) :
    Gate.arrive q.gate index = .ok (ticket, u.gate) ∧
      u.transits = .arrived index ticket :: q.transits := by
  rcases harrive : Gate.arrive q.gate index with m | ⟨ticket', gate⟩
  · rw [arrive_of_error harrive] at h
    cases h
  · rw [arrive_of_ok harrive] at h
    cases h
    exact ⟨rfl, rfl⟩

lemma gateHom : GateHom (LoggedGate.gate : LoggedGate γ κ → γ) where
  slotted := rfl
  ticket _ := rfl
  side _ := rfl
  view _ := rfl
  arrive q index := by
    rcases harrive : Gate.arrive q.gate index with m | ⟨ticket, gate⟩
    · rw [arrive_of_error harrive]
      rfl
    · rw [arrive_of_ok harrive]
      rfl
  depart _ _ _ := rfl
  turn _ := rfl
  standby _ _ := rfl
  shift _ _ := rfl
  cleared _ _ := rfl
  clearedEvent _ := rfl
  appliedEvent _ _ _ := rfl

/-- The log only grows, so its regularity is backward closed. -/
lemma backwardClosed_regular [DecidableEq κ] (limit : List κ → Nat → Prop) :
    BackwardClosed fun q : LoggedGate γ κ => Transit.Regular limit q.transits where
  arrive {q u index ticket} h hu := by
    rw [(eq_of_arrive h).2] at hu
    exact hu.1
  depart hu := hu.1
  turn hu := hu
  shift hu := hu

end LoggedGate

/-! ## With a log and without -/
lemma Finished.mapGate_id (f : Finished α ρ) : f.mapGate id = f := by
  have hseen : f.seen.map (·.map (·.mapGate id)) = f.seen := by
    rcases f.seen with _ | seen
    · rfl
    · exact congrArg some (List.map_id seen)
  rw [Finished.mapGate, hseen]

mutual

lemma Step.project_full (step : Step κ α ρ) : step.project Projection.full = step := by
  obtain ⟨answer, view, inner, finished, log⟩ := step
  have hanswer : answer.map (·.project Projection.full) = answer := by
    rcases answer with f | a
    · rfl
    · cases a <;> rfl
  have hfinished : finished.map (·.mapGate Projection.full.gate) = finished :=
    (List.map_congr_left fun f _ => f.mapGate_id).trans (List.map_id finished)
  have hlog : log.filter Projection.full.event = log := List.filter_eq_self.2 fun _ _ => rfl
  cases inner with
  | none => rw [Step.project, hanswer, hfinished, hlog]; rfl
  | some steps => rw [Step.project, hanswer, hfinished, hlog, Step.projectAll_full steps]; rfl

/-- The full projection leaves steps as they are. -/
lemma Step.projectAll_full (steps : List (Step κ α ρ)) :
    Step.projectAll Projection.full steps = steps := by
  match steps with
  | [] => rfl
  | step :: rest => rw [Step.projectAll, Step.project_full step, Step.projectAll_full rest]

end

variable [Gate γ κ δ]

namespace Session

/-- A log at the gate has no effect on the steps of a script. -/
theorem steps_logged (style : Style) (copies : Copies α) (gate : γ) (registry : Registry) (n : Nat)
    (wait : WaitPolicy) (os : List (Operation α ρ)) :
    let start : Session γ κ δ α ρ := .ofInstance (.fresh style copies gate registry n wait)
    let logged : Session (LoggedGate γ κ) κ δ α ρ :=
      .ofInstance (.fresh style copies ⟨gate, []⟩ registry n wait)
    (logged.steps os).1 = (start.steps os).1 ∧
      LockstepSim Projection.full (HomGraph LoggedGate.gate) id (start.steps os).2
          (logged.steps os).2 := by
  intro start logged
  have F : GateHom (LoggedGate.gate : LoggedGate γ κ → γ) := LoggedGate.gateHom
  have P :=
    SettledSim.scriptSim (α := α) (ρ := ρ) (F.gateSim Projection.full) Projection.full_faithful
  have hgraph : HomGraph (LoggedGate.gate : LoggedGate γ κ → γ) gate ⟨gate, []⟩ none := ⟨rfl, nofun⟩
  have hstart : SettledSim Projection.full (HomGraph LoggedGate.gate) start logged :=
    settledSim_fresh style copies registry n wait hgraph
  have hrule := BackwardClosed.always.obeysAll hstart.sim.exclusive' os trivial
  obtain ⟨hsteps, hend⟩ := P.steps hstart os hrule
  rw [Step.projectAll_full, Step.projectAll_full] at hsteps
  exact ⟨hsteps, hend.sim⟩

end Session

end TwinCopy
