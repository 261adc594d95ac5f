import TwinCopy.Proofs.Quiescence

/-!
# Patient callers

In a schedule, callers may make moves at any time, also while the leading writer can make a step. In
a script the callers are patient: moves are made only when the writers are still. `Patient` is this
condition on schedules, and `patient_after` is the induction principle for what depends on it. That
scripts are such schedules is shown in `TwinCopy.Proofs.ScriptSchedule`.
-/

namespace TwinCopy

variable {γ κ δ α ρ : Type} [Gate γ κ δ]

namespace Point

/-- The writers can make no step. -/
def still (p : Point γ κ δ α ρ) : Bool :=
  match p.control with
  | .resting => p.inst.still
  | _ => false

lemma still_iff {p : Point γ κ δ α ρ} :
    p.still = true ↔ p.control = .resting ∧ p.inst.still = true := by
  unfold still
  rcases p.control with _ | _ | _ <;> simp

/-- Moves are made only when the writers are still. -/
def Patient : Point γ κ δ α ρ → List (Tick α ρ) → Prop
  | _, [] => True
  | p, .caller m :: ticks => p.still = true ∧ Patient (p.next (.caller m)) ticks
  | p, .writer :: ticks => Patient (p.next .writer) ticks
  | p, .outbox :: ticks => Patient (p.next .outbox) ticks

instance decidablePatient :
    (p : Point γ κ δ α ρ) → (ticks : List (Tick α ρ)) → Decidable (p.Patient ticks)
  | _, [] => inferInstanceAs (Decidable True)
  | p, .caller m :: ticks =>
      have := decidablePatient (p.next (.caller m)) ticks
      inferInstanceAs (Decidable (p.still = true ∧ Patient (p.next (.caller m)) ticks))
  | p, .writer :: ticks => decidablePatient (p.next .writer) ticks
  | p, .outbox :: ticks => decidablePatient (p.next .outbox) ticks

lemma Patient.append {p : Point γ κ δ α ρ} {first rest : List (Tick α ρ)} (h : p.Patient first)
    (h' : (p.after first).Patient rest) : p.Patient (first ++ rest) := by
  induction first generalizing p with
  | nil => exact h'
  | cons t first ih =>
    cases t with
    | caller m => exact ⟨h.1, ih h.2 h'⟩
    | writer => exact ih (p := p.next .writer) h h'
    | outbox => exact ih (p := p.next .outbox) h h'

lemma Patient.of_append {p : Point γ κ δ α ρ} {first rest : List (Tick α ρ)}
    (h : p.Patient (first ++ rest)) : p.Patient first := by
  induction first generalizing p with
  | nil => trivial
  | cons t first ih =>
    cases t with
    | caller m => exact ⟨h.1, ih h.2⟩
    | writer => exact ih (p := p.next .writer) h
    | outbox => exact ih (p := p.next .outbox) h

/-- Steps of writers are allowed at any time. -/
lemma patient_writer (p : Point γ κ δ α ρ) (n : Nat) : p.Patient (List.replicate n .writer) := by
  induction n generalizing p with
  | zero => trivial
  | succ n ih => exact ih (p.next .writer)

/-- Induction over a schedule with patient callers: what moves made in still states and the stages
of rounds preserve holds at every point. -/
theorem patient_after {P : Session γ κ δ α ρ → History γ κ δ α ρ → Control δ α ρ → Prop}
    {ticks : List (Tick α ρ)}
    (moved : ∀ {s h m r s'}, s.Exclusive .resting → s.inst.still = true → s.act m = (r, s') →
      s.Moved m r s' → P s h (s.inst.stage .resting) → P s' (.moved s m :: h)
        (s.inst.stage .resting))
    (staged : ∀ {s h c actions inst c'}, (s.guarded = true → s.inst.lock.locked = true) →
      Instance.Staged s.inst c actions inst c' → P s h c → P { s with inst } (actions ++ h) c')
    (emptied : ∀ {s h c}, P s h c →
      P { s with inst := { s.inst with finished := [], log := [] } }
        (.emptied s.inst.finished s.inst.log :: h) c)
    {p : Point γ κ δ α ρ} (hp : p.session.Exclusive p.control) (hticks : p.Patient ticks)
    (hstart : P p.session p.history p.stage) :
    P (p.after ticks).session (p.after ticks).history (p.after ticks).stage := by
  induction ticks generalizing p with
  | nil => exact hstart
  | cons t ticks ih =>
    have hnext := exclusive_next hp t
    cases t with
    | caller m =>
      obtain ⟨hstill, hticks⟩ := hticks
      refine ih hnext hticks ?_
      obtain ⟨hresting, hstill⟩ := still_iff.1 hstill
      rw [stage, hresting] at hstart
      rw [p.stage_next_caller m, stage, hresting]
      rw [hresting] at hp
      exact moved hp hstill rfl (p.session.moved_act m) hstart
    | writer =>
      exact ih hnext hticks
        (staged (fun hguarded => (hp.guarded hguarded).1) (staged_next_writer hp) hstart)
    | outbox => exact ih hnext hticks (emptied hstart)

end Point

end TwinCopy
