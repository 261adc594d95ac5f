import TwinCopy.Proofs.FaultInvariant
import TwinCopy.Proofs.ScriptSchedule

/-!
# Events of rounds

The log contains events of readers and slots and events of rounds. `Point.roundEvents` are the
events of rounds since the start, those already taken out of the outbox included. Over a gate of two
read-indicators no move adds to them, and three of the steps of the leading writer do: those that
find the readers gone, complete a batch, or abandon one (`roundEvents_staged`).

A script takes the events out of the outbox at the end of each step. The events of rounds in the
answers of a script are those of its schedule: `Session.IsScheduleOf.roundEvents_eq`.
-/

namespace TwinCopy

variable {α ρ : Type}

/-- Whether an event reports the progress of a round. -/
def Event.ofRound : Event → Bool
  | .slotRegistered _ | .misused _ | .ingressRebased _ => false
  | _ => true

/-- The events of rounds that were taken out of the outbox, latest first. -/
def History.roundEvents {γ κ δ : Type} (h : History γ κ δ α ρ) : List Event :=
  (h.flatMap Action.logEmptied).filter Event.ofRound

namespace Instance

variable {γ κ δ : Type}

/-- The events of rounds in the outbox, latest first. -/
def roundEvents (s : Instance γ δ α ρ) : List Event :=
  s.log.filter Event.ofRound

/-- No events of rounds are reported between two states. -/
abbrev NoRoundEvents (s t : Instance γ δ α ρ) : Prop :=
  s.Reports (fun e => e.ofRound = false) t

lemma NoRoundEvents.roundEvents_eq {s t : Instance γ δ α ρ} (h : s.NoRoundEvents t) :
    t.roundEvents = s.roundEvents := by
  obtain ⟨events, hlog, hevents⟩ := h
  rw [roundEvents, hlog, List.filter_append, List.filter_eq_nil_iff.2 (by simpa using hevents),
    List.nil_append, roundEvents]

lemma unlock_noRoundEvents (s : Instance γ δ α ρ) : s.NoRoundEvents s.unlock :=
  s.unlock_reports.mono fun _ he => he ▸ rfl

/-- The events reported when a batch is abandoned: its length, under the combining style only. -/
def abandonEvents (s : Instance γ δ α ρ) (batch : Batch α ρ) : List Event :=
  match s.style with
  | .exclusive => []
  | .combining => [.batchAbandoned batch.length]

lemma roundEvents_abandon (s : Instance γ δ α ρ) (batch : Batch α ρ) (fault : Fault) :
    (s.abandon batch fault).roundEvents = s.abandonEvents batch ++ s.roundEvents := by
  have hfail : ∀ (t : Instance γ δ α ρ) (writer : Nat), (t.fail writer fault).roundEvents =
      t.roundEvents := by
    intro t writer
    obtain ⟨writers, finished, h⟩ := t.fail_frame writer fault
    rw [h]
    rfl
  unfold abandon abandonAs abandonEvents
  simp only [foldl_modifyCell]
  rw [(unlock_noRoundEvents _).roundEvents_eq]
  cases s.style <;> cases batch <;> first | rfl | exact hfail _ _

variable [Gate γ κ δ]

/-- The event reported when a batch is completed. -/
def completeEvent (s : Instance γ δ α ρ) (batch : Batch α ρ) (old : Side) : Event :=
  match s.style with
  | .exclusive => Gate.appliedEvent s.gate (s.mutations + batch.length) old.opposite
  | .combining => .batchApplied batch.length (s.batches + 1)

lemma roundEvents_complete (s : Instance γ δ α ρ) (batch : Batch α ρ) (old : Side)
    (h : (s.completeEvent batch old).ofRound = true) :
    (s.complete batch old).roundEvents = s.completeEvent batch old :: s.roundEvents := by
  unfold complete
  simp only [foldl_modifyCell]
  rw [(unlock_noRoundEvents _).roundEvents_eq]
  exact List.filter_cons_of_pos h

end Instance

/-! ## Two read-indicators -/

/-- This gate reports nothing when readers depart. -/
lemma Versioned.events_of_depart {g g' : Versioned} {slot : Nat} {v : Version} {events : List Event}
    (h : Gate.depart g slot v = (.ok events, g')) : events = [] := by
  change g.depart slot v = _ at h
  unfold depart at h
  split at h
  · cases h
    rfl
  · cases h

namespace Instance

variable {s s' : Instance Versioned Version α ρ}

lemma read_noRoundEvents (s : Instance Versioned Version α ρ) (slot : Slot) :
    s.NoRoundEvents (s.read slot).2 := by
  unfold read
  rcases s.enter_cases slot with ⟨m, -, h⟩ | ⟨ticket, entered, -, -, h⟩
  · rw [h]
    exact .of_log_cons (e := .misused m) rfl rfl
  · simp only [h, leave]
    rcases dismiss_cases { s with gate := entered } slot ticket with
      ⟨events, left, hdepart, hleft⟩ | ⟨m, left, -, hleft⟩
    · simp only [hleft, Versioned.events_of_depart hdepart]
      exact .of_log_eq rfl
    · simp only [hleft]
      exact .of_log_cons (e := .misused m) rfl rfl

lemma readAnew_noRoundEvents (s : Instance Versioned Version α ρ) :
    s.NoRoundEvents s.readAnew.2 := by
  unfold readAnew register
  rcases s.registry.register with e | ⟨slot, registry⟩
  · exact .of_log_eq rfl
  · have hread := read_noRoundEvents ({ s with registry }.report (.slotRegistered slot.index)) slot
    exact Reports.trans (.of_log_cons (e := .slotRegistered slot.index) rfl rfl) hread

lemma looked_noRoundEvents (s : Instance Versioned Version α ρ) (r : Request α ρ) :
    s.NoRoundEvents (s.looked r) := by
  unfold looked
  split
  · exact s.readAnew_noRoundEvents
  · exact .of_log_eq rfl

/-- The events reported by an application are those of its read. -/
lemma roundEvents_pass {side : Side} {n : Nat} {x : Nat × Request α ρ} {r : Except Fault Unit}
    (h : s.pass side n [x] = (r, s')) : s'.roundEvents = s.roundEvents := by
  obtain ⟨copies, cells, rfl⟩ := pass_looked h
  exact (s.looked_noRoundEvents x.2).roundEvents_eq

/-- Exclusive writers report the number of the mutation and the side that has it. -/
lemma completeEvent_of_exclusive (h : s.style = .exclusive) (batch : Batch α ρ) (old : Side) :
    s.completeEvent batch old = .mutationApplied (s.mutations + batch.length) old.opposite := by
  rw [completeEvent, h]
  rfl

/-- Combining writers report the length of the batch and its number. -/
lemma completeEvent_of_combining (h : s.style = .combining) (batch : Batch α ρ) (old : Side) :
    s.completeEvent batch old = .batchApplied batch.length (s.batches + 1) := by
  rw [completeEvent, h]

lemma completeEvent_ofRound (s : Instance Versioned Version α ρ) (batch : Batch α ρ) (old : Side) :
    (s.completeEvent batch old).ofRound = true := by
  unfold completeEvent
  cases s.style <;> rfl

end Instance

/-! ## Ticks -/

namespace Session

variable {s s' : Session Versioned Version Version α ρ}

/-- A move reports no events of rounds. -/
lemma Moved.roundEvents_eq {m : Move α ρ} {r : Except Failure (Answer Version α)}
    (hm : s.Moved m r s') :
    s'.inst.roundEvents = s.inst.roundEvents := by
  have hdeparted {slot : Nat} {v : Version} {events : List Event} {gate : Versioned}
      (hdepart : Gate.depart s.inst.gate slot v = (.ok events, gate)) :
      (events.reverse ++ s.inst.log).filter Event.ofRound = s.inst.roundEvents := by
    rw [Versioned.events_of_depart hdepart]
    rfl
  cases hm with
  | refused m f hlog =>
    rcases hlog with rfl | ⟨e, -, rfl⟩
    · rfl
    · exact List.filter_cons_of_neg (by simp [Event.ofRound])
  | departed _ _ _ hdepart => exact hdeparted hdepart
  | left _ hdepart => exact hdeparted hdepart
  | registered | churned | foreignRegistered | departFailed | leaveFailed | turnedAway =>
    exact List.filter_cons_of_neg (by simp [Event.ofRound])
  | _ => rfl

end Session

namespace Point

/-- The events of rounds since the start, latest first. -/
def roundEvents {γ κ δ : Type} (p : Point γ κ δ α ρ) : List Event :=
  p.inst.roundEvents ++ p.history.roundEvents

variable {p : Point Versioned Version Version α ρ}

/-- A tick that changes neither the round nor its events: a caller made a move, or the outboxes were
emptied. -/
structure Idle (p p' : Point Versioned Version Version α ρ) : Prop where
  stage : p'.stage = p.stage
  roundEvents : p'.roundEvents = p.roundEvents
  sameVersions : p.inst.gate.SameVersions p'.inst.gate
  style : p'.inst.style = p.inst.style
  counts : p'.inst.mutations = p.inst.mutations ∧ p'.inst.batches = p.inst.batches
  history : ∃ d, p'.history = d :: p.history ∧
    ((∃ m, d = .moved p.session m) ∨ ∃ finished log, d = .emptied finished log)

/-- A tick is idle, or a step of the leading writer. -/
lemma idle_or_staged (hp : p.session.Exclusive p.control) (t : Tick α ρ) :
    p.Idle (p.next t) ∨ t = .writer ∧ ∃ actions, (p.next t).history = actions ++ p.history ∧
      Instance.Staged p.inst p.stage actions (p.next t).inst (p.next t).stage := by
  cases t with
  | caller m =>
    have hmoved := p.session.moved_act m
    refine .inl ⟨?_, ?_, (p.session.crossed_act m).sameVersions, hmoved.style_eq, hmoved.counts_eq,
      _, rfl, .inl ⟨m, rfl⟩⟩
    · exact p.stage_next_caller m
    · exact congrArg (· ++ p.history.roundEvents) hmoved.roundEvents_eq
  | writer =>
    exact .inr ⟨rfl, _, rfl, staged_next_writer hp⟩
  | outbox =>
    refine .inl ⟨?_, ?_, .refl _, rfl, ⟨rfl, rfl⟩, _, rfl, .inr ⟨_, _, rfl⟩⟩
    · cases hcontrol : p.control <;> simp only [stage, inst, next, Instance.stage, hcontrol]
    · change [] ++ ((p.inst.log ++ p.history.flatMap Action.logEmptied).filter Event.ofRound) = _
      rw [List.filter_append]
      rfl

/-- A step of the leading writer adds its events of rounds, as it does not empty the outboxes. -/
lemma roundEvents_staged {p' : Point Versioned Version Version α ρ}
    {actions : History Versioned Version Version α ρ} {events : List Event}
    (hhistory : p'.history = actions ++ p.history)
    (hstaged : Instance.Staged p.inst p.stage actions p'.inst p'.stage)
    (hroundEvents : p'.inst.roundEvents = events ++ p.inst.roundEvents) :
      p'.roundEvents = events ++ p.roundEvents := by
  have hactions : History.roundEvents (actions ++ p.history) = p.history.roundEvents := by
    generalize p.stage = c at hstaged
    generalize p'.stage = c' at hstaged
    generalize p'.inst = t at hstaged
    cases hstaged <;> rfl
  rw [roundEvents, hhistory, hactions, hroundEvents, List.append_assoc]
  rfl

end Point

/-! ## Scripts -/

namespace Session

variable {γ κ δ : Type} [Gate γ κ δ] {s : Session γ κ δ α ρ}

lemma log_steps (h : s.inst.log = []) (script : List (Operation α ρ)) :
    (s.steps script).2.inst.log = [] := by
  induction script generalizing s with
  | nil => exact h
  | cons o script ih =>
    simp only [steps]
    exact ih (s.emptied_step o).1

/-- The events of rounds in a schedule of a script are those in the answers to its operations. -/
lemma IsScheduleOf.roundEvents_eq {script : List (Operation α ρ)} {ticks : List (Tick α ρ)}
    (h : s.IsScheduleOf script ticks) (hlog : s.inst.log = []) :
    ((Point.start s).after ticks).roundEvents.reverse =
      (Step.eventsOfAll (s.steps script).1).filter Event.ofRound := by
  obtain ⟨history, hafter⟩ := h.ends
  have hemptied := h.emptied
  rw [hafter] at hemptied ⊢
  rw [Point.roundEvents, Point.inst, Instance.roundEvents, log_steps hlog,
    History.roundEvents, hemptied,
    List.filter_nil, List.nil_append, List.filter_reverse, List.reverse_reverse]

end Session

end TwinCopy
