import TwinCopy.Proofs.Patience

/-!
# The schedule of a script

The run of a script is a schedule. `Session.IsScheduleOf` specifies it: callers make the moves of
the script in order, each in a still state; the sessions after the operations of the script, those
inside queries included, are passed in order; and the events taken out of the outbox are those
reported by the steps of the script. Such a schedule exists: `exists_isScheduleOf`. Hence what holds
at every point of every schedule holds after every operation of every script, and a condition on the
callers of a schedule is a condition on the moves of the script.

`Session.Path` composes schedules of the parts of a script. It is a `TracedRelation`, and
`TracedRelation.steps` is the induction on operations.
-/

namespace TwinCopy

variable {γ κ δ α ρ : Type}

/-- The move that is made at a tick, if it is a tick of a caller. -/
def Tick.call? : Tick α ρ → Option (Move α ρ)
  | .caller m => some m
  | .writer | .outbox => none

lemma filterMap_call?_replicate_writer (n : Nat) :
    (List.replicate n (.writer : Tick α ρ)).filterMap Tick.call? = [] := by
  induction n with
  | zero => rfl
  | succ n ih => exact ih

lemma mem_filterMap_call? {ticks : List (Tick α ρ)} {m : Move α ρ} :
    m ∈ ticks.filterMap Tick.call? ↔ .caller m ∈ ticks := by
  rw [List.mem_filterMap]
  constructor
  · rintro ⟨t, ht, hcall⟩
    cases t with
    | caller m' =>
      cases hcall
      exact ht
    | writer | outbox => cases hcall
  · exact fun hm => ⟨_, hm, rfl⟩

/-- The content of the outbox for events when an action empties it, latest first. -/
def Action.logEmptied : Action γ κ δ α ρ → List Event
  | .emptied _ log => log
  | _ => []

variable [Gate γ κ δ]

namespace Point

/-- Without an `outbox` tick no events are taken out of the outbox. -/
lemma logEmptied_after (p : Point γ κ δ α ρ) {ticks : List (Tick α ρ)} (hticks : .outbox ∉ ticks) :
    (p.after ticks).history.flatMap Action.logEmptied = p.history.flatMap Action.logEmptied := by
  induction ticks generalizing p with
  | nil => rfl
  | cons t ticks ih =>
    have hnext : (p.next t).history.flatMap Action.logEmptied =
        p.history.flatMap Action.logEmptied := by
      cases t with
      | caller m => rfl
      | writer =>
        have hstepped := p.inst.stepped_advance p.control
        change ((p.inst.advance p.control).1 ++ p.history).flatMap Action.logEmptied = _
        generalize (p.inst.advance p.control).1 = actions at hstepped
        generalize (p.inst.advance p.control).2.1 = t at hstepped
        generalize (p.inst.advance p.control).2.2 = c' at hstepped
        generalize p.inst = s, p.control = c at hstepped
        cases hstepped <;> rfl
      | outbox => exact absurd List.mem_cons_self hticks
    rw [after_cons, ih _ (List.not_mem_of_not_mem_cons hticks), hnext]

/-- The points after each tick of a schedule. -/
def trace (p : Point γ κ δ α ρ) : List (Tick α ρ) → List (Point γ κ δ α ρ)
  | [] => []
  | t :: ticks => p.next t :: (p.next t).trace ticks

lemma trace_append (p : Point γ κ δ α ρ) (first rest : List (Tick α ρ)) :
    p.trace (first ++ rest) = p.trace first ++ (p.after first).trace rest := by
  induction first generalizing p with
  | nil => rfl
  | cons t first ih => exact congrArg (p.next t :: ·) (ih (p.next t))

/-- Every point of a trace is the point after a prefix of the schedule. -/
lemma exists_after_of_mem_trace {p q : Point γ κ δ α ρ} {ticks : List (Tick α ρ)}
    (hq : q ∈ p.trace ticks) : ∃ first rest, ticks = first ++ rest ∧ q = p.after first := by
  induction ticks generalizing p with
  | nil => cases hq
  | cons t ticks ih =>
    rcases List.mem_cons.1 hq with rfl | hq
    · exact ⟨[t], ticks, rfl, rfl⟩
    · obtain ⟨first, rest, rfl, hafter⟩ := ih hq
      exact ⟨t :: first, rest, rfl, hafter⟩

/-- The sessions that a schedule passes, with the control state of the leading writer. -/
def states (p : Point γ κ δ α ρ) (ticks : List (Tick α ρ)) :
    List (Session γ κ δ α ρ × Control δ α ρ) :=
  (p.trace ticks).map fun q => (q.session, q.control)

lemma states_append (p : Point γ κ δ α ρ) (first rest : List (Tick α ρ)) :
    p.states (first ++ rest) = p.states first ++ (p.after first).states rest := by
  rw [states, trace_append, List.map_append]
  rfl

end Point

namespace Session

/-- A schedule leads from one session at rest to another. Its callers make the given moves, each in
a still state; the given sessions are passed in order, each at rest; and the given events are taken
out of the outbox, in order. -/
def Path (s : Session γ κ δ α ρ) (moves : List (Move α ρ)) (passed : List (Session γ κ δ α ρ))
    (events : List Event) (t : Session γ κ δ α ρ) : Prop :=
  s.Exclusive .resting → s.inst.still = true → ∀ history, ∃ ticks history',
    ticks.filterMap Tick.call? = moves ∧ (Point.mk history s .resting).Patient ticks ∧
      (passed.map fun u => (u, .resting)).Sublist ((Point.mk history s .resting).states ticks) ∧
      history'.flatMap Action.logEmptied = events.reverse ++ history.flatMap Action.logEmptied ∧
      (Point.mk history s .resting).after ticks = ⟨history', t, .resting⟩ ∧
      ∀ u ∈ t :: passed, u.inst.still = true

namespace Path

variable {s t u : Session γ κ δ α ρ} {moves moves' : List (Move α ρ)}
  {passed passed' : List (Session γ κ δ α ρ)} {events events' : List Event}

lemma refl (s : Session γ κ δ α ρ) : s.Path [] [] [] s :=
  fun _ hstill history =>
    ⟨[], history, rfl, trivial, List.Sublist.refl _, rfl, rfl, List.forall_mem_singleton.2 hstill⟩

lemma trans (h : s.Path moves passed events t) (h' : t.Path moves' passed' events' u) :
    s.Path (moves ++ moves') (passed ++ passed') (events ++ events') u := by
  intro hs hstill history
  obtain ⟨ticks, history', hmoves, hpatient, hpassed, hevents, hafter, hsettled⟩ :=
    h hs hstill history
  obtain ⟨hstill', hsettled⟩ := List.forall_mem_cons.1 hsettled
  have ht : t.Exclusive .resting := by
    have hexclusive := Point.exclusive_after (p := ⟨history, s, .resting⟩) hs ticks
    rwa [hafter] at hexclusive
  obtain ⟨ticks', history'', hmoves', hpatient', hpassed', hevents', hafter', hsettled'⟩ :=
    h' ht hstill' history'
  obtain ⟨hstill'', hsettled'⟩ := List.forall_mem_cons.1 hsettled'
  refine ⟨ticks ++ ticks', history'', ?_, ?_, ?_, ?_, ?_, ?_⟩
  · rw [List.filterMap_append, hmoves, hmoves']
  · exact hpatient.append (by rw [hafter]; exact hpatient')
  · rw [List.map_append, Point.states_append, hafter]
    exact hpassed.append hpassed'
  · rw [hevents', hevents, List.reverse_append, List.append_assoc]
  · rw [Point.after_append, hafter, hafter']
  · exact List.forall_mem_cons.2 ⟨hstill'', List.forall_mem_append.2 ⟨hsettled, hsettled'⟩⟩

/-- A move, followed by the steps of writers up to a still state. -/
lemma perform (s : Session γ κ δ α ρ) (m : Move α ρ) : s.Path [m] [] [] (s.perform m).2 := by
  intro hs hstill history
  have hcharge := (hs.act m).inCharge
  obtain ⟨n, history', hafter⟩ := exists_after_perform hs m history
  have hnone : .outbox ∉ (.caller m :: List.replicate n .writer : List (Tick α ρ)) := by simp
  have hevents := Point.logEmptied_after ⟨history, s, .resting⟩ hnone
  rw [hafter] at hevents
  refine ⟨.caller m :: List.replicate n .writer, history', ?_,
    ⟨hstill, Point.patient_writer _ n⟩, List.nil_sublist _, hevents, hafter, ?_⟩
  · exact congrArg (m :: ·) (filterMap_call?_replicate_writer n)
  · exact List.forall_mem_singleton.2 (Instance.still_settle hcharge)

/-- The end of a step empties the outboxes. -/
lemma close (s : Session γ κ δ α ρ) (answer : Except Failure (Answer κ α))
    (inner : Option (List (Step κ α ρ))) : s.Path [] [(s.close answer inner).2]
      s.inst.log.reverse (s.close answer inner).2 := by
  intro _ hstill history
  refine ⟨[.outbox], .emptied s.inst.finished s.inst.log :: history, rfl, trivial,
    List.Sublist.refl _, ?_, rfl,
    List.forall_mem_cons.2 ⟨hstill, List.forall_mem_singleton.2 hstill⟩⟩
  rw [List.reverse_reverse, List.flatMap_cons]
  rfl

end Path

lemma path_tracedRelation :
    TracedRelation (fun _ => True) (Path (γ := γ) (κ := κ) (δ := δ) (α := α) (ρ := ρ)) where
  refl := .refl
  trans := .trans
  perform s m _ := .perform s m
  close := .close

/-- The schedule of a script. Callers make the moves of the script in order, each in a still state.
The sessions after the operations of the script are passed in order, those inside queries included,
and each of them is still. The events taken out of the outbox are those of the steps of the script.
The schedule ends where the script does. -/
structure IsScheduleOf (s : Session γ κ δ α ρ) (script : List (Operation α ρ))
    (ticks : List (Tick α ρ)) : Prop where
  calls : ticks.filterMap Tick.call? = s.callsOfAll script
  patient : (Point.start s).Patient ticks
  passed : ((s.instantsOfAll script).map fun t => (t, .resting)).Sublist
    ((Point.start s).states ticks)
  settled : ∀ t ∈ s.instantsOfAll script, t.inst.still = true
  emptied : ((Point.start s).after ticks).history.flatMap Action.logEmptied =
    (Step.eventsOfAll (s.steps script).1).reverse
  ends : ∃ history, (Point.start s).after ticks = ⟨history, (s.steps script).2, .resting⟩

namespace IsScheduleOf

variable {s : Session γ κ δ α ρ} {script : List (Operation α ρ)} {ticks : List (Tick α ρ)}

/-- Callers make moves of the script only. -/
lemma mem_moves (h : s.IsScheduleOf script ticks) {m : Move α ρ} (hm : .caller m ∈ ticks) :
    m ∈ Operation.movesOfAll script :=
  s.callsOfAll_subset script (h.calls ▸ mem_filterMap_call?.2 hm)

/-- The session after an operation is that after a prefix of the schedule. -/
lemma exists_after (h : s.IsScheduleOf script ticks) {t : Session γ κ δ α ρ}
    (ht : t ∈ s.instantsOfAll script) : ∃ first rest history, ticks = first ++ rest ∧
      (Point.start s).after first = ⟨history, t, .resting⟩ := by
  have hmem := h.passed.subset (List.mem_map_of_mem ht)
  obtain ⟨q, hq, heq⟩ := List.mem_map.1 hmem
  obtain ⟨first, rest, hticks, hafter⟩ := Point.exists_after_of_mem_trace hq
  obtain ⟨history, session, control⟩ := q
  obtain ⟨rfl, rfl⟩ := Prod.mk.inj heq
  exact ⟨first, rest, history, hticks, hafter.symm⟩

end IsScheduleOf

/-- Every script has a schedule. -/
theorem exists_isScheduleOf {s : Session γ κ δ α ρ} (hs : s.Exclusive .resting)
    (hstill : s.inst.still = true) (script : List (Operation α ρ)) :
    ∃ ticks, s.IsScheduleOf script ticks := by
  obtain ⟨ticks, history, hcalls, hpatient, hpassed, hevents, hafter, hsettled⟩ :=
    path_tracedRelation.steps s script (fun _ _ => trivial) hs hstill []
  refine ⟨ticks, hcalls, hpatient, hpassed, (List.forall_mem_cons.1 hsettled).2, ?_, history,
    hafter⟩
  rw [Point.start, hafter, hevents, List.flatMap_nil, List.append_nil]

/-- Every session that a script passes is that of a schedule with patient callers. -/
theorem exists_patient_of_mem_instants {s : Session γ κ δ α ρ} (hs : s.Exclusive .resting)
    (hstill : s.inst.still = true) (script : List (Operation α ρ)) {t : Session γ κ δ α ρ}
    (ht : t ∈ s.instantsOfAll script) :
    ∃ ticks history, (∀ m, .caller m ∈ ticks → m ∈ Operation.movesOfAll script) ∧
      (Point.start s).Patient ticks ∧ (Point.start s).after ticks = ⟨history, t, .resting⟩ ∧
      t.inst.still = true := by
  obtain ⟨ticks, h⟩ := exists_isScheduleOf hs hstill script
  obtain ⟨first, rest, history, rfl, hafter⟩ := h.exists_after ht
  exact ⟨first, history, fun m hm => h.mem_moves (List.mem_append_left _ hm), h.patient.of_append,
    hafter, h.settled t ht⟩

end Session

end TwinCopy
