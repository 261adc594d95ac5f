import TwinCopy.Proofs.Schedule

/-!
# Stages of a round

For the state of a gate it does not matter whether a waiting round is suspended or has a leading
writer. `Instance.stage` identifies the two cases: a suspended round is at the stage where it waits.
`Staged` lists the effects of a step of the leading writer on the stage, and `stage_after` is the
induction principle for invariants that depend on it.
-/

namespace TwinCopy

variable {γ κ δ α ρ : Type}

/-- The backlog that a phase waits for. -/
def Phase.awaited {δ : Type} : Phase δ → δ
  | .standby d | .clearing d => d

/-- The round at a stage. -/
def Control.task? : Control δ α ρ → Option (Task α ρ)
  | .resting => none
  | .passing p done rest old => some ⟨p, done, rest, old⟩
  | .waiting r => some r.task

lemma Control.task?_eq_none {c : Control δ α ρ} : c.task? = none ↔ c = .resting := by
  cases c <;> simp [task?]

namespace Instance

/-- The stage of the round under way. -/
def stage (s : Instance γ δ α ρ) : Control δ α ρ → Control δ α ρ
  | .resting => s.round.elim .resting .waiting
  | c => c

lemma stage_resting {s : Instance γ δ α ρ} (h : s.round = none) : s.stage .resting = .resting := by
  rw [stage, h, Option.elim_none]

/-- The round under way is determined by its stage. -/
lemma task?_eq (s : Instance γ δ α ρ) (c : Control δ α ρ) : s.task? c = (s.stage c).task? := by
  cases c with
  | resting =>
    rw [task?, stage]
    cases s.round <;> rfl
  | passing | waiting => rfl

variable [Gate γ κ δ]

/-- The effect of a step of the leading writer on the stage. -/
inductive Staged : Instance γ δ α ρ → Control δ α ρ →
    History γ κ δ α ρ → Instance γ δ α ρ → Control δ α ρ → Prop where
  /-- none, though the round may be suspended or resumed -/
  | quiet {s : Instance γ δ α ρ} {c : Control δ α ρ} (round : Option (Round δ α ρ)) :
      Staged s c [] { s with round } c
  | elect {s : Instance γ δ α ρ} (hpublished : s.published ≠ []) (hlock : s.lock.locked = false) :
      Staged s .resting [.took s.published] { s with lock := { s.lock with locked := true } }
        (.passing .first [] s.published s.activeSide)
  | apply {s t : Instance γ δ α ρ} {p : Pass} {done rest : Batch α ρ} {old : Side}
      {x : Nat × Request α ρ} (h : s.pass (p.target old) p.application [x] = (.ok (), t)) :
      Staged s (.passing p done (x :: rest) old) [.applied s (p.target old) p x.2] t
        (.passing p (done ++ [x]) rest old)
  | giveUp {s t : Instance γ δ α ρ} {p : Pass} {done rest : Batch α ρ} {old : Side}
      {x : Nat × Request α ρ} {f : Fault}
      (h : s.pass (p.target old) p.application [x] = (.error f, t)) :
      Staged s (.passing p done (x :: rest) old)
        [.abandoned (done ++ x :: rest), .applied s (p.target old) p x.2]
        (t.abandon (done ++ x :: rest) f) .resting
  | turn {s : Instance γ δ α ρ} {batch : Batch α ρ} {old : Side} :
      Staged s (.passing .first batch [] old) [.turned batch]
        { s with gate := (Gate.turn s.gate).2 }
        (.waiting ⟨batch, old, .standby (Gate.turn s.gate).1⟩)
  | shift {s : Instance γ δ α ρ} {batch : Batch α ρ} {old : Side} {d : δ}
      (h : Gate.standby s.gate d = true) :
      Staged s (.waiting ⟨batch, old, .standby d⟩) [] { s with gate := Gate.shift s.gate d }
        (.waiting ⟨batch, old, .clearing d⟩)
  | clear {s : Instance γ δ α ρ} {batch : Batch α ρ} {old : Side} {d : δ}
      (h : Gate.cleared s.gate d = .ok true) :
      Staged s (.waiting ⟨batch, old, .clearing d⟩) [] (s.report (Gate.clearedEvent γ d))
        (.passing .second [] batch old)
  | complete {s : Instance γ δ α ρ} {batch : Batch α ρ} {old : Side} :
      Staged s (.passing .second batch [] old) [.completed batch] (s.complete batch old) .resting
  | surplus {s : Instance γ δ α ρ} {batch : Batch α ρ} {old : Side} {d : δ} {m : Misuse}
      (h : Gate.cleared s.gate d = .error m) :
      Staged s (.waiting ⟨batch, old, .clearing d⟩) [.abandoned batch]
        ((s.report (.misused m)).abandon batch (.misuse m)) .resting

lemma Stepped.staged {s t : Instance γ δ α ρ} {c c' : Control δ α ρ} {actions : History γ κ δ α ρ}
    (h : Stepped s c actions t c') (hs : s.InCharge c) :
    Staged s (s.stage c) actions t (t.stage c') := by
  obtain ⟨-, hcontrol⟩ := hs
  cases h with
  | takeUp hround =>
    simp only [stage, hround, Option.elim_some]
    exact .quiet none
  | idle => exact .quiet s.round
  | elect hround hpublished hlock =>
    rw [stage_resting hround]
    exact .elect hpublished hlock
  | apply h => exact .apply h
  | @giveUp s' p done rest old x f h =>
    -- there is a leading writer, so that no round was suspended
    have hround : (s'.abandon (done ++ x :: rest) f).round = none := by
      obtain ⟨cells, writers, log, finished, hend⟩ := abandon_frame s' (done ++ x :: rest) f
      obtain ⟨copies, gate, registry, cells', writers', log', hpass⟩ :=
        pass_frame [x] s (p.target old) p.application
      rw [h] at hpass
      subst hpass
      rw [hend]
      exact (hcontrol.resolve_left nofun).2
    rw [stage_resting hround]
    exact .giveUp h
  | turn => exact .turn
  | @complete batch old =>
    have hround : (s.complete batch old).round = none := by
      obtain ⟨cells, writers, log, finished, hend⟩ := complete_frame s batch old
      rw [hend]
      exact (hcontrol.resolve_left nofun).2
    rw [stage_resting hround]
    exact .complete
  | hold | suspend => exact .quiet _
  | shift h => exact .shift h
  | clear h => exact .clear h
  | @surplus batch old d m h =>
    have hround : ((s.report (.misused m)).abandon batch (.misuse m)).round = none := by
      obtain ⟨cells, writers, log, finished, hend⟩ :=
        abandon_frame (s.report (.misused m)) batch (.misuse m)
      rw [hend]
      exact (hcontrol.resolve_left nofun).2
    rw [stage_resting hround]
    exact .surplus h

/-- A round is suspended when the leading writer has to wait. -/
lemma Stepped.round_eq_some {s t : Instance γ δ α ρ} {c c' : Control δ α ρ}
    {actions : History γ κ δ α ρ} (h : Stepped s c actions t c') {r : Round δ α ρ}
    (hr : t.round = some r) : s.round = some r ∨ Gate.standby s.gate r.phase.awaited = false ∨
      Gate.cleared s.gate r.phase.awaited = .ok false := by
  cases h with
  | takeUp => cases hr
  | idle | elect | turn | shift | clear => exact .inl hr
  | hold h =>
    cases hr
    exact .inr (.inl h)
  | suspend h =>
    cases hr
    exact .inr (.inr h)
  | @apply t p done rest old x h =>
    have hpass := round_pass [x] s (p.target old) p.application
    rw [h] at hpass
    exact .inl (hpass.symm.trans hr)
  | @giveUp t p done rest old x f h =>
    have hpass := round_pass [x] s (p.target old) p.application
    rw [h] at hpass
    rw [round_abandon] at hr
    exact .inl (hpass.symm.trans hr)
  | complete =>
    rw [round_complete] at hr
    exact .inl hr
  | surplus =>
    rw [round_abandon] at hr
    exact .inl hr

end Instance

/-! ## Reads within applications -/

/-- An application is the first action of its step, so that it found the instance as it was before
the step. -/
lemma Instance.Staged.eq_append_of_applied [Gate γ κ δ] {s t found : Instance γ δ α ρ}
    {c c' : Control δ α ρ} {actions : History γ κ δ α ρ} (h : Staged s c actions t c') {side : Side}
    {p : Pass} {r : Request α ρ} (hmem : .applied found side p r ∈ actions) :
    found = s ∧ ∃ more, actions = more ++ [.applied s side p r] := by
  cases h with
  | apply =>
    cases List.mem_singleton.1 hmem
    exact ⟨rfl, [], rfl⟩
  | giveUp =>
    rcases List.mem_cons.1 hmem with hmem | hmem
    · cases hmem
    · cases List.mem_singleton.1 hmem
      exact ⟨rfl, [_], rfl⟩
  | _ => simp at hmem

/-- `P` holds of the instance at every application that reads it. -/
def History.Looked (P : Instance γ δ α ρ → Prop) (h : History γ κ δ α ρ) : Prop :=
  ∀ found side p r, .applied found side p r ∈ h → r.observed = true → P found

namespace History.Looked

variable {P : Instance γ δ α ρ → Prop} {h : History γ κ δ α ρ}

lemma nil : Looked P ([] : History γ κ δ α ρ) :=
  fun _ _ _ _ hmem => absurd hmem List.not_mem_nil

lemma cons (hl : h.Looked P) {d : Action γ κ δ α ρ}
    (hd : ∀ found side p r, d ≠ .applied found side p r) : Looked P (d :: h) := by
  intro found side p r hmem
  rcases List.mem_cons.1 hmem with hmem | hmem
  · exact absurd hmem.symm (hd found side p r)
  · exact hl found side p r hmem

lemma staged [Gate γ κ δ] (hl : h.Looked P) {s t : Instance γ δ α ρ} {c c' : Control δ α ρ}
    {actions : History γ κ δ α ρ} (hstaged : Instance.Staged s c actions t c')
    (hlook : ∀ side p r more, actions = more ++ [.applied s side p r] → r.observed = true → P s) :
    Looked P (actions ++ h) := by
  intro found side p r hmem hobserved
  rcases List.mem_append.1 hmem with hmem | hmem
  · obtain ⟨rfl, more, hactions⟩ := hstaged.eq_append_of_applied hmem
    exact hlook side p r more hactions hobserved
  · exact hl found side p r hmem hobserved

end History.Looked

/-!
## Rounds

Most invariants depend only on the effect of a step on the round under way.
-/

namespace Instance

variable [Gate γ κ δ]

/-- The effect of a step of the leading writer on the round under way. -/
inductive Progress : Instance γ δ α ρ → Option (Task α ρ) →
    History γ κ δ α ρ → Instance γ δ α ρ → Option (Task α ρ) → Prop where
  /-- only the gate changes, or the round is suspended or resumed -/
  | quiet {s : Instance γ δ α ρ} {t : Option (Task α ρ)} {gate : γ}
      {round : Option (Round δ α ρ)} {log : List Event}
      (hgate : gate = s.gate ∨ ∃ d, gate = Gate.shift s.gate d) :
      Progress s t [] { s with gate, round, log } t
  | elect {s : Instance γ δ α ρ} {lock : SpinLock} (hpublished : s.published ≠ []) :
      Progress s none [.took s.published] { s with lock }
        (some ⟨.first, [], s.published, s.activeSide⟩)
  | apply {s s' : Instance γ δ α ρ} {p : Pass} {done rest : Batch α ρ} {old : Side}
      {x : Nat × Request α ρ} (h : s.pass (p.target old) p.application [x] = (.ok (), s')) :
      Progress s (some ⟨p, done, x :: rest, old⟩) [.applied s (p.target old) p x.2] s'
        (some ⟨p, done ++ [x], rest, old⟩)
  | giveUp {s s' : Instance γ δ α ρ} {p : Pass} {done rest : Batch α ρ} {old : Side}
      {x : Nat × Request α ρ} {f : Fault}
      (h : s.pass (p.target old) p.application [x] = (.error f, s')) :
      Progress s (some ⟨p, done, x :: rest, old⟩)
        [.abandoned (done ++ x :: rest), .applied s (p.target old) p x.2]
        (s'.abandon (done ++ x :: rest) f) none
  | turn {s : Instance γ δ α ρ} {batch : Batch α ρ} {old : Side} :
      Progress s (some ⟨.first, batch, [], old⟩) [.turned batch]
        { s with gate := (Gate.turn s.gate).2 } (some ⟨.second, [], batch, old⟩)
  | complete {s : Instance γ δ α ρ} {batch : Batch α ρ} {old : Side} :
      Progress s (some ⟨.second, batch, [], old⟩) [.completed batch] (s.complete batch old) none
  | surplus {s : Instance γ δ α ρ} {batch : Batch α ρ} {old : Side} {d : δ} {m : Misuse}
      (h : Gate.cleared s.gate d = .error m) :
      Progress s (some ⟨.second, [], batch, old⟩) [.abandoned batch]
        ((s.report (.misused m)).abandon batch (.misuse m)) none

lemma Staged.progress {s t : Instance γ δ α ρ} {c c' : Control δ α ρ} {actions : History γ κ δ α ρ}
    (h : Staged s c actions t c') : Progress s c.task? actions t c'.task? := by
  cases h with
  | quiet => exact .quiet (.inl rfl)
  | elect hpublished => exact .elect hpublished
  | apply h => exact .apply h
  | giveUp h => exact .giveUp h
  | turn => exact .turn
  | shift => exact .quiet (.inr ⟨_, rfl⟩)
  | clear => exact .quiet (.inl rfl)
  | complete => exact .complete
  | surplus h => exact .surplus h

end Instance

namespace Point

/-- The stage of the round under way at a point. -/
def stage (p : Point γ κ δ α ρ) : Control δ α ρ :=
  p.inst.stage p.control

lemma stage_of_passing {p : Point γ κ δ α ρ} {pass : Pass} {done rest : Batch α ρ} {old : Side}
    (h : p.control = .passing pass done rest old) : p.stage = .passing pass done rest old := by
  rw [stage, h]
  rfl

variable [Gate γ κ δ] {ticks : List (Tick α ρ)}

/-- A move does not change the stage. -/
lemma stage_next_caller (q : Point γ κ δ α ρ) (m : Move α ρ) :
    (q.next (.caller m)).stage = q.stage := by
  simp only [stage, inst, next, Instance.stage, (q.session.moved_act m).round_eq]

/-- A tick of the leading writer moves on the stage. -/
lemma staged_next_writer {q : Point γ κ δ α ρ} (hq : q.session.Exclusive q.control) :
    Instance.Staged q.inst q.stage (q.inst.advance q.control).1 (q.next .writer).inst
      (q.next .writer).stage :=
  (q.inst.stepped_advance q.control).staged hq.inCharge

/-- Induction over a schedule: what moves and the stages of rounds preserve holds at every point. -/
theorem stage_after {P : Session γ κ δ α ρ → History γ κ δ α ρ → Control δ α ρ → Prop}
    (moved : ∀ {s h c m r s'}, .caller m ∈ ticks → s.act m = (r, s') → s.Moved m r s' → P s h c →
      P s' (.moved s m :: h) c)
    (staged : ∀ {s h c actions inst c'}, Instance.Staged s.inst c actions inst c' → P s h c →
      P { s with inst } (actions ++ h) c')
    (emptied : ∀ {s h c}, P s h c →
      P { s with inst := { s.inst with finished := [], log := [] } }
        (.emptied s.inst.finished s.inst.log :: h) c)
    {p : Point γ κ δ α ρ} (hp : p.session.Exclusive p.control)
    (hstart : P p.session p.history p.stage) :
    P (p.after ticks).session (p.after ticks).history (p.after ticks).stage := by
  refine (after_induction
    (P := fun q => q.session.Exclusive q.control ∧ P q.session q.history q.stage)
    ⟨hp, hstart⟩ ?_).2
  rintro q t ht ⟨hq, hP⟩
  refine ⟨exclusive_next hq t, ?_⟩
  cases t with
  | caller m =>
    rw [q.stage_next_caller m]
    exact moved ht rfl (q.session.moved_act m) hP
  | writer => exact staged (staged_next_writer hq) hP
  | outbox => exact emptied hP

/-- Induction over a schedule: what moves and the progress of rounds preserve holds at every
point. -/
theorem invariant_after
    {P : Session γ κ δ α ρ → History γ κ δ α ρ → Option (Task α ρ) → Prop}
    (moved : ∀ {s h t m r s'}, .caller m ∈ ticks → s.act m = (r, s') → s.Moved m r s' → P s h t →
      P s' (.moved s m :: h) t)
    (progress : ∀ {s h t actions inst t'}, Instance.Progress s.inst t actions inst t' → P s h t →
      P { s with inst } (actions ++ h) t')
    (emptied : ∀ {s h t}, P s h t →
      P { s with inst := { s.inst with finished := [], log := [] } }
        (.emptied s.inst.finished s.inst.log :: h) t)
    {p : Point γ κ δ α ρ} (hp : p.session.Exclusive p.control)
    (hstart : P p.session p.history p.task?) :
    P (p.after ticks).session (p.after ticks).history (p.after ticks).task? := by
  have htask : ∀ q : Point γ κ δ α ρ, q.task? = q.stage.task? := fun q => q.inst.task?_eq q.control
  rw [htask] at hstart ⊢
  exact stage_after (P := fun s h c => P s h c.task?) moved (fun h => progress h.progress) emptied
    hp hstart

end Point

end TwinCopy
