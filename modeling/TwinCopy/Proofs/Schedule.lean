import TwinCopy.Proofs.Moves

/-!
# Schedules

`settle` runs the writers in one go until they finish or have to wait. Here the same work is divided
into single steps of the leading writer, `advance`, and a *schedule* is a list of ticks that
interleaves the moves of callers with these steps. A `Point` of a schedule consists of a session,
the control state of the leading writer, and the history of actions so far. A statement about all
points of all schedules thus covers every instant, also within an application, and every
interleaving.

The runs of scripts are particular schedules, see `TwinCopy.Proofs.Scripts`.
-/

namespace TwinCopy

variable {γ κ δ α ρ : Type}

/-- The two passes of a round. -/
inductive Pass where
  | first
  | second
  deriving DecidableEq, Repr

namespace Pass

/-- The number that a mutation is given in this pass: 1 for its first application, 2 for its
second. -/
def application : Pass → Nat
  | first => 1
  | second => 2

/-- The side whose copy a pass changes, in a round that found `old` active. -/
def target (p : Pass) (old : Side) : Side :=
  match p with
  | first => old.opposite
  | second => old

end Pass

/-- Requests with the indices of their cells. -/
abbrev Batch (α ρ : Type) := List (Nat × Request α ρ)

/-- The control state of the leading writer. -/
inductive Control (δ α ρ : Type) where
  /-- there is no leading writer: no round is under way, or it is suspended -/
  | resting
  /-- in a pass over a batch, with the applied part and the remaining part -/
  | passing (p : Pass) (done rest : Batch α ρ) (old : Side)
  /-- after the side was turned, about to check whether the round can continue -/
  | waiting (r : Round δ α ρ)

/-- A round under way: its current or next pass, the part of the batch that this pass has applied,
the remaining part, and the side that was active before the round. -/
structure Task (α ρ : Type) where
  pass : Pass
  done : Batch α ρ
  rest : Batch α ρ
  old : Side

namespace Task

/-- The batch of a round. -/
def batch (t : Task α ρ) : Batch α ρ :=
  t.done ++ t.rest

/-- The requests with outputs at their cells: those that the first pass has applied. -/
def served (t : Task α ρ) : Batch α ρ :=
  match t.pass with
  | .first => t.done
  | .second => t.batch

end Task

/-- A suspended round has its second pass ahead. -/
def Round.task (r : Round δ α ρ) : Task α ρ :=
  ⟨.second, [], r.batch, r.old⟩

/-- The round under way, whether it is suspended or has a leading writer. -/
def Instance.task? (s : Instance γ δ α ρ) : Control δ α ρ → Option (Task α ρ)
  | .resting => s.round.map Round.task
  | .passing p done rest old => some ⟨p, done, rest, old⟩
  | .waiting r => some r.task

/-- An action of a caller or of the leading writer. -/
inductive Action (γ κ δ α ρ : Type) where
  /-- a caller made a move; `found` is the session before it -/
  | moved (found : Session γ κ δ α ρ) (m : Move α ρ)
  /-- the outboxes were emptied, with this content -/
  | emptied (finished : List (Finished α ρ)) (log : List Event)
  /-- a writer took the lock, and took this batch -/
  | took (batch : Batch α ρ)
  /-- a mutation was applied to the copy on a side; `found` is the instance before the
  application -/
  | applied (found : Instance γ δ α ρ) (side : Side) (p : Pass) (r : Request α ρ)
  /-- the side was turned to the copy that has the batch applied -/
  | turned (batch : Batch α ρ)
  /-- both copies have the batch applied -/
  | completed (batch : Batch α ρ)
  /-- the batch was abandoned -/
  | abandoned (batch : Batch α ρ)

/-- The actions so far, latest first. -/
abbrev History (γ κ δ α ρ : Type) := List (Action γ κ δ α ρ)

/-- `P` holds of every entry of a record, together with the earlier entries; the record is listed
latest first. -/
def Whenever {β : Type} (P : β → List β → Prop) (record : List β) : Prop :=
  ∀ later d earlier, record = later ++ d :: earlier → P d earlier

lemma Whenever.nil {β : Type} {P : β → List β → Prop} : Whenever P [] := by
  intro later d earlier h
  simp at h

lemma Whenever.cons {β : Type} {P : β → List β → Prop} {record : List β} (h : Whenever P record)
    {d : β} (hd : P d record) : Whenever P (d :: record) := by
  intro later d' earlier heq
  cases later with
  | nil =>
    obtain ⟨rfl, rfl⟩ := List.cons.inj heq
    exact hd
  | cons _ later => exact h later d' earlier (List.cons.inj heq).2

/-- One step of the leading writer, and its actions, latest first. -/
def Instance.advance [Gate γ κ δ] (s : Instance γ δ α ρ) :
    Control δ α ρ → History γ κ δ α ρ × Instance γ δ α ρ × Control δ α ρ
  | .resting =>
      match s.round with
      | some r => ([], { s with round := none }, .waiting r)
      | none =>
          match s.published, s.lock.tryAcquire with
          | [], _ | _, none => ([], s, .resting)
          | batch, some lock =>
              ([.took batch], { s with lock }, .passing .first [] batch s.activeSide)
  | .passing p done (x :: rest) old =>
      match s.pass (p.target old) p.application [x] with
      | (.ok (), t) => ([.applied s (p.target old) p x.2], t, .passing p (done ++ [x]) rest old)
      | (.error f, t) =>
          let batch := done ++ x :: rest
          ([.abandoned batch, .applied s (p.target old) p x.2], t.abandon batch f, .resting)
  | .passing .first batch [] old =>
      let (d, gate) := Gate.turn s.gate
      ([.turned batch], { s with gate }, .waiting ⟨batch, old, .standby d⟩)
  | .passing .second batch [] old => ([.completed batch], s.complete batch old, .resting)
  | .waiting ⟨batch, old, .standby d⟩ =>
      if Gate.standby s.gate d then
        ([], { s with gate := Gate.shift s.gate d }, .waiting ⟨batch, old, .clearing d⟩)
      else ([], { s with round := some ⟨batch, old, .standby d⟩ }, .resting)
  | .waiting ⟨batch, old, .clearing d⟩ =>
      match Gate.cleared s.gate d with
      | .error m =>
          let (fault, s) := s.misused m
          ([.abandoned batch], s.abandon batch fault, .resting)
      | .ok false => ([], { s with round := some ⟨batch, old, .clearing d⟩ }, .resting)
      | .ok true => ([], s.report (Gate.clearedEvent γ d), .passing .second [] batch old)

/-- A point of a schedule. -/
structure Point (γ κ δ α ρ : Type) where
  history : History γ κ δ α ρ
  session : Session γ κ δ α ρ
  control : Control δ α ρ

/-- A tick of a schedule. -/
inductive Tick (α ρ : Type) where
  /-- a caller makes a move -/
  | caller (m : Move α ρ)
  /-- the leading writer makes a step -/
  | writer
  /-- the outboxes are emptied -/
  | outbox

namespace Point

/-- The instance at a point. -/
def inst (p : Point γ κ δ α ρ) : Instance γ δ α ρ :=
  p.session.inst

/-- The round under way at a point. -/
def task? (p : Point γ κ δ α ρ) : Option (Task α ρ) :=
  p.inst.task? p.control

lemma task?_of_passing {p : Point γ κ δ α ρ} {pass : Pass} {done rest : Batch α ρ} {old : Side}
    (h : p.control = .passing pass done rest old) : p.task? = some ⟨pass, done, rest, old⟩ := by
  rw [task?, h, Instance.task?]

/-- The initial point of a session. -/
def start (s : Session γ κ δ α ρ) : Point γ κ δ α ρ :=
  ⟨[], s, .resting⟩

lemma task?_start {s : Session γ κ δ α ρ} (hround : s.inst.round = none) :
    (start s).task? = none := by
  rw [task?, start, inst, Instance.task?, hround, Option.map_none]

variable [Gate γ κ δ]

/-- The point after one tick. -/
def next (p : Point γ κ δ α ρ) : Tick α ρ → Point γ κ δ α ρ
  | .caller m => ⟨.moved p.session m :: p.history, (p.session.act m).2, p.control⟩
  | .writer =>
      let (actions, inst, control) := p.inst.advance p.control
      ⟨actions ++ p.history, { p.session with inst }, control⟩
  | .outbox =>
      ⟨.emptied p.inst.finished p.inst.log :: p.history,
        { p.session with inst := { p.inst with finished := [], log := [] } }, p.control⟩

/-- The point after a list of ticks. -/
def after (p : Point γ κ δ α ρ) (ticks : List (Tick α ρ)) : Point γ κ δ α ρ :=
  ticks.foldl next p

@[simp] lemma after_nil (p : Point γ κ δ α ρ) : p.after [] = p := rfl

@[simp] lemma after_cons (p : Point γ κ δ α ρ) (t : Tick α ρ) (ticks : List (Tick α ρ)) :
    p.after (t :: ticks) = (p.next t).after ticks := rfl

lemma after_append (p : Point γ κ δ α ρ) (first rest : List (Tick α ρ)) :
    p.after (first ++ rest) = (p.after first).after rest :=
  List.foldl_append

/-- A tick extends the history. -/
lemma history_next (p : Point γ κ δ α ρ) (t : Tick α ρ) :
    ∃ actions, (p.next t).history = actions ++ p.history := by
  cases t with
  | caller m => exact ⟨[.moved p.session m], rfl⟩
  | writer => exact ⟨(p.inst.advance p.control).1, rfl⟩
  | outbox => exact ⟨[.emptied p.inst.finished p.inst.log], rfl⟩

lemma history_after (p : Point γ κ δ α ρ) (ticks : List (Tick α ρ)) :
    ∃ actions, (p.after ticks).history = actions ++ p.history := by
  induction ticks generalizing p with
  | nil => exact ⟨[], rfl⟩
  | cons t ticks ih =>
    obtain ⟨first, hfirst⟩ := p.history_next t
    obtain ⟨rest, hrest⟩ := ih (p.next t)
    refine ⟨rest ++ first, ?_⟩
    rw [after_cons, hrest, hfirst, List.append_assoc]

/-- Induction over a schedule: what holds at the start and is preserved by every tick holds at the
end. -/
lemma after_induction {P : Point γ κ δ α ρ → Prop} {p : Point γ κ δ α ρ} {ticks : List (Tick α ρ)}
    (h : P p) (hnext : ∀ q t, t ∈ ticks → P q → P (q.next t)) : P (p.after ticks) := by
  induction ticks generalizing p with
  | nil => exact h
  | cons t ticks ih =>
    exact ih (hnext p t List.mem_cons_self h)
      (fun q u hu => hnext q u (List.mem_cons_of_mem t hu))

end Point

namespace Instance

variable [Gate γ κ δ]

/-- The graph of `advance`, one constructor for each step of the leading writer, with its guards. -/
inductive Stepped : Instance γ δ α ρ → Control δ α ρ →
    History γ κ δ α ρ → Instance γ δ α ρ → Control δ α ρ → Prop where
  | takeUp {s : Instance γ δ α ρ} {r : Round δ α ρ} (hround : s.round = some r) :
      Stepped s .resting [] { s with round := none } (.waiting r)
  | idle {s : Instance γ δ α ρ} (hround : s.round = none)
      (h : s.published = [] ∨ s.lock.locked = true) : Stepped s .resting [] s .resting
  | elect {s : Instance γ δ α ρ} (hround : s.round = none) (hpublished : s.published ≠ [])
      (hlock : s.lock.locked = false) :
      Stepped s .resting [.took s.published] { s with lock := { s.lock with locked := true } }
        (.passing .first [] s.published s.activeSide)
  | apply {s t : Instance γ δ α ρ} {p : Pass} {done rest : Batch α ρ} {old : Side}
      {x : Nat × Request α ρ} (h : s.pass (p.target old) p.application [x] = (.ok (), t)) :
      Stepped s (.passing p done (x :: rest) old) [.applied s (p.target old) p x.2] t
        (.passing p (done ++ [x]) rest old)
  | giveUp {s t : Instance γ δ α ρ} {p : Pass} {done rest : Batch α ρ} {old : Side}
      {x : Nat × Request α ρ} {f : Fault}
      (h : s.pass (p.target old) p.application [x] = (.error f, t)) :
      Stepped s (.passing p done (x :: rest) old)
        [.abandoned (done ++ x :: rest), .applied s (p.target old) p x.2]
        (t.abandon (done ++ x :: rest) f) .resting
  | turn {s : Instance γ δ α ρ} {batch : Batch α ρ} {old : Side} :
      Stepped s (.passing .first batch [] old) [.turned batch]
        { s with gate := (Gate.turn s.gate).2 }
        (.waiting ⟨batch, old, .standby (Gate.turn s.gate).1⟩)
  | complete {s : Instance γ δ α ρ} {batch : Batch α ρ} {old : Side} :
      Stepped s (.passing .second batch [] old) [.completed batch] (s.complete batch old) .resting
  | hold {s : Instance γ δ α ρ} {batch : Batch α ρ} {old : Side} {d : δ}
      (h : Gate.standby s.gate d = false) :
      Stepped s (.waiting ⟨batch, old, .standby d⟩) []
        { s with round := some ⟨batch, old, .standby d⟩ } .resting
  | shift {s : Instance γ δ α ρ} {batch : Batch α ρ} {old : Side} {d : δ}
      (h : Gate.standby s.gate d = true) :
      Stepped s (.waiting ⟨batch, old, .standby d⟩) [] { s with gate := Gate.shift s.gate d }
        (.waiting ⟨batch, old, .clearing d⟩)
  | suspend {s : Instance γ δ α ρ} {batch : Batch α ρ} {old : Side} {d : δ}
      (h : Gate.cleared s.gate d = .ok false) :
      Stepped s (.waiting ⟨batch, old, .clearing d⟩) []
        { s with round := some ⟨batch, old, .clearing d⟩ } .resting
  | clear {s : Instance γ δ α ρ} {batch : Batch α ρ} {old : Side} {d : δ}
      (h : Gate.cleared s.gate d = .ok true) :
      Stepped s (.waiting ⟨batch, old, .clearing d⟩) [] (s.report (Gate.clearedEvent γ d))
        (.passing .second [] batch old)
  | surplus {s : Instance γ δ α ρ} {batch : Batch α ρ} {old : Side} {d : δ}
      {m : Misuse} (h : Gate.cleared s.gate d = .error m) :
      Stepped s (.waiting ⟨batch, old, .clearing d⟩) [.abandoned batch]
        ((s.report (.misused m)).abandon batch (.misuse m)) .resting

lemma Stepped.eq {s t : Instance γ δ α ρ} {c c' : Control δ α ρ} {actions : History γ κ δ α ρ}
    (h : Stepped s c actions t c') : s.advance c = (actions, t, c') := by
  cases h with
  | takeUp hround => simp only [advance, hround]
  | idle hround h =>
    rcases hpublished : s.published with _ | ⟨x, batch⟩
    · simp only [advance, hround, hpublished]
    · rcases h with h | h
      · simp [hpublished] at h
      · simp only [advance, hround, hpublished, SpinLock.tryAcquire, h, if_true]
  | elect hround hpublished hlock =>
    have hacquire : s.lock.tryAcquire = some { s.lock with locked := true } := by
      simp [SpinLock.tryAcquire, hlock]
    rcases h : s.published with _ | ⟨x, batch⟩
    · exact absurd h hpublished
    · simp only [advance, hround, h, hacquire]
  | apply h => simp only [advance, h]
  | giveUp h => simp only [advance, h]
  | turn => rfl
  | complete => rfl
  | hold h => simp only [advance, h, Bool.false_eq_true, if_false]
  | shift h => simp only [advance, h, if_true]
  | suspend h => simp only [advance, h]
  | clear h => simp only [advance, h]
  | surplus h => simp only [advance, h, misused]

/-- A step is always possible, if only an idle one. -/
lemma exists_stepped (s : Instance γ δ α ρ) (c : Control δ α ρ) :
    ∃ actions t c', Stepped s c actions t c' := by
  match c with
  | .resting =>
    rcases hround : s.round with _ | r
    · by_cases hpublished : s.published = []
      · exact ⟨_, _, _, .idle hround (.inl hpublished)⟩
      · rcases hlocked : s.lock.locked with _ | _
        · exact ⟨_, _, _, .elect hround hpublished hlocked⟩
        · exact ⟨_, _, _, .idle hround (.inr hlocked)⟩
    · exact ⟨_, _, _, .takeUp hround⟩
  | .passing p batch (x :: rest) old =>
    rcases hx : s.pass (p.target old) p.application [x] with ⟨f | ⟨⟨⟩⟩, t⟩
    · exact ⟨_, _, _, .giveUp hx⟩
    · exact ⟨_, _, _, .apply hx⟩
  | .passing .first batch [] old => exact ⟨_, _, _, .turn⟩
  | .passing .second batch [] old => exact ⟨_, _, _, .complete⟩
  | .waiting ⟨batch, old, .standby d⟩ =>
    rcases h : Gate.standby s.gate d with _ | _
    · exact ⟨_, _, _, .hold h⟩
    · exact ⟨_, _, _, .shift h⟩
  | .waiting ⟨batch, old, .clearing d⟩ =>
    rcases h : Gate.cleared s.gate d with m | _ | _
    · exact ⟨_, _, _, .surplus h⟩
    · exact ⟨_, _, _, .suspend h⟩
    · exact ⟨_, _, _, .clear h⟩

lemma stepped_advance (s : Instance γ δ α ρ) (c : Control δ α ρ) :
    Stepped s c (s.advance c).1 (s.advance c).2.1 (s.advance c).2.2 := by
  obtain ⟨actions, t, c', h⟩ := s.exists_stepped c
  rw [h.eq]
  exact h

/-- The leading writer holds the lock, and no other round is suspended. -/
def InCharge (s : Instance γ δ α ρ) (c : Control δ α ρ) : Prop :=
  (s.round ≠ none → s.lock.locked = true) ∧
    (c = .resting ∨ s.lock.locked = true ∧ s.round = none)

lemma Stepped.inCharge {s t : Instance γ δ α ρ} {c c' : Control δ α ρ} {actions : History γ κ δ α ρ}
    (h : Stepped s c actions t c') (hs : s.InCharge c) : t.InCharge c' := by
  obtain ⟨hround, hcontrol⟩ := hs
  cases h with
  | takeUp hr => exact ⟨by simp, .inr ⟨hround (by simp [hr]), rfl⟩⟩
  | idle => exact ⟨hround, hcontrol⟩
  | elect hr => exact ⟨fun _ => rfl, .inr ⟨rfl, hr⟩⟩
  | @apply t p done rest old x h =>
    obtain ⟨copies, gate, registry, cells, writers, log, hpass⟩ :=
      pass_frame [x] s (p.target old) p.application
    rw [h] at hpass
    subst hpass
    exact ⟨hround, hcontrol.imp nofun id⟩
  | @giveUp t p done rest old x f h =>
    obtain ⟨copies, gate, registry, cells, writers, log, hpass⟩ :=
      pass_frame [x] s (p.target old) p.application
    rw [h] at hpass
    subst hpass
    obtain ⟨cells, writers, log, finished, hend⟩ := abandon_frame _ (done ++ x :: rest) f
    rw [hend]
    exact ⟨fun hr => absurd (hcontrol.resolve_left nofun).2 hr, .inl rfl⟩
  | @complete batch old =>
    obtain ⟨cells, writers, log, finished, hend⟩ := complete_frame s batch old
    rw [hend]
    exact ⟨fun hr => absurd (hcontrol.resolve_left nofun).2 hr, .inl rfl⟩
  | hold | suspend => exact ⟨fun _ => (hcontrol.resolve_left nofun).1, .inl rfl⟩
  | turn | shift | clear => exact ⟨hround, hcontrol.imp nofun id⟩
  | @surplus batch old d m h =>
    obtain ⟨cells, writers, log, finished, hend⟩ :=
      abandon_frame (s.report (.misused m)) batch (.misuse m)
    rw [hend]
    exact ⟨fun hr => absurd (hcontrol.resolve_left nofun).2 hr, .inl rfl⟩

end Instance

/-! ## Mutual exclusion -/

/-- The lock is held by the session or by the leading writer, and never by both. -/
structure Session.Exclusive (s : Session γ κ δ α ρ) (c : Control δ α ρ) : Prop where
  inCharge : s.inst.InCharge c
  guarded : s.guarded = true → s.inst.lock.locked = true ∧ c = .resting ∧ s.inst.round = none
  held : s.inst.lock.locked = true → s.guarded = true ∨ c ≠ .resting ∨ s.inst.round ≠ none

@[simp] lemma SpinLock.locked_release (l : SpinLock) : l.release.2.locked = false := by
  unfold release
  split <;> simp_all

namespace Session

/-- `Exclusive` depends on the lock, the guards, the round and the control state only. -/
lemma Exclusive.congr {s t : Session γ κ δ α ρ} {c : Control δ α ρ} (hs : s.Exclusive c)
    (hlock : t.inst.lock = s.inst.lock) (hround : t.inst.round = s.inst.round)
    (hguarded : t.guarded = s.guarded) : t.Exclusive c := by
  refine ⟨?_, ?_, ?_⟩
  · simpa only [Instance.InCharge, hlock, hround] using hs.inCharge
  · simpa only [hlock, hround, hguarded] using hs.guarded
  · simpa only [hlock, hround, hguarded] using hs.held

/-- The lock of a fresh instance is free. -/
lemma exclusive_fresh (style : Style) (copies : Copies α) (gate : γ) (registry : Registry)
    (cells : Nat) (wait : WaitPolicy) :
    (ofInstance (.fresh style copies gate registry cells wait) :
      Session γ κ δ α ρ).Exclusive .resting :=
  ⟨⟨by simp [ofInstance, Instance.fresh], .inl rfl⟩, nofun, nofun⟩

variable [Gate γ κ δ]

lemma Exclusive.act {s : Session γ κ δ α ρ} {c : Control δ α ρ} (hs : s.Exclusive c)
    (m : Move α ρ) : (s.act m).2.Exclusive c := by
  have hmoved := s.moved_act m
  revert hmoved
  generalize (s.act m).1 = r
  generalize (s.act m).2 = t
  intro hmoved
  cases hmoved with
  | locked hguarded hwriters hstyle hlock =>
    -- the lock is free, so there is no leading writer and no suspended round
    have hresting : c = .resting := by
      rcases hs.inCharge.2 with h | h
      · exact h
      · rw [hlock] at h
        cases h.1
    have hround : s.inst.round = none := by
      rcases hround : s.inst.round with _ | r
      · rfl
      · have hlocked := hs.inCharge.1 (by simp [hround])
        rw [hlock] at hlocked
        cases hlocked
    exact ⟨⟨fun _ => rfl, .inl hresting⟩, fun _ => ⟨rfl, hresting, hround⟩, fun _ => .inl rfl⟩
  | unlocked hguarded =>
    obtain ⟨-, hresting, hround⟩ := hs.guarded hguarded
    exact ⟨⟨fun h => absurd hround h, .inl hresting⟩, nofun, by simp⟩
  | _ => exact hs.congr rfl rfl rfl

lemma Exclusive.advance {s : Session γ κ δ α ρ} {c : Control δ α ρ} (hs : s.Exclusive c) :
    { s with inst := (s.inst.advance c).2.1 }.Exclusive (s.inst.advance c).2.2 := by
  have hstepped := s.inst.stepped_advance c
  refine ⟨hstepped.inCharge hs.inCharge, ?_, ?_⟩
  · -- while the session holds the lock no writer is elected
    intro hguarded
    obtain ⟨hlocked, rfl, hround⟩ := hs.guarded hguarded
    revert hstepped
    generalize s.inst.advance Control.resting = step
    obtain ⟨actions, t, c'⟩ := step
    intro hstepped
    cases hstepped with
    | takeUp hr => rw [hround] at hr; cases hr
    | idle => exact ⟨hlocked, rfl, hround⟩
    | elect _ _ hlock => rw [hlock] at hlocked; cases hlocked
  · intro hlocked
    revert hstepped hlocked
    generalize hstep : s.inst.advance c = step
    obtain ⟨actions, t, c'⟩ := step
    intro hstepped hlocked
    simp only at hstepped hlocked ⊢
    cases hstepped with
    | takeUp | elect | turn | shift | clear | apply => exact .inr (.inl nofun)
    | idle => exact hs.held hlocked
    | hold | suspend => exact .inr (.inr (by simp))
    | giveUp h =>
      obtain ⟨cells, writers, log, finished, hend⟩ := Instance.abandon_frame _ _ _
      rw [hend] at hlocked
      simp at hlocked
    | complete =>
      obtain ⟨cells, writers, log, finished, hend⟩ := Instance.complete_frame s.inst _ _
      rw [hend] at hlocked
      simp at hlocked
    | surplus h =>
      obtain ⟨cells, writers, log, finished, hend⟩ := Instance.abandon_frame _ _ _
      rw [hend] at hlocked
      simp at hlocked

end Session

namespace Point

variable [Gate γ κ δ]

lemma exclusive_next {p : Point γ κ δ α ρ} (hp : p.session.Exclusive p.control) (t : Tick α ρ) :
    (p.next t).session.Exclusive (p.next t).control := by
  cases t with
  | caller m => exact hp.act m
  | writer => exact hp.advance
  | outbox => exact hp.congr rfl rfl rfl

/-- At every point of every schedule the lock has at most one holder. -/
theorem exclusive_after {p : Point γ κ δ α ρ} (hp : p.session.Exclusive p.control)
    (ticks : List (Tick α ρ)) : (p.after ticks).session.Exclusive (p.after ticks).control :=
  after_induction (P := fun q => q.session.Exclusive q.control) hp
    fun _ t _ hq => exclusive_next hq t

end Point

end TwinCopy
