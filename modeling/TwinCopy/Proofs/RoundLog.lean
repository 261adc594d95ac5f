import TwinCopy.Proofs.RoundEvents
import TwinCopy.Proofs.Waiting
import TwinCopy.Proofs.Withdrawal

/-!
# The log accounts for the rounds

The events of rounds determine what was done to an instance. Under the exclusive style they report
that the readers of a version are gone and that a mutation was completed: the former is followed by
the latter unless the mutation ends in a fault in its second application, or is still in it. Under
the combining style a batch is reported when it is completed or abandoned, with its length, so that
every writer admitted is counted once.

`Event.Consistent` specifies an event by the events before it, and `LogInv` relates the events so
far to the counters and to the history. A step of the leading writer reports consistent events
(`LogInv.staged`), and other ticks report none (`LogInv.idle`), so that `LogInv` holds at every
point (`logInv_after`). That a mutation is reported in its own round depends on the point before its
second pass: this pass begins when the readers are found to be gone (`secondPassSince_after`), and
ends with the mutation or with a fault (`completedRound_after`).
-/

namespace TwinCopy

variable {α ρ : Type}

/-! ## Events of rounds -/

namespace Event

/-- The readers that a round waited for are gone. -/
@[simp] def isDrained : Event → Bool
  | readersDrained _ => true
  | _ => false

/-- A mutation of an exclusive writer is completed. -/
@[simp] def isApplied : Event → Bool
  | mutationApplied .. => true
  | _ => false

/-- A batch of combining writers is completed. -/
@[simp] def isCombined : Event → Bool
  | batchApplied .. => true
  | _ => false

/-- The number of mutations completed with a batch. -/
@[simp] def combinedSize : Event → Nat
  | batchApplied size _ => size
  | _ => 0

/-- The length of a batch that has ended, and whether it was completed. -/
@[simp] def batch? : Event → Option (Nat × Bool)
  | batchApplied size _ => some (size, true)
  | batchAbandoned size => some (size, false)
  | _ => none

/-- An event is consistent with the events of rounds before it, which are listed latest first:
versions alternate, mutations and batches are numbered, and a mutation is completed directly after
its readers are gone. -/
def Consistent : Event → List Event → Prop
  | readersDrained v, earlier => v.index = (earlier.countP isDrained + 1) % 2
  | mutationApplied n _, earlier =>
      n = earlier.countP isApplied + 1 ∧ ∃ v before, earlier = .readersDrained v :: before
  | batchApplied _ n, earlier => n = earlier.countP isCombined + 1
  | _, _ => True

end Event

/-! ## The rounds of a history -/

/-- The action is an application in the second pass that ends in a fault. -/
@[simp] def Action.isSecondPassFault {γ κ δ : Type} : Action γ κ δ α ρ → Bool
  | .applied found side .second r => !(r.mutation.apply 2 (found.copies.get side)).outcome.isOk
  | _ => false

/-- The batch that the action ends, and whether it was completed. -/
@[simp] def Action.batchEnded {γ κ δ : Type} : Action γ κ δ α ρ → List (Batch α ρ × Bool)
  | .completed batch => [(batch, true)]
  | .abandoned batch => [(batch, false)]
  | _ => []

namespace History

variable {γ κ δ : Type}

/-- The number of applications in a second pass that ended in a fault. -/
def secondPassFaults (h : History γ κ δ α ρ) : Nat :=
  h.countP Action.isSecondPassFault

/-- The batches that have ended, in order, and whether they were completed. -/
def endedBatches (h : History γ κ δ α ρ) : List (Batch α ρ × Bool) :=
  gather Action.batchEnded h

@[simp] lemma secondPassFaults_cons (d : Action γ κ δ α ρ) (h : History γ κ δ α ρ) :
    secondPassFaults (d :: h) = h.secondPassFaults + d.isSecondPassFault.toNat := by
  rw [secondPassFaults, List.countP_cons]
  cases d.isSecondPassFault <;> rfl

@[simp] lemma endedBatches_cons (d : Action γ κ δ α ρ) (h : History γ κ δ α ρ) :
    endedBatches (d :: h) = h.endedBatches ++ d.batchEnded :=
  gather_cons _ _ _

end History

/-- The leading writer is in its second pass. -/
@[simp] def Control.onSecond {δ : Type} : Control δ α ρ → Bool
  | .passing .second .. => true
  | _ => false

/-- The version was changed, and the readers of the other one have not been found to be gone. -/
@[simp] def Control.changed {δ : Type} : Control δ α ρ → Bool
  | .waiting ⟨_, _, .clearing _⟩ => true
  | _ => false

lemma Version.index_next (v : Version) : v.next.index = (v.index + 1) % 2 := by
  cases v <;> rfl

/-! ## At every point -/

/-- The events of rounds, latest first, are consistent, and agree with the counters and the
history. -/
structure LogInv (s : Instance Versioned Version α ρ) (h : History Versioned Version Version α ρ)
    (c : Control Version α ρ) (events : List Event) : Prop where
  consistent : Whenever Event.Consistent events
  current : s.gate.current.index = (events.countP Event.isDrained + c.changed.toNat) % 2
  latest : c.onSecond = true → ∃ v before, events = .readersDrained v :: before
  drained : events.countP Event.isDrained =
    h.completed.length + h.secondPassFaults + c.onSecond.toNat
  exclusive : s.style = .exclusive → s.mutations = events.countP Event.isApplied ∧
    events.countP Event.isApplied = h.completed.length
  combining : s.style = .combining → s.batches = events.countP Event.isCombined ∧
    s.mutations = (events.map Event.combinedSize).sum ∧
    events.reverse.filterMap Event.batch? = h.endedBatches.map fun x => (x.1.length, x.2)

namespace LogInv

variable {s t : Instance Versioned Version α ρ} {h : History Versioned Version Version α ρ}
  {c c' : Control Version α ρ} {d : Version} {events : List Event}

lemma fresh (style : Style) (copies : Copies α) (kind : IndicatorKind) (config : Config)
    (registry : Registry) (cells : Nat) (wait : WaitPolicy) :
    LogInv (.fresh style copies (.ofConfig kind config) registry cells wait :
      Instance Versioned Version α ρ) [] .resting [] :=
  ⟨.nil, rfl, nofun, rfl, fun _ => ⟨rfl, rfl⟩, fun _ => ⟨rfl, rfl, rfl⟩⟩

/-- An action without an event of rounds preserves `LogInv` if it ends no batch, and is no fault in
a second pass unless the pass ends with it. -/
lemma cons (ht : LogInv s h c events) {d : Action Versioned Version Version α ρ}
    (hcompleted : d.batchCompleted = []) (hended : d.batchEnded = [])
    (hsecond : c.onSecond.toNat = d.isSecondPassFault.toNat + c'.onSecond.toNat)
    (hcurrent : t.gate.current.index = (events.countP Event.isDrained + c'.changed.toNat) % 2)
    (hstyle : t.style = s.style) (hmutations : t.mutations = s.mutations)
    (hbatches : t.batches = s.batches) : LogInv t (d :: h) c' events where
  consistent := ht.consistent
  current := hcurrent
  latest hc := by
    refine ht.latest (Bool.toNat_eq_one.1 (Nat.le_antisymm (Bool.toNat_le _) ?_))
    rw [hsecond, hc]
    exact Nat.le_add_left _ _
  drained := by
    rw [ht.drained, hsecond, History.completed_cons, hcompleted, List.append_nil,
      History.secondPassFaults_cons]
    simp only [Nat.add_assoc]
  exclusive hs := by
    rw [History.completed_cons, hcompleted, List.append_nil, hmutations]
    exact ht.exclusive (hstyle ▸ hs)
  combining hs := by
    rw [History.endedBatches_cons, hended, List.append_nil, hmutations, hbatches]
    exact ht.combining (hstyle ▸ hs)

/-- An application is counted if it is in the second pass and ends in a fault. -/
lemma isSecondPassFault_applied (s : Instance Versioned Version α ρ) (p : Pass) (old : Side)
    (r : Request α ρ) :
    (Action.applied s (p.target old) p r : Action Versioned Version Version α ρ).isSecondPassFault =
      (decide (p = .second) &&
        !(r.mutation.apply p.application (s.copies.get (p.target old))).outcome.isOk) := by
  cases p <;> rfl

/-- An application that returns preserves `LogInv`. -/
lemma apply {p : Pass} {done rest : Batch α ρ} {old : Side} {x : Nat × Request α ρ}
    (ht : LogInv s h (.passing p done (x :: rest) old) events)
    (hpass : s.pass (p.target old) p.application [x] = (.ok (), t)) :
    LogInv t (.applied s (p.target old) p x.2 :: h) (.passing p (done ++ [x]) rest old) events := by
  obtain ⟨output, gate, registry, log, note, houtcome, rfl, hlook⟩ := Instance.pass_ok hpass
  refine ht.cons rfl rfl ?_ ?_ rfl rfl rfl
  · rw [isSecondPassFault_applied, houtcome]
    cases p <;> rfl
  · have hcurrent := ht.current
    rw [← hlook.sameVersions.current] at hcurrent
    cases p <;> exact hcurrent

/-- An application that ends in a fault preserves it for the state of rest that follows. -/
lemma raise {p : Pass} {done rest : Batch α ρ} {old : Side} {x : Nat × Request α ρ} {f : Fault}
    (ht : LogInv s h (.passing p done (x :: rest) old) events)
    (hpass : s.pass (p.target old) p.application [x] = (.error f, t)) :
    LogInv t (.applied s (p.target old) p x.2 :: h) .resting events := by
  obtain ⟨message, gate, registry, log, note, houtcome, -, rfl, hlook⟩ := Instance.pass_error hpass
  refine ht.cons rfl rfl ?_ ?_ rfl rfl rfl
  · rw [isSecondPassFault_applied, houtcome]
    cases p <;> rfl
  · have hcurrent := ht.current
    rw [← hlook.sameVersions.current] at hcurrent
    cases p <;> exact hcurrent

/-- An abandoned batch is reported under the combining style. -/
lemma abandon (ht : LogInv s h .resting events) (batch : Batch α ρ) (f : Fault) :
    LogInv (s.abandon batch f)
      (.abandoned batch :: h) .resting (s.abandonEvents batch ++ events) := by
  obtain ⟨cells, writers, log, finished, habandon⟩ := s.abandon_frame batch f
  have hdrained : events.countP Event.isDrained =
      (History.completed (.abandoned batch :: h)).length +
        History.secondPassFaults (.abandoned batch :: h) := by
    simpa using ht.drained
  rw [habandon, Instance.abandonEvents]
  cases hstyle : s.style with
  | exclusive =>
    refine ⟨ht.consistent, ht.current, nofun, hdrained, fun _ => ?_, nofun⟩
    simpa using ht.exclusive hstyle
  | combining =>
    obtain ⟨hbatches, hmutations, hended⟩ := ht.combining hstyle
    refine ⟨ht.consistent.cons trivial, ?_, nofun, ?_, nofun, fun _ => ⟨?_, ?_, ?_⟩⟩
    · simpa using ht.current
    · simpa using hdrained
    · simpa using hbatches
    · simpa using hmutations
    · simp [hended]

/-- A completed batch is reported, with its number. -/
lemma complete {batch : Batch α ρ} {old : Side}
    (ht : LogInv s h (.passing .second batch [] old) events)
    (hone : s.style = .exclusive → batch.length = 1) :
    LogInv (s.complete batch old) (.completed batch :: h) .resting
      (s.completeEvent batch old :: events) := by
  obtain ⟨cells, writers, log, finished, hcomplete⟩ := s.complete_frame batch old
  have hdrained : events.countP Event.isDrained =
      (History.completed (.completed batch :: h)).length +
        History.secondPassFaults (.completed batch :: h) := by
    have hbefore : events.countP Event.isDrained = h.completed.length + h.secondPassFaults + 1 :=
      ht.drained
    simp [hbefore]
    omega
  rw [hcomplete]
  cases hstyle : s.style with
  | exclusive =>
    obtain ⟨hmutations, hcompleted⟩ := ht.exclusive hstyle
    have hnumber : s.mutations + batch.length = events.countP Event.isApplied + 1 := by
      rw [hone hstyle, hmutations]
    rw [s.completeEvent_of_exclusive hstyle]
    refine ⟨ht.consistent.cons ⟨hnumber, ht.latest rfl⟩, ?_, nofun, ?_, fun _ => ⟨?_, ?_⟩, ?_⟩
    · simpa using ht.current
    · simpa using hdrained
    · simpa [List.countP_cons] using hnumber
    · simpa [List.countP_cons] using hcompleted
    · simp
  | combining =>
    obtain ⟨hbatches, hmutations, hended⟩ := ht.combining hstyle
    rw [s.completeEvent_of_combining hstyle]
    refine ⟨ht.consistent.cons (congrArg (· + 1) hbatches), ?_, nofun, ?_, ?_,
      fun _ => ⟨?_, ?_, ?_⟩⟩
    · simpa using ht.current
    · simpa using hdrained
    · simp
    · simpa [List.countP_cons] using hbatches
    · simp [hmutations, Nat.add_comm]
    · simp [hended]

/-- That the readers of a version are gone is reported, and the versions alternate. -/
lemma clear {batch : Batch α ρ} {old : Side}
    (ht : LogInv s h (.waiting ⟨batch, old, .clearing d⟩) events)
    (hd : d = s.gate.current.next) :
    LogInv (s.report (.readersDrained d.next)) h (.passing .second [] batch old)
      (.readersDrained d.next :: events) := by
  have hcurrent : s.gate.current.index = (events.countP Event.isDrained + 1) % 2 := ht.current
  have hversion : d.next = s.gate.current := by rw [hd, Version.next_next]
  refine ⟨ht.consistent.cons ?_, ?_, fun _ => ⟨_, _, rfl⟩, ?_, fun hstyle => ?_, fun hstyle => ?_⟩
  · rw [hversion]
    exact hcurrent
  · rw [List.countP_cons_of_pos rfl]
    exact hcurrent
  · rw [List.countP_cons_of_pos rfl, ht.drained]
    rfl
  · rw [List.countP_cons_of_neg (by simp)]
    exact ht.exclusive hstyle
  · simpa [Instance.report, List.filterMap_cons] using ht.combining hstyle

/-- A step of the leading writer preserves `LogInv`, with the events it reports. -/
lemma staged {actions : History Versioned Version Version α ρ}
    (hstaged : Instance.Staged s c actions t c') (ht : LogInv s h c events) (hfits : s.gate.Fits c)
    (hone : s.style = .exclusive → ∀ u ∈ c.task?, u.batch.length = 1) :
    ∃ news, t.roundEvents = news ++ s.roundEvents ∧
      LogInv t (actions ++ h) c' (news ++ events) := by
  cases hstaged with
  | quiet => exact ⟨[], rfl, { ht with }⟩
  | elect => exact ⟨[], rfl, ht.cons rfl rfl rfl ht.current rfl rfl rfl⟩
  | apply hpass => exact ⟨[], Instance.roundEvents_pass hpass, ht.apply hpass⟩
  | giveUp hpass =>
    refine ⟨_, ?_, (ht.raise hpass).abandon _ _⟩
    rw [Instance.roundEvents_abandon, Instance.roundEvents_pass hpass]
  | turn => exact ⟨[], rfl, ht.cons rfl rfl rfl ht.current rfl rfl rfl⟩
  | @shift batch old d =>
    have hd : d = s.gate.current := hfits.2.2
    have hcurrent : d.next.index = (events.countP Event.isDrained + 1) % 2 := by
      have hbefore : s.gate.current.index = (events.countP Event.isDrained + 0) % 2 := ht.current
      rw [hd, Version.index_next, hbefore]
      omega
    exact ⟨[], rfl, { ht with current := hcurrent }⟩
  | clear => exact ⟨[_], rfl, ht.clear hfits.2⟩
  | @complete batch old =>
    refine ⟨[_], Instance.roundEvents_complete _ _ _ (s.completeEvent_ofRound batch old),
      ht.complete fun hstyle => ?_⟩
    simpa [Task.batch] using hone hstyle _ rfl
  | surplus hcleared => cases hcleared

/-- An idle tick preserves `LogInv`. -/
lemma idle {p p' : Point Versioned Version Version α ρ}
    (ht : LogInv p.inst p.history p.stage p.roundEvents) (hidle : p.Idle p') :
    LogInv p'.inst p'.history p'.stage p'.roundEvents := by
  obtain ⟨d, hhistory, hd⟩ := hidle.history
  rw [hidle.stage, hidle.roundEvents, hhistory]
  have hcurrent := ht.current
  rw [← hidle.sameVersions.current] at hcurrent
  rcases hd with ⟨m, rfl⟩ | ⟨finished, log, rfl⟩ <;>
    exact ht.cons rfl rfl (Nat.zero_add _).symm hcurrent hidle.style hidle.counts.1 hidle.counts.2

end LogInv

/-- Where there is one cell, a batch is a single request. -/
lemma Queued.length_batch {γ κ δ : Type} [Gate γ κ δ] {s : Session γ κ δ α ρ}
    {h : History γ κ δ α ρ} {t : Option (Task α ρ)} (hq : Queued s h t)
    (hstyle : s.inst.style = .exclusive) {u : Task α ρ} (hu : u ∈ t) : u.batch.length = 1 := by
  have hle : u.batch.length ≤ s.inst.cells.length := by
    obtain rfl := Option.mem_def.1 hu
    exact hq.cellInv.length_batch_le
  rw [hq.room.exclusive hstyle] at hle
  have hpos := List.length_pos_of_ne_nil (hq.requestInv.snapshots.ne_nil (hq.taken u hu))
  omega

section

variable {style : Style} {init : Copies α} {kind : IndicatorKind} {config : Config}
  {registry : Registry} {cells : Nat} {wait : WaitPolicy}

/-- `LogInv` holds at every point of every schedule. -/
lemma logInv_after
    (hroom : (Session.ofInstance (.fresh style init (.ofConfig kind config) registry cells wait) :
      Session Versioned Version Version α ρ).EnoughCells) (ticks : List (Tick α ρ)) :
    let p := (Point.start (.ofInstance
      (.fresh style init (.ofConfig kind config) registry cells wait) :
        Session Versioned Version Version α ρ)).after ticks
    LogInv p.inst p.history p.stage p.roundEvents := by
  set start : Session Versioned Version Version α ρ :=
    .ofInstance (.fresh style init (.ofConfig kind config) registry cells wait)
  have hexclusive : start.Exclusive .resting := Session.exclusive_fresh _ _ _ _ _ _
  induction ticks using List.reverseRecOn with
  | nil => exact .fresh style init kind config registry cells wait
  | append_singleton ticks t ih =>
    have hp := Point.exclusive_after (p := .start start) hexclusive ticks
    have hqueued := queued_after hroom ticks
    have hfits := Point.fits_after (p := .start start) hexclusive
      (Versioned.clean_ofConfig kind config) ticks
    intro p
    have hlast : p = ((Point.start start).after ticks).next t := Point.after_append _ _ _
    rw [hlast]
    rcases Point.idle_or_staged hp t with hidle | ⟨rfl, actions, hhistory, hstaged⟩
    · exact ih.idle hidle
    · obtain ⟨news, hnews, hroundEvents⟩ := ih.staged hstaged hfits fun hstyle u hu =>
        hqueued.length_batch hstyle (by rwa [Point.task?, Instance.task?_eq])
      rw [Point.roundEvents_staged hhistory hstaged hnews, hhistory]
      exact hroundEvents

end

/-! ## The round of a mutation -/

/-- A mutation that was reported as completed, with its number and side: at `q` its round waited for
readers, which were then reported to be gone; at `q'` both copies had the mutation; and at `r` it
was reported. No other round has begun in between, and no other event of rounds was reported. -/
structure CompletedRound (n : Nat) (side : Side) (earlier : List Event)
    (q q' r : Point Versioned Version Version α ρ) : Prop where
  own : ∃ batch old d, q.stage = .waiting ⟨batch, old, .clearing d⟩ ∧
    earlier = .readersDrained d.next :: q.roundEvents ∧ r.history = .completed batch :: q'.history
  drained : (q.next .writer).roundEvents = earlier
  between : q'.roundEvents = earlier
  taken : q'.history.taken = q.history.taken
  logged : r.roundEvents = .mutationApplied n side :: earlier
  mutations : r.inst.mutations = n
  activeSide : r.inst.activeSide = side

variable {p p' : Point Versioned Version Version α ρ}
  {actions : History Versioned Version Version α ρ}

/-- The round in its second pass at `p` was before this pass at `q`. -/
structure SecondPassSince (p q : Point Versioned Version Version α ρ) (batch : Batch α ρ)
    (old : Side) (d : Version) : Prop where
  stage : q.stage = .waiting ⟨batch, old, .clearing d⟩
  drained : (q.next .writer).roundEvents = .readersDrained d.next :: q.roundEvents
  between : p.roundEvents = .readersDrained d.next :: q.roundEvents
  taken : p.history.taken = q.history.taken

lemma SecondPassSince.idle {q : Point Versioned Version Version α ρ} {batch : Batch α ρ}
    {old : Side} {d : Version} (h : SecondPassSince p q batch old d) (hidle : p.Idle p') :
      SecondPassSince p' q batch old d := by
  obtain ⟨action, hhistory, haction⟩ := hidle.history
  refine ⟨h.stage, h.drained, hidle.roundEvents.trans h.between, ?_⟩
  rw [hhistory, History.taken_cons, h.taken]
  rcases haction with ⟨m, rfl⟩ | ⟨finished, log, rfl⟩ <;> exact List.append_nil _

/-- The tick that completes the batch completes the round. -/
lemma SecondPassSince.completedRound {q : Point Versioned Version Version α ρ} {batch : Batch α ρ}
    {old : Side} {d : Version} {n : Nat} (h : SecondPassSince p q batch old d)
    (hstage : p.stage = .passing .second batch [] old) (hfits : p.inst.gate.Fits p.stage)
    (hcompleted : p'.history = .completed batch :: p.history)
    (hroundEvents : p'.roundEvents = .mutationApplied n old.opposite :: p.roundEvents)
    (hmutations : p'.inst.mutations = n) (hgate : p'.inst.gate = p.inst.gate) :
    CompletedRound n old.opposite p.roundEvents q p p' where
  own := ⟨batch, old, d, h.stage, h.between, hcompleted⟩
  drained := h.drained.trans h.between.symm
  between := rfl
  taken := h.taken
  logged := hroundEvents
  mutations := hmutations
  activeSide := by
    rw [hstage] at hfits
    have hold : old = p.inst.activeSide.opposite := hfits.2
    rw [hold, Side.opposite_opposite]
    exact congrArg Versioned.side hgate

/-- The leading writer begins its second pass when it finds the readers gone, and stays in it while
it applies its batch. -/
lemma onSecond_staged (hhistory : p'.history = actions ++ p.history)
    (hstaged : Instance.Staged p.inst p.stage actions p'.inst p'.stage) {done rest : Batch α ρ}
    {old : Side} (hsecond : p'.stage = .passing .second done rest old) :
    p'.history.taken = p.history.taken ∧
      ((∃ done' rest', p.stage = .passing .second done' rest' old ∧ done' ++ rest' = done ++ rest ∧
        p'.roundEvents = p.roundEvents) ∨
      ∃ d, p.stage = .waiting ⟨done ++ rest, old, .clearing d⟩ ∧
        p'.roundEvents = .readersDrained d.next :: p.roundEvents) := by
  have hroundEvents : ∀ events, p'.inst.roundEvents = events ++ p.inst.roundEvents →
      p'.roundEvents = events ++ p.roundEvents :=
    fun _ => Point.roundEvents_staged hhistory hstaged
  rw [hhistory]
  rw [hsecond] at hstaged
  generalize p.stage = c at hstaged
  generalize p'.inst = t at hstaged hroundEvents
  cases hstaged with
  | quiet => exact ⟨rfl, .inl ⟨done, rest, rfl, rfl, hroundEvents [] rfl⟩⟩
  | apply hpass =>
    refine ⟨?_, .inl ⟨_, _, rfl, ?_, hroundEvents [] (Instance.roundEvents_pass hpass)⟩⟩
    · exact (History.taken_cons _ _).trans (List.append_nil _)
    · simp
  | clear => exact ⟨rfl, .inr ⟨_, rfl, hroundEvents [_] rfl⟩⟩

/-- A mutation of an exclusive writer is reported when its round is completed. -/
lemma applied_staged (hhistory : p'.history = actions ++ p.history)
    (hstaged : Instance.Staged p.inst p.stage actions p'.inst p'.stage)
    (hstyle : p.inst.style = .exclusive) :
    (∃ news, p'.roundEvents = news ++ p.roundEvents ∧ ∀ n side, .mutationApplied n side ∉ news) ∨
      ∃ batch old, p.stage = .passing .second batch [] old ∧
        p'.history = .completed batch :: p.history ∧
        p'.roundEvents = .mutationApplied (p.inst.mutations + batch.length) old.opposite ::
          p.roundEvents ∧
        p'.inst.mutations = p.inst.mutations + batch.length ∧ p'.inst.gate = p.inst.gate := by
  have hroundEvents : ∀ events, p'.inst.roundEvents = events ++ p.inst.roundEvents →
      p'.roundEvents = events ++ p.roundEvents :=
    fun _ => Point.roundEvents_staged hhistory hstaged
  generalize p.stage = c at hstaged
  generalize p'.stage = c' at hstaged
  generalize hinst : p'.inst = t at hstaged hroundEvents
  cases hstaged with
  | quiet | elect | turn | shift => exact .inl ⟨[], hroundEvents [] rfl, by simp⟩
  | apply hpass => exact .inl ⟨[], hroundEvents [] (Instance.roundEvents_pass hpass), by simp⟩
  | clear => exact .inl ⟨[_], hroundEvents [_] rfl, by simp [Gate.clearedEvent]⟩
  | @giveUp t q done rest old x f hpass =>
    refine .inl ⟨t.abandonEvents (done ++ x :: rest), hroundEvents _ ?_, ?_⟩
    · rw [Instance.roundEvents_abandon, Instance.roundEvents_pass hpass]
    · unfold Instance.abandonEvents
      cases t.style <;> simp
  | @complete batch old =>
    refine .inr ⟨batch, old, rfl, hhistory, ?_, ?_, p.inst.gate_complete batch old⟩
    · rw [← p.inst.completeEvent_of_exclusive hstyle]
      exact hroundEvents [_]
        (Instance.roundEvents_complete _ _ _ (p.inst.completeEvent_ofRound batch old))
    · obtain ⟨cells, writers, log, finished, hcomplete⟩ := p.inst.complete_frame batch old
      rw [hcomplete]
  | surplus hcleared => cases hcleared

section

variable {s : Session Versioned Version Version α ρ}

/-- A round in its second pass has found the readers gone, and has reported it. -/
lemma secondPassSince_after (hs : s.Exclusive .resting) (hround : s.inst.round = none)
    (ticks : List (Tick α ρ)) {done rest : Batch α ρ} {old : Side}
    (hsecond : ((Point.start s).after ticks).stage = .passing .second done rest old) :
    ∃ first mid d, ticks = first ++ .writer :: mid ∧
      SecondPassSince ((Point.start s).after ticks) ((Point.start s).after first)
        (done ++ rest) old d := by
  induction ticks using List.reverseRecOn generalizing done rest with
  | nil =>
    have hrest : (Point.start s).stage = .resting := Instance.stage_resting hround
    cases hrest.symm.trans hsecond
  | append_singleton ticks t ih =>
    have hlast : (Point.start s).after (ticks ++ [t]) = ((Point.start s).after ticks).next t :=
      Point.after_append _ _ _
    rw [hlast] at hsecond ⊢
    have hp := Point.exclusive_after (p := .start s) hs ticks
    rcases Point.idle_or_staged hp t with hidle | ⟨rfl, actions, hhistory, hstaged⟩
    · obtain ⟨first, mid, d, hticks, hentered⟩ := ih (hidle.stage ▸ hsecond)
      exact ⟨first, mid ++ [t], d, by rw [hticks]; simp, hentered.idle hidle⟩
    · obtain ⟨htaken, hbefore⟩ := onSecond_staged hhistory hstaged hsecond
      rcases hbefore with ⟨done', rest', hstage, hbatch, hroundEvents⟩ | ⟨d, hstage, hroundEvents⟩
      · obtain ⟨first, mid, d, hticks, hentered⟩ := ih hstage
        rw [hbatch] at hentered
        exact ⟨first, mid ++ [.writer], d, by rw [hticks]; simp, hentered.stage, hentered.drained,
          hroundEvents.trans hentered.between, htaken.trans hentered.taken⟩
      · exact ⟨ticks, [], d, rfl, hstage, hroundEvents, hroundEvents, htaken⟩

/-- An entry that is not among the latest ones of a record is among the earlier ones. -/
lemma exists_eq_append_of_notMem {β : Type} {e : β} {news record later earlier : List β}
    (h : news ++ record = later ++ e :: earlier) (hnew : e ∉ news) :
    ∃ later', record = later' ++ e :: earlier := by
  rcases List.append_eq_append_iff.1 h with ⟨later', -, hafter⟩ | ⟨news', hlater, hafter⟩
  · exact ⟨later', hafter⟩
  · cases news' with
    | nil => exact ⟨[], hafter.symm⟩
    | cons e' news' =>
      rw [(List.cons.inj hafter).1.symm] at hlater
      exact absurd (hlater ▸ List.mem_append_right later List.mem_cons_self) hnew

/-- Every mutation reported was reported at the end of its own round. -/
lemma completedRound_after (hs : s.Exclusive .resting) (hround : s.inst.round = none)
    (hclean : s.inst.gate.Clean) (hstyle : s.inst.style = .exclusive) (ticks : List (Tick α ρ))
    {later earlier : List Event} {n : Nat} {side : Side}
    (hroundEvents :
      ((Point.start s).after ticks).roundEvents = later ++ .mutationApplied n side :: earlier)
    (hstart : (Point.start s).roundEvents = []) :
    ∃ first mid rest, ticks = first ++ .writer :: (mid ++ .writer :: rest) ∧
      let q := (Point.start s).after first
      let q' := (q.next .writer).after mid
      CompletedRound n side earlier q q' (q'.next .writer) := by
  induction ticks using List.reverseRecOn generalizing later with
  | nil =>
    rw [Point.after_nil, hstart] at hroundEvents
    simp at hroundEvents
  | append_singleton ticks t ih =>
    have hlast : (Point.start s).after (ticks ++ [t]) = ((Point.start s).after ticks).next t :=
      Point.after_append _ _ _
    rw [hlast] at hroundEvents
    have hp := Point.exclusive_after (p := .start s) hs ticks
    -- what was reported before this tick is covered by the induction hypothesis
    have hearlier {later : List Event} (h : ((Point.start s).after ticks).roundEvents =
        later ++ .mutationApplied n side :: earlier) :
        ∃ first mid rest, ticks ++ [t] = first ++ .writer :: (mid ++ .writer :: rest) ∧
          let q := (Point.start s).after first
          let q' := (q.next .writer).after mid
          CompletedRound n side earlier q q' (q'.next .writer) := by
      obtain ⟨first, mid, rest, hticks, hcompletedRound⟩ := ih h
      exact ⟨first, mid, rest ++ [t], by rw [hticks]; simp, hcompletedRound⟩
    rcases Point.idle_or_staged hp t with hidle | ⟨rfl, actions, hhistory, hstaged⟩
    · exact hearlier (hidle.roundEvents ▸ hroundEvents)
    · have hexclusive : ((Point.start s).after ticks).inst.style = .exclusive :=
        (Point.style_after (p := .start s) hs ticks).trans hstyle
      rcases applied_staged hhistory hstaged hexclusive with
        ⟨news, hnews, hnone⟩ | ⟨batch, old, hstage, hcompleted, hnews, hmutations, hgate⟩
      · rw [hnews] at hroundEvents
        obtain ⟨later', hbefore⟩ := exists_eq_append_of_notMem hroundEvents (hnone n side)
        exact hearlier hbefore
      · rw [hnews] at hroundEvents
        cases later with
        | cons e later => exact hearlier (List.cons.inj hroundEvents).2
        | nil =>
          obtain ⟨hevent, rfl⟩ := List.cons.inj hroundEvents
          obtain ⟨rfl, rfl⟩ := Event.mutationApplied.inj hevent
          obtain ⟨first, mid, d, hticks, hentered⟩ := secondPassSince_after hs hround ticks hstage
          have hafter : (Point.start s).after ticks =
              (((Point.start s).after first).next .writer).after mid := by
            rw [hticks, Point.after_append, Point.after_cons]
          have hfits := Point.fits_after (p := .start s) hs
            (by rw [Point.start, Point.stage, Point.inst, Instance.stage_resting hround]
                exact hclean) ticks
          rw [List.append_nil] at hentered
          refine ⟨first, mid, [], by rw [hticks]; simp, ?_⟩
          change CompletedRound _ _ _ _ ((((Point.start s).after first).next .writer).after mid)
            (((((Point.start s).after first).next .writer).after mid).next .writer)
          rw [← hafter]
          exact hentered.completedRound hstage hfits hcompleted hnews hmutations hgate

end

/-! ## The two styles -/

/-- The writers with an outcome are those of the batches that have ended. -/
lemma History.map_fst_batchOutcomes (h : History Versioned Version Version α ρ)
    (hcompleted : ∀ later batch earlier, h = later ++ .completed batch :: earlier →
      (firsts earlier).map Prod.fst = batch.map Prod.snd) :
    h.batchOutcomes.map Prod.fst = h.endedBatches.flatMap fun x => x.1.map (·.2.writer) := by
  induction h with
  | nil => rfl
  | cons d h ih =>
    have hbefore := ih fun later batch earlier heq =>
      hcompleted (d :: later) batch earlier (heq ▸ rfl)
    rw [endedBatches_cons, List.flatMap_append, ← hbefore]
    cases d with
    | completed batch =>
      have hwriters : (firsts h).map (fun y => y.1.writer) = batch.map fun x => x.2.writer := by
        have hmap := congrArg (List.map Request.writer) (hcompleted [] batch h rfl)
        rwa [List.map_map, List.map_map] at hmap
      simp [batchOutcomes, Function.comp_def, hwriters]
    | abandoned batch => simp [batchOutcomes, map_fst_abandonOutcomes]
    | _ => exact (List.append_nil _).symm

/-- The log of exclusive writers at a point, and what it accounts for. -/
structure LogsMutations (p : Point Versioned Version Version α ρ) : Prop where
  /-- versions alternate beginning with one, mutations are numbered from one on, and each is
  reported directly after its readers are gone -/
  consistent : Whenever Event.Consistent p.roundEvents
  /-- each time that the readers were gone a mutation was completed, or ended in a fault in its
  second application, or is still in it -/
  drained : p.roundEvents.countP Event.isDrained =
    p.roundEvents.countP Event.isApplied + p.history.secondPassFaults + p.stage.onSecond.toNat
  mutations : p.inst.mutations = p.roundEvents.countP Event.isApplied

/-- The log of combining writers at a point, and what it accounts for. -/
structure LogsBatches (p : Point Versioned Version Version α ρ) : Prop where
  /-- batches are numbered from one on -/
  consistent : Whenever Event.Consistent p.roundEvents
  batches : p.inst.batches = p.roundEvents.countP Event.isCombined
  mutations : p.inst.mutations = (p.roundEvents.map Event.combinedSize).sum
  /-- the batches that have ended were reported, in order, with their lengths -/
  endedBatches : p.roundEvents.reverse.filterMap Event.batch? =
    p.history.endedBatches.map fun x => (x.1.length, x.2)
  /-- the finished writers were rejected, or are those of the batches that have ended -/
  done : (p.done.map Finished.writer).Perm
    (p.history.turnedAway ++ p.history.endedBatches.flatMap fun x => x.1.map (·.2.writer))
  once : (p.done.map Finished.writer).Nodup

namespace LogInv

lemma logsMutations (ht : LogInv p.inst p.history p.stage p.roundEvents)
    (hstyle : p.inst.style = .exclusive) : LogsMutations p := by
  obtain ⟨hmutations, hcompleted⟩ := ht.exclusive hstyle
  exact ⟨ht.consistent, hcompleted ▸ ht.drained, hmutations⟩

lemma logsBatches (ht : LogInv p.inst p.history p.stage p.roundEvents)
    (hstyle : p.inst.style = .combining) (hfaultInv : FaultInv p.session p.history p.task?)
    (hqueued : Queued p.session p.history p.task?) : LogsBatches p := by
  obtain ⟨hbatches, hmutations, hended⟩ := ht.combining hstyle
  refine ⟨ht.consistent, hbatches, hmutations, hended, ?_, ?_⟩
  · have hfinished := hfaultInv.deliveryInv.finished.map Prod.fst
    rw [List.map_map, List.map_append (f := Prod.fst), List.map_map,
      p.history.map_fst_batchOutcomes hfaultInv.deliveryInv.completed] at hfinished
    exact hfinished.trans (.of_eq (congrArg (· ++ _) (List.map_id _)))
  · have hnodup := hqueued.done.nodup_iff.2 List.nodup_range
    rw [← List.append_assoc] at hnodup
    have hdone := (List.nodup_append.1 hnodup).1
    rw [Point.done, List.map_append, List.map_reverse]
    exact (((List.reverse_perm _).append_left _).nodup_iff).2 hdone

end LogInv

/-- For every kind of read-indicator, every configuration and all initial copies, the log accounts
for the rounds at every point of every schedule, whatever mutations do, under both styles. Every
mutation of an exclusive writer that was reported was reported at the end of its own round, with its
number and the side that readers then joined. Every script is such a schedule, with the same events
as in the answers to its operations. -/
theorem log_accounts_for_rounds (kind : IndicatorKind) (c : Config) (init : Copies α) :
    (let start : Session Versioned Version Version α ρ := .ofInstance (.classic kind c init)
     (∀ ticks, LogsMutations ((Point.start start).after ticks)) ∧
      (∀ ticks later n side earlier,
        ((Point.start start).after ticks).roundEvents =
            later ++ .mutationApplied n side :: earlier →
          ∃ first mid rest, ticks = first ++ .writer :: (mid ++ .writer :: rest) ∧
            let q := (Point.start start).after first
            let q' := (q.next .writer).after mid
            CompletedRound n side earlier q q' (q'.next .writer)) ∧
      ∀ script, ∃ ticks, start.IsScheduleOf script ticks ∧
          ((Point.start start).after ticks).roundEvents.reverse =
            (Step.eventsOfAll (start.steps script).1).filter Event.ofRound) ∧
    (let start : Session Versioned Version Version α ρ := .ofInstance (.combining kind c init)
     (∀ ticks, LogsBatches ((Point.start start).after ticks)) ∧
      ∀ script, ∃ ticks, start.IsScheduleOf script ticks ∧
          ((Point.start start).after ticks).roundEvents.reverse =
            (Step.eventsOfAll (start.steps script).1).filter Event.ofRound) := by
  constructor
  · intro start
    have hs : start.Exclusive .resting := Session.exclusive_fresh _ _ _ _ _ _
    refine ⟨fun ticks => ?_, fun ticks later n side earlier hroundEvents => ?_, fun script => ?_⟩
    · exact (logInv_after (Session.enoughCells_exclusive _ _ _ _) ticks).logsMutations
        (Point.style_after (p := .start start) hs ticks)
    · exact completedRound_after hs rfl (Versioned.clean_ofConfig kind c) rfl ticks hroundEvents rfl
    · obtain ⟨ticks, hticks⟩ := Session.exists_isScheduleOf hs rfl script
      exact ⟨ticks, hticks, hticks.roundEvents_eq rfl⟩
  · intro start
    have hs : start.Exclusive .resting := Session.exclusive_fresh _ _ _ _ _ _
    have hroom : start.EnoughCells := Session.enoughCells_bounded rfl _ _ _ _
    refine ⟨fun ticks => ?_, fun script => ?_⟩
    · exact (logInv_after hroom ticks).logsBatches (Point.style_after (p := .start start) hs ticks)
        (faultInv_after hroom ticks) (queued_after hroom ticks)
    · obtain ⟨ticks, hticks⟩ := Session.exists_isScheduleOf hs rfl script
      exact ⟨ticks, hticks, hticks.roundEvents_eq rfl⟩

/-- A writer counts up, the outboxes are emptied, and another mutation ends in a fault in its second
application. -/
def countedThenTorn : List (Tick Nat Nat) :=
  [.caller .register, .caller (.mutate 0 (.ofFunction fun n => (n + 1, n)) false)] ++
    List.replicate 7 .writer ++ [.outbox, .caller (.mutate 0 torn false)] ++
    List.replicate 7 .writer

theorem log_accounts_for_rounds_torn :
    let start : Session Versioned Version Version Nat Nat :=
      .ofInstance (.classic .paired .standard ⟨5, 5⟩)
    let p := (Point.start start).after countedThenTorn
    let q := (Point.start (.ofInstance (.combining .single
      { maxThreads := 3, counterBuckets := 1, wait := .yield } ⟨5, 5⟩))).after
        (sharedRound ++ List.replicate 8 .writer)
    p.roundEvents = [.readersDrained .zero, .mutationApplied 1 .right, .readersDrained .one] ∧
      LogsMutations p ∧ p.history.secondPassFaults = 1 ∧
      (∃ first mid rest, countedThenTorn = first ++ .writer :: (mid ++ .writer :: rest) ∧
        let found := (Point.start start).after first
        let left := (found.next .writer).after mid
        CompletedRound 1 .right [.readersDrained .one] found left (left.next .writer)) ∧
      q.roundEvents = [.batchApplied 1 1, .readersDrained .zero, .batchAbandoned 2,
        .readersDrained .one] ∧ LogsBatches q := by
  have houtputInv := log_accounts_for_rounds (α := Nat) (ρ := Nat) .paired .standard ⟨5, 5⟩
  refine ⟨rfl, houtputInv.1.1 _, rfl, houtputInv.1.2.1 _ [.readersDrained .zero] _ _ _ rfl, rfl, ?_⟩
  exact (log_accounts_for_rounds .single { maxThreads := 3, counterBuckets := 1, wait := .yield }
    ⟨5, 5⟩).2.1 _

end TwinCopy
