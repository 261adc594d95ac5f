import TwinCopy.Proofs.Combining
import TwinCopy.Proofs.FaultInvariant
import TwinCopy.Proofs.Rounds

/-!
# Abandoned batches

A mutation may end in a fault in either pass of its round, after any change. Then the whole batch is
withdrawn: its cells are blank, its writers are finished, the lock is free, and neither the counts
nor the read-indicators have changed. Readers are given the copy from before the round if the fault
was in the first pass, and the copy with the whole batch if it was in the second. The requests
published during the round form the next batch.
-/

namespace TwinCopy

variable {α ρ : Type}

/-! ## Since the beginning of a round -/

/-- The current version at a stage of a round that began with the version `v`. -/
def Control.version (v : Version) : Control Version α ρ → Version
  | .passing .second .. | .waiting ⟨_, _, .clearing _⟩ => v.next
  | _ => v

/-- A round under way began at some point of the schedule, and the version that was current then
determines the current one. -/
lemma exists_began {s : Session Versioned Version Version α ρ} (hs : s.Exclusive .resting)
    (hround : s.inst.round = none) (hclean : s.inst.gate.Clean) (ticks : List (Tick α ρ)) :
    let p := (Point.start s).after ticks
    ∀ u ∈ p.stage.task?, ∃ before mid, ticks = before ++ .writer :: mid ∧
      let p₀ := (Point.start s).after before
      Since p₀ p.inst p.history u ∧
        p.inst.gate.current = p.stage.version p₀.inst.gate.current := by
  have hstart : (Point.start s).stage = .resting := Instance.stage_resting hround
  have hfits : ∀ ticks, let p := (Point.start s).after ticks; p.inst.gate.Fits p.stage :=
    Point.fits_after (p := Point.start s) hs (by rw [hstart]; exact hclean)
  refine exists_since (Q := fun s _ c => s.inst.gate.Fits c)
    (P := fun p₀ s _ c => s.inst.gate.current = c.version p₀.inst.gate.current)
    hs hround hfits (fun _ _ => rfl) (fun {p₀ s h c} m _ hversion => ?_) ?_ id ticks
  · exact (s.crossed_act m).sameVersions.current.trans hversion
  · intro p₀ s h c actions inst c' hstaged htask htask' hf hversion
    cases hstaged with
    | quiet | turn | clear => exact hversion
    | elect => exact absurd rfl htask
    | @apply _ pass done rest old x hpass =>
      obtain ⟨registry, note, hlook⟩ := Instance.pass_look hpass
      exact (hlook.sameVersions.current.trans hversion).trans (by cases pass <;> rfl)
    | shift =>
      -- the current version is still the one from when the side was turned
      obtain ⟨-, -, rfl⟩ := hf
      exact congrArg Version.next hversion
    | giveUp | complete | surplus => exact absurd rfl htask'

/-! ## The effect of abandoning a round -/

/-- The effect of a request of the batch that ends in a fault with this message; `p` is the point
before and `q` the one after. -/
structure Withdrawn (message : String) (batch : Batch α ρ) (r : Request α ρ)
    (p q : Point Versioned Version Version α ρ) : Prop where
  blank : ∀ x ∈ batch, cellAt q.inst.cells x.1 = {}
  untouched : ∀ i, i ∉ batch.map Prod.fst → cellAt q.inst.cells i = cellAt p.inst.cells i
  free : q.inst.lock.locked = false
  idle : q.task? = none
  counts : q.inst.mutations = p.inst.mutations ∧ q.inst.batches = p.inst.batches
  /-- the gate is as after the read, if any, that the request made -/
  gate : q.inst.gate = (p.inst.looked r).gate
  done : ∃ gone, q.inst.finished = gone ++ p.inst.finished ∧
    (gone.map Finished.answer).Perm (abandonOutcomes (.raised message) batch)
  inside : q.inst.writers.map Writer.id =
    (p.inst.writers.filter (·.cell ∉ batch.map Prod.fst)).map Writer.id
  /-- the pending requests are those published since the batch was taken -/
  left : (q.inst.published.map Prod.snd).Perm p.history.unclaimed
  next : q.inst.published ≠ [] → (q.next .writer).history = .took q.inst.published :: q.history

/-- If a request of a batch ends in a fault, the choice of the leading writer among those of the
batch affects only who gets the fault; `s` is the instance with the effect of the request. -/
def LeaderIndependent (message : String) (batch : Batch α ρ) (s : Instance Versioned Version α ρ)
    (p q : Point Versioned Version Version α ρ) : Prop :=
  ∀ leader ∈ batch.map (·.2.writer), ∃ gone,
    s.abandonAs (some leader) batch (.raised message) =
        { q.inst with finished := gone ++ p.inst.finished } ∧
      (gone.map Finished.answer).Perm (abandonOutcomesOf (some leader) (.raised message) batch)

/-- What readers are given at `q`, after a round that began at `p₀` was abandoned in a pass. -/
def Exposed (p₀ q : Point Versioned Version Version α ρ) (batch : Batch α ρ) : Pass → Prop
  | .first => q.inst.activeSide = p₀.inst.activeSide ∧
      q.inst.gate.current = p₀.inst.gate.current ∧
      ∀ k a, (q.session.act (.enter k)).1 = .ok (.copy a) →
        a = p₀.inst.copies.get p₀.inst.activeSide
  | .second => q.inst.activeSide = p₀.inst.activeSide.opposite ∧
      q.inst.gate.current = p₀.inst.gate.current.next ∧
      ∀ k a, (q.session.act (.enter k)).1 = .ok (.copy a) →
        a = replay (p₀.inst.copies.get p₀.inst.activeSide.opposite) (batch.map Prod.snd)

section

variable {p : Point Versioned Version Version α ρ} {pass : Pass} {done rest : Batch α ρ}
  {x : Nat × Request α ρ} {old : Side} {message : String}

/-- An abandoned batch has no further effect. -/
lemma FaultInv.withdrawn (hb : FaultInv p.session p.history p.task?)
    (hp : p.session.Exclusive p.control)
    (hcontrol : p.control = .passing pass done (x :: rest) old)
    (hraised : (x.2.mutation.apply pass.application
      (p.inst.copies.get (pass.target old))).outcome = .error message) :
    Withdrawn message (done ++ x :: rest) x.2 p (p.next .writer) := by
  obtain ⟨t, hpass, hnext⟩ := next_of_raised hcontrol hraised
  have htask : p.task? = some ⟨pass, done, x :: rest, old⟩ := Point.task?_of_passing hcontrol
  have hd : CellInv p.inst.cells p.inst.writers p.session.started _ := htask ▸ hb.cellInv
  have hr : RequestInv p.history p.inst _ := htask ▸ hb.requestInv
  obtain ⟨hcontrol', hround', hfree, hidle⟩ := rests_of_raised hp hcontrol hraised
  obtain ⟨registry, cells, log, gone, note, hspec, hnote, hcells, hgone⟩ :=
    Instance.giveUp_spec hd hpass
  have hq : (p.next .writer).inst = t.abandon (done ++ x :: rest) (.raised message) := by
    rw [hnext]
    rfl
  have hleft : ((p.next .writer).inst.published.map Prod.snd).Perm p.history.unclaimed := by
    rw [hq]
    exact hr.close hd (Instance.roundEnded_giveUp hd hpass)
  rw [hspec] at hq
  refine
    { blank := fun y hy => ?_
      untouched := fun i hi => ?_
      free := hfree
      idle := hidle
      counts := ?_
      gate := by rw [hq]
      done := ⟨gone, by rw [hq], hgone⟩
      inside := ?_
      left := hleft
      next := fun hpublished => ?_ }
  · rw [hq, hcells, if_pos (List.mem_map_of_mem hy)]
  · rw [hq, hcells, if_neg hi]
  · rw [hq]
    exact ⟨rfl, rfl⟩
  · rw [hq]
    simp only [List.filter_map, List.map_map, Function.comp_def, hnote]
  · -- the lock is free and no round is under way, so the next writer takes all pending requests
    have hstep := (Instance.Stepped.elect hround' hpublished hfree).eq
    rw [← hcontrol'] at hstep
    exact congrArg (·.1 ++ (p.next .writer).history) hstep

/-- The choice of the leading writer affects only who gets the fault. -/
lemma FaultInv.leaderIndependent (hb : FaultInv p.session p.history p.task?)
    (hcontrol : p.control = .passing pass done (x :: rest) old)
    (hraised : (x.2.mutation.apply pass.application
      (p.inst.copies.get (pass.target old))).outcome = .error message) :
    LeaderIndependent message (done ++ x :: rest)
      (p.inst.pass (pass.target old) pass.application [x]).2 p (p.next .writer) := by
  obtain ⟨t, hpass, hnext⟩ := next_of_raised hcontrol hraised
  have htask : p.task? = some ⟨pass, done, x :: rest, old⟩ := Point.task?_of_passing hcontrol
  have hd : CellInv p.inst.cells p.inst.writers p.session.started _ := htask ▸ hb.cellInv
  intro leader hleader
  rw [hpass, hnext]
  exact Instance.giveUp_leader hd hpass hleader

/-- Readers are given the copy from before the round, or the one with the whole batch. -/
lemma exposed_of_since {p₀ : Point Versioned Version Version α ρ}
    (hb : Since p₀ p.inst p.history ⟨pass, done, x :: rest, old⟩)
    (hcurrent : p.inst.gate.current = p.stage.version p₀.inst.gate.current)
    (hf : p.inst.gate.Fits p.stage) (hcontrol : p.control = .passing pass done (x :: rest) old)
    (hraised : (x.2.mutation.apply pass.application
      (p.inst.copies.get (pass.target old))).outcome = .error message) :
    Exposed p₀ (p.next .writer) (done ++ x :: rest) pass := by
  obtain ⟨t, hpass, hnext⟩ := next_of_raised hcontrol hraised
  have hstage : p.stage = .passing pass done (x :: rest) old := Point.stage_of_passing hcontrol
  rw [hstage] at hcurrent hf
  obtain ⟨registry, note, hlook⟩ := Instance.pass_look hpass
  have hq : (p.next .writer).inst = t.abandon (done ++ x :: rest) (.raised message) := by
    rw [hnext]
    rfl
  have hgate : (p.next .writer).inst.gate = t.gate := by rw [hq, Instance.gate_abandon]
  have hold : old = p₀.inst.activeSide := hb.old
  have hactive : (p.next .writer).inst.activeSide = (pass.target old).opposite := by
    change (p.next .writer).inst.gate.side = _
    rw [hgate, hlook.sameVersions.side, hf.2, Side.opposite_opposite]
  have hversion : (p.next .writer).inst.gate.current = _ :=
    hgate ▸ hlook.sameVersions.current.trans hcurrent
  -- the copy given to readers is not the one that the pass has changed
  have hcopy : (p.next .writer).inst.copies.get (pass.target old).opposite =
      p.inst.copies.get (pass.target old).opposite := by
    obtain ⟨cells, writers, log, finished, habandon⟩ :=
      t.abandon_frame (done ++ x :: rest) (.raised message)
    obtain ⟨_, gate, registry, log, note, -, -, rfl, -⟩ := Instance.pass_error hpass
    rw [hq, habandon]
    exact Copies.get_set_opposite _ _ _
  cases pass with
  | first =>
    simp only [Pass.target, Side.opposite_opposite] at hactive hcopy
    refine ⟨hactive.trans hold, hversion, fun k a hgiven => ?_⟩
    rw [Session.eq_of_enter hgiven, ← hold]
    change (p.next .writer).inst.copies.get (p.next .writer).inst.activeSide = _
    rw [hactive, hcopy]
    exact hb.active (.inl rfl)
  | second =>
    simp only [Pass.target] at hactive hcopy
    refine ⟨hactive.trans (congrArg _ hold), hversion, fun k a hgiven => ?_⟩
    rw [Session.eq_of_enter hgiven, ← hold]
    change (p.next .writer).inst.copies.get (p.next .writer).inst.activeSide = _
    rw [hactive, hcopy]
    exact hb.inactive

end

/-! ## Combining writers with arbitrary mutations -/

/-- At this point combining writers are served, whatever their mutations do. -/
structure Serves (p : Point Versioned Version Version α ρ) : Prop where
  /-- a batch consists of the requests published since the previous batch was taken -/
  snapshots : p.history.WheneverTaken Snapshot
  /-- the finished writers were rejected, or their batches were completed or abandoned -/
  answers : (p.done.map Finished.answer).Perm
    (p.history.turnedAway.map (·, .error (.misuse .foreignSlot)) ++ p.history.batchOutcomes)
  /-- an output is that of the first application of the writer's own mutation, since the batch was
  taken that has its request, and that batch was completed -/
  outputs : ∀ writer output, (writer, .ok output) ∈ p.done.map Finished.answer →
    ∃ later batch earlier, p.history = later ++ .completed batch :: earlier ∧
      ∃ r ∈ batch.map Prod.snd, r.writer = writer ∧ (r, .ok output) ∈ History.firsts earlier

lemma FaultInv.serves {p : Point Versioned Version Version α ρ}
    (hb : FaultInv p.session p.history p.task?) : Serves p where
  snapshots := hb.requestInv.snapshots
  answers := hb.deliveryInv.finished
  outputs writer output hmem := by
    rcases List.mem_append.1 (hb.deliveryInv.finished.mem_iff.1 hmem) with hmem | hmem
    · obtain ⟨_, -, heq⟩ := List.mem_map.1 hmem
      cases (Prod.mk.inj heq).2
    · obtain ⟨later, batch, earlier, r, hhistory, hr, hwriter⟩ :=
        History.exists_completed_of_ok hmem
      refine ⟨later, batch, earlier, hhistory, r, ?_, hwriter, hr⟩
      rw [← hb.deliveryInv.completed later batch earlier hhistory]
      exact List.mem_map_of_mem hr

/-- For every kind of read-indicator, at every point of every schedule: if an application of a batch
ends in a fault, in either pass, then apart from the copy given to readers nothing of the batch
remains, and no round is counted, whichever of its writers is the leading one; and every output is
from a completed batch. In particular this holds throughout every script. -/
theorem abandoned_batch_withdrawn (kind : IndicatorKind) (c : Config) (init : Copies α) :
    let start : Session Versioned Version Version α ρ := .ofInstance (.combining kind c init)
    (∀ ticks pass done x rest old message,
      let p := (Point.start start).after ticks
      let batch := done ++ x :: rest
      p.control = .passing pass done (x :: rest) old →
      (x.2.mutation.apply pass.application
        (p.inst.copies.get (pass.target old))).outcome = .error message →
      let q := p.next .writer
      Withdrawn message batch x.2 p q ∧
        LeaderIndependent message batch (p.inst.pass (pass.target old) pass.application [x]).2 p q ∧
        ∃ before mid, ticks = before ++ .writer :: mid ∧
          let p₀ := (Point.start start).after before
          (p₀.next .writer).history = .took batch :: p₀.history ∧
            p.history.taken = p₀.history.taken ++ [batch] ∧
            (q.inst.mutations = p₀.inst.mutations ∧ q.inst.batches = p₀.inst.batches) ∧
            Exposed p₀ q batch pass) ∧
      (∀ ticks, Serves ((Point.start start).after ticks)) ∧
      ∀ script, ∃ ticks, start.IsScheduleOf script ticks := by
  intro start
  have hs : start.Exclusive .resting := Session.exclusive_fresh _ _ _ _ _ _
  have hfaultInv := faultInv_after (α := α) (ρ := ρ)
    (Session.enoughCells_bounded rfl init (.ofConfig kind c) c.maxThreads c.wait)
  refine ⟨?_, fun ticks => (hfaultInv ticks).serves, Session.exists_isScheduleOf hs rfl⟩
  intro ticks pass done x rest old message p batch hcontrol hraised q
  have hfits : p.inst.gate.Fits p.stage :=
    Point.fits_after (p := Point.start start) hs (Versioned.clean_ofConfig kind c) ticks
  have hstage : p.stage.task? = some ⟨pass, done, x :: rest, old⟩ := by
    rw [Point.stage_of_passing hcontrol]
    rfl
  obtain ⟨before, mid, hticks, hsince, hcurrent⟩ :=
    exists_began hs rfl (Versioned.clean_ofConfig kind c) ticks _ hstage
  have hwithdrawn : Withdrawn message batch x.2 p q :=
    (hfaultInv ticks).withdrawn (Point.exclusive_after hs ticks) hcontrol hraised
  exact ⟨hwithdrawn, (hfaultInv ticks).leaderIndependent hcontrol hraised, before, mid, hticks,
    hsince.took, hsince.taken,
    ⟨hwithdrawn.counts.1.trans hsince.counts.1, hwithdrawn.counts.2.trans hsince.counts.2⟩,
    exposed_of_since hsince hcurrent hfits hcontrol hraised⟩

/-- A mutation that changes the copy, and ends in a fault in its second application. -/
def torn : Mutation Nat Nat :=
  ⟨fun application n => ⟨n + 10, if application = 2 then .error "torn" else .ok n⟩⟩

/-- A writer that counts up and one whose mutation ends in a fault share a round, and another one
that counts up publishes its request during the round. -/
def sharedRound : List (Tick Nat Nat) :=
  let count : Mutation Nat Nat := .ofFunction fun n => (n + 1, n)
  [.caller .register, .caller .register, .caller .register, .caller (.mutate 0 count false),
    .caller (.mutate 1 torn false), .writer, .writer, .writer, .caller (.mutate 2 count false),
    .writer, .writer, .writer, .writer]

theorem abandoned_batch_withdrawn_torn :
    let p := (Point.start (.ofInstance
      (.combining .single { maxThreads := 3, counterBuckets := 1, wait := .yield }
        ⟨5, 5⟩))).after sharedRound
    let q := p.next .writer
    (torn.apply 2 (p.inst.copies.get .left)).outcome = .error "torn" ∧
      (∃ x, p.control = .passing .second [x] [(1, ⟨1, torn, false⟩)] .left ∧
        Withdrawn "torn" [x, (1, ⟨1, torn, false⟩)] ⟨1, torn, false⟩ p q) ∧
      q.inst.copies = ⟨16, 16⟩ ∧
      (q.after (List.replicate 7 .writer)).done.map Finished.answer =
        [(0, .error (.raised "torn")), (1, noOutput), (2, .ok 16)] := by
  refine ⟨rfl, ⟨_, rfl, ?_⟩, rfl, rfl⟩
  have hwithdrawn := (abandoned_batch_withdrawn .single
    { maxThreads := 3, counterBuckets := 1, wait := .yield } ⟨5, 5⟩).1 sharedRound
  exact (hwithdrawn .second _ _ _ _ "torn" rfl rfl).1

end TwinCopy
