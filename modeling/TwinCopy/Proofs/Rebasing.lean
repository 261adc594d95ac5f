import TwinCopy.Proofs.ScriptSchedule
import TwinCopy.Proofs.Tracking
import TwinCopy.Session.Setup

/-!
# Narrow counters are exact

In the gate without versions a writer turns the side by one exchange, which splits the readers of
the old side between the word taken out and the fresh one. `Balanced` relates both to the readers in
flight: the word has the counts of the history, these agree with the readers in flight, and what a
writer waits for (`Counts.At`) consists of the departures taken out, those counted since, and the
readers still in flight. Departures may rebase the counts at any time, also while a writer waits.
The invariant implies what readers and writers rely on, `Accurate`, and that the events about
readers are correct.
-/

namespace TwinCopy

open IngressWord

variable {α ρ : Type}

/-- The readers on the inactive side: none, or while a writer waits those of its backlog that have
not departed since. -/
def IngressWord.Counts.At (c : Counts) (sides behind : List Side) : Control Backlog α ρ → Prop
  | .resting => sides.count c.side.opposite = 0
  | .passing p _ _ old => p.target old = c.side.opposite ∧ sides.count c.side.opposite = 0
  | .waiting r =>
      let d := r.phase.awaited
      r.old = c.side.opposite ∧ d.side = r.old ∧
        d.ingress.toNat = d.carried.toNat + (c.egress r.old + sides.count r.old) ∧
        d.ingress.toNat = d.carried.toNat + behind.count r.old

namespace IngressWord.Counts.At

variable {c c' : Counts} {sides sides' behind : List Side} {x : Control Backlog α ρ}

/-- `At` depends on the counts and the readers of the inactive side only. -/
lemma congr (h : c.At sides behind x) (hside : c'.side = c.side)
    (hfewer : sides'.count c.side.opposite ≤ sides.count c.side.opposite)
    (hcounted : c'.egress c.side.opposite + sides'.count c.side.opposite =
      c.egress c.side.opposite + sides.count c.side.opposite) : c'.At sides' behind x := by
  cases x with
  | resting =>
    have hnone : sides.count c.side.opposite = 0 := h
    change sides'.count c'.side.opposite = 0
    rw [hside]
    exact Nat.eq_zero_of_le_zero (hnone ▸ hfewer)
  | passing p done rest old =>
    obtain ⟨htarget, hnone⟩ := h
    rw [← hside] at htarget hnone
    refine ⟨htarget, ?_⟩
    rw [← hside] at hfewer
    exact Nat.eq_zero_of_le_zero (hnone ▸ hfewer)
  | waiting r =>
    obtain ⟨hold, hwaits, hleft, hbehind⟩ := h
    refine ⟨hold.trans (congrArg Side.opposite hside.symm), hwaits, ?_, hbehind⟩
    rw [hold] at hleft ⊢
    rw [hcounted]
    exact hleft

end IngressWord.Counts.At

/-- The gate has the counts of the history, and they agree with the readers in flight. -/
structure Balanced (s : Session IngressWord Side Backlog α ρ)
    (h : History IngressWord Side Backlog α ρ) (c : Control Backlog α ρ) : Prop where
  keeps : s.inst.gate.Keeps h.counts
  tracks : h.counts.Tracks h.inFlight
  at_stage : h.counts.At h.inFlight h.atTurn c

namespace Balanced

variable {s s' : Session IngressWord Side Backlog α ρ} {t : Instance IngressWord Backlog α ρ}
  {h actions : History IngressWord Side Backlog α ρ} {c c' : Control Backlog α ρ}

lemma moved {m : Move α ρ} (hcrossed : s.Crossed (s.crossing m) s')
    (hbacked : History.Backed (.moved s m :: h))
    (hpeak : History.peak (.moved s m :: h) ≤ 2 ^ 19) (hs : Balanced s h c) :
    Balanced s' (.moved s m :: h) c := by
  have hpreserved :=
    hcrossed.preserved hs.keeps hs.tracks hbacked.2 (History.length_inFlight_le hpeak)
  exact ⟨hpreserved.keeps, hpreserved.tracks,
    hs.at_stage.congr hpreserved.side hpreserved.fewer hpreserved.counted⟩

/-- An application preserves the agreement of the counts with the readers in flight. -/
lemma applied {side : Side} {p : Pass} {x : Nat × Request α ρ} {result : Except Fault Unit}
    (hpass : s.inst.pass side p.application [x] = (result, t))
    (hpeak : History.peak (.applied s.inst side p x.2 :: h) ≤ 2 ^ 19) (hs : Balanced s h c) :
    let counts := History.counts (.applied s.inst side p x.2 :: h)
    t.gate.Keeps counts ∧ counts.Tracks h.inFlight ∧ counts.side = h.counts.side ∧
      s.inst.Reports (· = .ingressRebased (h.inFlight.count counts.side)) t := by
  intro counts
  obtain ⟨hkeeps, htracks, hside, hreports⟩ := Instance.pass_keeps hpass hs.keeps hs.tracks
    (History.length_le_of_peak hpeak)
  refine ⟨hkeeps, htracks, hside, ?_⟩
  rw [show counts.side = h.counts.side from hside]
  exact hreports

/-- A writer that waits finds out whether the old side has readers in flight. -/
lemma cleared {batch : Batch α ρ} {old : Side} {phase : Phase Backlog}
    (hs : Balanced s h (.waiting ⟨batch, old, phase⟩)) :
    s.inst.gate.cleared phase.awaited = .ok (h.inFlight.count old == 0) := by
  obtain ⟨-, hwaits, hleft, -⟩ := hs.at_stage
  simp only at hwaits hleft
  rw [hs.keeps.cleared (by rw [hwaits]; omega), hwaits]
  refine congrArg _ ?_
  rw [Bool.eq_iff_iff, beq_iff_eq, beq_iff_eq]
  omega

lemma staged (hstaged : Instance.Staged s.inst c actions t c')
    (hpeak : History.peak (actions ++ h) ≤ 2 ^ 19) (hs : Balanced s h c) :
    Balanced { s with inst := t } (actions ++ h) c' := by
  have hkeeps := hs.keeps
  have htracks := hs.tracks
  have hat := hs.at_stage
  cases hstaged with
  | quiet | shift => exact ⟨hkeeps, htracks, hat⟩
  | elect => exact ⟨hkeeps, htracks, congrArg Side.opposite hkeeps.side_eq, hat⟩
  | apply hpass =>
    obtain ⟨hkeeps', htracks', hside, -⟩ := hs.applied (h := h) hpass hpeak
    refine ⟨hkeeps', htracks', ?_⟩
    obtain ⟨htarget, hnone⟩ := hat
    rw [← hside] at htarget hnone
    exact ⟨htarget, hnone⟩
  | giveUp hpass =>
    have hpeak' := Nat.le_trans (History.peak_le_append [.abandoned _] _) hpeak
    obtain ⟨hkeeps', htracks', hside, -⟩ := hs.applied (h := h) hpass hpeak'
    refine ⟨?_, htracks', ?_⟩
    · rw [Instance.gate_abandon]
      exact hkeeps'
    · -- whichever pass ends in a fault, no reader is on the other side
      obtain ⟨-, hnone⟩ := hat
      rw [← hside] at hnone
      exact hnone
  | @turn batch old =>
    obtain ⟨hold, hnone⟩ := hat
    obtain ⟨hside, hingress, hcarried, hturned⟩ := hkeeps.exchange
    have hlength : h.inFlight.length ≤ 2 ^ 19 := History.length_inFlight_le hpeak
    have hactive : old = h.counts.side := by
      rw [← Side.opposite_opposite old, ← Side.opposite_opposite h.counts.side]
      exact congrArg Side.opposite hold
    -- the fresh word has no departures yet, all of them are in the word taken out
    have hsplit : s.inst.gate.exchange.1.ingress.toNat =
        s.inst.gate.exchange.1.carried.toNat + h.inFlight.count old := by
      rw [hingress, hcarried, hactive]
      exact htracks.active
    refine ⟨hturned, Counts.Tracks.turn hnone hlength, ?_, hside.trans hactive.symm, ?_, hsplit⟩
    · exact hactive.trans (Side.opposite_opposite _).symm
    · change s.inst.gate.exchange.1.ingress.toNat =
        s.inst.gate.exchange.1.carried.toNat + (h.counts.turn.egress old + h.inFlight.count old)
      rw [Counts.egress_turn, Nat.zero_add]
      exact hsplit
  | @clear batch old d hcleared =>
    have hanswer := Except.ok.inj (hs.cleared.symm.trans hcleared)
    obtain ⟨hold, -⟩ := hat
    refine ⟨hkeeps, htracks, hold, ?_⟩
    change h.inFlight.count h.counts.side.opposite = 0
    rw [← show old = h.counts.side.opposite from hold]
    exact beq_iff_eq.1 hanswer
  | complete =>
    refine ⟨?_, htracks, hat.2⟩
    rw [Instance.gate_complete]
    exact hkeeps
  | surplus hcleared => cases hs.cleared.symm.trans hcleared

end Balanced

/-! ## Departures -/

/-- A reader of this side can depart. -/
structure IngressWord.Departs (g : IngressWord) (s : Side) : Prop where
  /-- the departure is accepted -/
  accepted : ∃ events, (g.depart s).1 = .ok events
  /-- rebasing subtracts no more than the arrivals -/
  covered : let f := Fields.unpack (g.word + egressUnit s)
    f.egress f.side ≤ f.ingress
  /-- the departure leaves less than `2 ^ 19` arrivals, or no departures counted on the active
  side -/
  low : let g' := (g.depart s).2
    g'.fields.ingress < threshold ∨ g'.fields.egress g'.side = 0

lemma IngressWord.Keeps.departs {g : IngressWord} {c : Counts} {s : Side} {sides : List Side}
    (hk : g.Keeps c) (ht : c.Tracks (s :: sides)) : g.Departs s := by
  obtain ⟨hroom, hbacked⟩ := ht.backed
  obtain ⟨hreports, hleft⟩ := hk.depart hroom hbacked
  have hcount := hk.count hroom
  refine ⟨⟨_, hreports⟩, ?_, ?_⟩
  · have hside : (Fields.unpack (g.word + egressUnit s)).side = c.side :=
      hcount.side_eq.trans (Counts.side_count _ _)
    intro f
    rw [show f.side = c.side from hside]
    exact hcount.egress_le (Counts.ingress_count c s ▸ hbacked)
  · intro g'
    rcases c.depart_low s with hlow | hzero
    · left
      rw [UInt64.lt_iff_toNat_lt, hleft.toNat_ingress]
      exact hlow
    · right
      rw [← UInt64.toNat_inj, hleft.toNat_egress, hleft.side_eq, Counts.side_depart]
      exact hzero

/-- A read with a new slot succeeds, and its departure has these properties. -/
def Instance.Prompt (s : Instance IngressWord Backlog α ρ) : Prop :=
  s.gate.arrive.2.Departs s.gate.arrive.1 ∧ s.readAnew.1 = .ok (s.copies.get s.activeSide)

/-- The read that an application is about to make succeeds. -/
lemma Balanced.prompt {s : Session IngressWord Side Backlog α ρ}
    {h : History IngressWord Side Backlog α ρ} {c : Control Backlog α ρ} (hs : Balanced s h c)
    {side : Side} {p : Pass} {r : Request α ρ}
    (hpeak : History.peak (.applied s.inst side p r :: h) ≤ 2 ^ 19)
    (hobserved : r.observed = true) :
    s.inst.Prompt := by
  have hlength := History.length_le_of_peak hpeak
  rw [Instance.arrivals_eq_one hobserved] at hlength
  obtain ⟨gate, -, hread⟩ := Instance.readAnew_eq hs.keeps hs.tracks.toActiveExact hlength
  refine ⟨?_, by rw [hread]⟩
  have hticket : s.inst.gate.arrive.1 = h.counts.side := hs.keeps.side_eq
  rw [hticket]
  exact (hs.keeps.arrive (hs.tracks.room hlength)).departs hs.tracks.arrive

/-! ## Reported events -/

/-- The numbers of readers in an event are correct: those in flight on the active side, and those
left on the other side. The event does not report an unmatched departure. -/
def Event.Tells (flight behind : List Side) (active : Side) : Event → Prop
  | .ingressRebased n => n = flight.count active
  | .ingressDrained n => n = behind.count active.opposite
  | .misused m => m ≠ .unmatchedDeparture
  | _ => True

namespace Balanced

variable {s s' : Session IngressWord Side Backlog α ρ} {t : Instance IngressWord Backlog α ρ}
  {h actions : History IngressWord Side Backlog α ρ} {c c' : Control Backlog α ρ}

/-- Every reader in flight can depart. -/
lemma departs (hs : Balanced s h c) {side : Side} (hmem : side ∈ h.inFlight) :
    s.inst.gate.Departs side :=
  hs.keeps.departs (hs.tracks.perm (List.perm_cons_erase hmem))

lemma depart_ne_error (hs : Balanced s h c) {side : Side} (hmem : side ∈ h.inFlight) {slot : Nat}
    {m : Misuse} {gate : IngressWord} :
    Gate.depart s.inst.gate slot side ≠ (.error m, gate) := by
  intro hdepart
  obtain ⟨events, haccepted⟩ := (hs.departs hmem).accepted
  cases haccepted.symm.trans (congrArg Prod.fst hdepart)

/-- The event of a departure reports the number of readers left in flight. -/
lemma departed_tells {slot : Nat} {ticket : Side} {events : List Event} {gate : IngressWord}
    {behind : List Side} (hs : Balanced s h c) (hmem : ticket ∈ h.inFlight)
    (hdepart : Gate.depart s.inst.gate slot ticket = (.ok events, gate)) :
    ∀ e ∈ events.reverse, e.Tells (h.inFlight.erase ticket) behind h.counts.side := by
  intro e he
  have htracks := hs.tracks.perm (List.perm_cons_erase hmem)
  have hreports := (hs.keeps.depart htracks.backed.1 htracks.backed.2).1
  have hevents : events = h.counts.reports ticket :=
    Except.ok.inj ((congrArg Prod.fst hdepart).symm.trans hreports)
  rw [List.mem_reverse, hevents] at he
  rw [htracks.eq_of_mem_reports he]
  rfl

/-- The events reported by a move are correct. -/
lemma moved_reports {m : Move α ρ} {r : Except Failure (Answer Side α)} (hm : s.Moved m r s')
    (hcrossed : s.Crossed (s.crossing m) s') (hbacked : History.Backed (.moved s m :: h))
    (hpeak : History.peak (.moved s m :: h) ≤ 2 ^ 19) (hs : Balanced s h c) :
    s.inst.Reports (Event.Tells (History.inFlight (.moved s m :: h))
      (History.atTurn (.moved s m :: h)) s'.inst.activeSide) s'.inst := by
  have hpreserved :=
    hcrossed.preserved hs.keeps hs.tracks hbacked.2 (History.length_inFlight_le hpeak)
  have hside : s'.inst.activeSide = h.counts.side := hpreserved.keeps.side_eq.trans hpreserved.side
  have hbacked' : (s.crossing m).Backed h.inFlight := hbacked.2
  have hflight : History.inFlight (.moved s m :: h) = (s.crossing m).flight h.inFlight := rfl
  rw [hside, hflight]
  clear hpreserved hside hflight hcrossed
  cases hm with
  | refused m f hlog =>
    rcases hlog with rfl | ⟨e, hrejects, rfl⟩
    · exact .of_log_eq rfl
    · -- this gate refuses no arrivals
      have hforeign : e = .foreignSlot := hrejects.resolve_right (by rintro ⟨_, ⟨⟩⟩)
      exact .of_log_cons (e := .misused e) (by rw [hforeign]; nofun) rfl
  | registered | churned | foreignRegistered =>
    exact .of_log_cons (e := .slotRegistered _) trivial rfl
  | turnedAway => exact .of_log_cons (e := .misused .foreignSlot) nofun rfl
  | @departed k n slot events gate hstyle hslot hissuer hdepart =>
    rw [Session.crossing_depart hstyle hslot hissuer] at hbacked' ⊢
    exact ⟨_, rfl, hs.departed_tells hbacked' hdepart⟩
  | @departFailed k n slot m gate hstyle hslot hissuer hdepart =>
    rw [Session.crossing_depart hstyle hslot hissuer] at hbacked'
    exact absurd hdepart (hs.depart_ne_error hbacked')
  | @left gaveUp v visits events gate _ hvisits hdepart =>
    rw [Session.crossing_leave hvisits] at hbacked' ⊢
    exact ⟨_, rfl, hs.departed_tells hbacked' hdepart⟩
  | @leaveFailed gaveUp v visits m gate f hvisits hdepart =>
    rw [Session.crossing_leave hvisits] at hbacked'
    exact absurd hdepart (hs.depart_ne_error hbacked')
  | _ => exact .of_log_eq rfl

/-- The events reported by a step of the leading writer are correct. -/
lemma staged_reports (hstaged : Instance.Staged s.inst c actions t c')
    (hpeak : History.peak (actions ++ h) ≤ 2 ^ 19) (hs : Balanced s h c) :
    s.inst.Reports (Event.Tells (History.inFlight (actions ++ h)) (History.atTurn (actions ++ h))
      t.activeSide) t := by
  have hside : t.activeSide = (History.counts (actions ++ h)).side :=
    (hs.staged hstaged hpeak).keeps.side_eq
  rw [hside, History.inFlight_append hstaged.crossing]
  clear hside
  cases hstaged with
  | quiet | elect | turn | shift => exact .of_log_eq rfl
  | apply hpass =>
    obtain ⟨-, -, -, hreports⟩ := hs.applied (h := h) hpass hpeak
    exact hreports.mono fun e he => he ▸ rfl
  | giveUp hpass =>
    have hpeak' := Nat.le_trans (History.peak_le_append [.abandoned _] _) hpeak
    obtain ⟨-, -, -, hreports⟩ := hs.applied (h := h) hpass hpeak'
    refine (hreports.mono fun e he => ?_).trans ((Instance.abandon_reports _ _ _).mono ?_)
    · exact he ▸ rfl
    · rintro e (rfl | rfl)
      · nofun
      · trivial
  | @clear batch old d hcleared =>
    obtain ⟨hold, -, -, hbehind⟩ := hs.at_stage
    simp only [Phase.awaited] at hold hbehind
    have hle : d.carried ≤ d.ingress := by
      rw [UInt64.le_iff_toNat_le, hbehind]
      exact Nat.le_add_right _ _
    have hdrained : (d.ingress - d.carried).toNat = h.atTurn.count h.counts.side.opposite := by
      rw [UInt64.toNat_sub_of_le _ _ hle, hbehind, Nat.add_sub_cancel_left, hold]
    exact .of_log_cons (e := .ingressDrained _) hdrained rfl
  | complete =>
    refine (s.inst.complete_reports _ _).mono ?_
    rintro e (rfl | rfl)
    · nofun
    · cases s.inst.style <;> trivial
  | surplus hcleared => cases hs.cleared.symm.trans hcleared

end Balanced

/-! ## At every point -/

/-- The invariant of a fresh instance. -/
lemma balanced_start (c : Config) (init : Copies α) :
    Balanced (.ofInstance (.ingressWord c init)) []
      (Point.start (.ofInstance (.ingressWord c init)) :
        Point IngressWord Side Backlog α ρ).stage :=
  ⟨.fresh, Counts.tracks_nil, rfl⟩

/-- `Balanced` holds at every point of every schedule. -/
lemma balanced_after (c : Config) (init : Copies α) (ticks : List (Tick α ρ)) :
    let p := (Point.start (.ofInstance (.ingressWord c init))).after ticks
    p.history.Backed → p.history.peak ≤ 2 ^ 19 →
      Balanced p.session p.history p.stage ∧ p.history.Looked Instance.Prompt := by
  refine Point.stage_after
    (P := fun s h c => h.Backed → h.peak ≤ 2 ^ 19 → Balanced s h c ∧ h.Looked Instance.Prompt)
    (fun {s h c m r s'} _ hact hm hP hbacked hpeak => ?_)
    (fun hstaged hP hbacked hpeak => ?_) (fun hP hbacked hpeak => ?_) ?_
    fun _ _ => ⟨balanced_start c init, .nil⟩
  · obtain ⟨hs, hlooked⟩ := hP hbacked.1 (Nat.le_trans (History.peak_le_append [_] _) hpeak)
    have hcrossed := s.crossed_act m
    rw [hact] at hcrossed
    exact ⟨hs.moved hcrossed hbacked hpeak, hlooked.cons (by simp)⟩
  · obtain ⟨hs, hlooked⟩ := hP hbacked.of_append (Nat.le_trans (History.peak_le_append _ _) hpeak)
    refine ⟨hs.staged hstaged hpeak, hlooked.staged hstaged ?_⟩
    rintro side p r more rfl
    rw [List.append_assoc] at hpeak
    exact hs.prompt (Nat.le_trans (History.peak_le_append _ _) hpeak)
  · obtain ⟨hs, hlooked⟩ := hP hbacked.1 (Nat.le_trans (History.peak_le_append [_] _) hpeak)
    exact ⟨⟨hs.keeps, hs.tracks, hs.at_stage⟩, hlooked.cons (by simp)⟩
  · exact Session.exclusive_fresh _ _ _ _ _ _

/-- At this point the narrow counters account for the readers. -/
structure Accurate (p : Point IngressWord Side Backlog α ρ) : Prop where
  /-- the fields of the word are the counts without overflow -/
  exact : p.inst.gate.fields.counts = p.history.counts
  /-- and the word contains nothing else -/
  whole : p.inst.gate.fields.pack = p.inst.gate.word
  /-- the arrivals minus the departures are the readers in flight on the active side -/
  active : p.inst.gate.fields.ingress.toNat =
    (p.inst.gate.fields.egress p.inst.activeSide).toNat +
      p.history.inFlight.count p.inst.activeSide
  /-- while a writer waits, the readers in flight on the old side are those of its backlog that have
  departed neither before the turn nor since -/
  draining : ∀ r, p.stage = .waiting r →
    r.old = p.inst.activeSide.opposite ∧
      r.phase.awaited.ingress.toNat = r.phase.awaited.carried.toNat +
        ((p.inst.gate.fields.egress r.old).toNat + p.history.inFlight.count r.old)
  /-- otherwise no reader is on the inactive side -/
  quiet : (∀ r, p.stage ≠ .waiting r) → p.history.inFlight.count p.inst.activeSide.opposite = 0
  /-- readers in flight can depart -/
  departs : ∀ s ∈ p.history.inFlight, p.inst.gate.Departs s
  /-- the reads within applications have succeeded -/
  looks : p.history.Looked Instance.Prompt
  /-- a writer that waits finds out whether the readers in flight on the old side are gone -/
  cleared : ∀ r, p.stage = .waiting r →
    p.inst.gate.cleared r.phase.awaited = .ok (p.history.inFlight.count r.old == 0)
  /-- a mutation that is about to be applied for the second time finds none there -/
  second : ∀ done x rest old, p.control = .passing .second done (x :: rest) old →
    p.history.inFlight.count old = 0

/-- `Balanced` implies that the narrow counters account for the readers. -/
lemma Balanced.accurate {p : Point IngressWord Side Backlog α ρ}
    (hs : Balanced p.session p.history p.stage) (hlooked : p.history.Looked Instance.Prompt) :
    Accurate p := by
  have hside : p.inst.activeSide = p.history.counts.side := hs.keeps.side_eq
  have hegress : ∀ s, (p.inst.gate.fields.egress s).toNat = p.history.counts.egress s :=
    hs.keeps.toNat_egress
  refine
    { exact := hs.keeps.counts_fields
      whole := hs.keeps.pack_fields
      active := ?_
      draining := fun r hr => ?_
      quiet := fun hwaiting => ?_
      departs := fun s hmem => hs.departs hmem
      looks := hlooked
      cleared := fun r hr => (hr ▸ hs).cleared
      second := fun done x rest old hcontrol => ?_ }
  · rw [hegress, hside]
    exact hs.keeps.toNat_ingress.trans hs.tracks.active
  · have hat := hs.at_stage
    rw [hr] at hat
    obtain ⟨hold, -, hleft, -⟩ := hat
    rw [hegress, hside]
    exact ⟨hold, hleft⟩
  · have hat := hs.at_stage
    rw [hside]
    rcases hstage : p.stage with _ | ⟨pass, done, rest, old⟩ | r
    · rw [hstage] at hat
      exact hat
    · rw [hstage] at hat
      exact hat.2
    · exact absurd hstage (hwaiting r)
  · have hstage : p.stage = .passing .second done (x :: rest) old := Point.stage_of_passing hcontrol
    have hat := hs.at_stage
    rw [hstage] at hat
    obtain ⟨hold, hnone⟩ := hat
    rw [show old = p.history.counts.side.opposite from hold]
    exact hnone

/-- The events reported by the next tick are correct, whichever it is. -/
lemma Balanced.next_reports {p : Point IngressWord Side Backlog α ρ}
    (hp : p.session.Exclusive p.control) (hs : Balanced p.session p.history p.stage)
    {t : Tick α ρ} (ht : t ≠ .outbox) (hbacked : (p.next t).history.Backed)
    (hpeak : (p.next t).history.peak ≤ 2 ^ 19) :
    p.inst.Reports (Event.Tells (p.next t).history.inFlight (p.next t).history.atTurn
      (p.next t).inst.activeSide) (p.next t).inst := by
  cases t with
  | caller m =>
    exact hs.moved_reports (p.session.moved_act m) (p.session.crossed_act m) hbacked hpeak
  | writer => exact hs.staged_reports (Point.staged_next_writer hp) hpeak
  | outbox => exact absurd rfl ht

/-- The narrow counters of a word without versions account for the readers, however often they are
rebased: at every point of every schedule whose departures are those of readers in flight, as long
as there are never more than `2 ^ 19` of these at once. Every script is such a schedule. -/
theorem narrow_counters_accurate (c : Config) (init : Copies α) :
    let start : Session IngressWord Side Backlog α ρ := .ofInstance (.ingressWord c init)
    (∀ ticks, let p := (Point.start start).after ticks
      p.history.Backed → p.history.peak ≤ 2 ^ 19 → Accurate p) ∧
      (∀ ticks t, let p := (Point.start start).after ticks
        let q := p.next t
        t ≠ .outbox → q.history.Backed → q.history.peak ≤ 2 ^ 19 →
          p.inst.Reports (Event.Tells q.history.inFlight q.history.atTurn q.inst.activeSide)
            q.inst) ∧
      ∀ script, ∃ ticks, start.IsScheduleOf script ticks := by
  intro start
  have hexclusive : start.Exclusive .resting := Session.exclusive_fresh _ _ _ _ _ _
  refine ⟨fun ticks hbacked hpeak => ?_, fun ticks t ht hbacked hpeak => ?_,
    Session.exists_isScheduleOf hexclusive rfl⟩
  · obtain ⟨hs, hlooked⟩ := balanced_after c init ticks hbacked hpeak
    exact hs.accurate hlooked
  · obtain ⟨actions, hactions⟩ := ((Point.start start).after ticks).history_next t
    obtain ⟨hs, -⟩ := balanced_after c init ticks (hactions ▸ hbacked).of_append
      (Nat.le_trans (History.peak_le_append _ _) (hactions ▸ hpeak))
    exact hs.next_reports (Point.exclusive_after hexclusive ticks) ht hbacked hpeak

/-- A raw reader and a query are inside when a writer begins; it makes a read, turns the side and
waits for both. When the next query has begun they are gone, and the writer is about to find out. -/
def drainedWhileReading : List (Tick Nat Nat) :=
  let grown : Mutation Nat Nat := ⟨fun _ n => ⟨n + 1, .ok n⟩⟩
  [.caller (.arrive 0), .caller (.enter 0), .caller (.mutate 0 grown true), .writer,
    .writer, .writer,
    .writer, .writer, .caller (.leave false), .caller (.enter 0), .caller (.depart 0 0), .writer]

theorem narrow_counters_accurate_drained :
    let p := (Point.start (.ofInstance (.ingressWord .standard ⟨5, 5⟩))).after drainedWhileReading
    let q := p.next .writer
    p.history.Backed ∧ p.history.peak = 3 ∧ Accurate p ∧ p.history.inFlight = [.right] ∧
      q.history.Backed ∧ q.history.peak = 3 ∧
      p.inst.Reports (Event.Tells q.history.inFlight q.history.atTurn q.inst.activeSide) q.inst ∧
      q.inst.log = .ingressDrained 2 :: p.inst.log := by
  refine ⟨by decide +kernel, by decide +kernel, ?_, by decide +kernel, by decide +kernel,
    by decide +kernel, ?_, by decide +kernel⟩
  · exact (narrow_counters_accurate .standard ⟨5, 5⟩).1 drainedWhileReading (by decide +kernel)
      (by decide +kernel)
  · exact (narrow_counters_accurate .standard ⟨5, 5⟩).2.1 drainedWhileReading .writer nofun
      (by decide +kernel) (by decide +kernel)

end TwinCopy
