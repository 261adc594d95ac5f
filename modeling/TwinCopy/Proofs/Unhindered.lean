import TwinCopy.Proofs.ExactGates
import TwinCopy.Proofs.Order
import TwinCopy.Proofs.Plain
import TwinCopy.Proofs.Quiescence

/-!
# Writers wait for readers only

At a point that is `Unhindered` every query under way still has the copy it was given, and without a
query under way no writer has to wait. For gates with `ExactGateInv`, and for flags as long as no
query is doubled, every point is unhindered with plain callers. Writers then finish after finitely
many steps of the leading writer.
-/

namespace TwinCopy

variable {γ κ δ α ρ : Type} [Gate γ κ δ]

/-! ## Actions without readers -/

/-- No reader arrives or departs by this action. -/
def Action.Quiet (d : Action γ κ δ α ρ) : Prop :=
  d.crossing = .absent ∧ ∀ found side p r, d = .applied found side p r → r.observed = false

/-- No application has read the instance. -/
def History.Unobserved (h : History γ κ δ α ρ) : Prop :=
  ∀ found side p r, .applied found side p r ∈ h → r.observed = false

/-- If no request asks for a read, no application has made one. -/
lemma Queued.unobserved {s : Session γ κ δ α ρ} {h : History γ κ δ α ρ} {t : Option (Task α ρ)}
    (hq : Queued s h t) (hcalls : ∀ r ∈ h.published, r.observed = false) : h.Unobserved := by
  intro found side p r hmem
  have happlied : r ∈ h.applied side := by
    rw [History.applied, History.gather, List.mem_flatMap]
    exact ⟨_, List.mem_reverse.2 hmem, by simp⟩
  refine hcalls r (hq.requestInv.snapshots.published_perm.mem_iff.2 (List.mem_append_left _ ?_))
  exact hq.applied side r happlied

namespace Action

variable {d : Action γ κ δ α ρ}

lemma lookTicket?_eq_none
    (hd : ∀ found side p r, d = .applied found side p r → r.observed = false) :
    d.lookTicket? = none := by
  cases d with
  | applied found side p r => rw [lookTicket?, hd _ _ _ _ rfl, if_neg Bool.false_ne_true]
  | _ => rfl

lemma Quiet.arrivals_eq_zero (hd : d.Quiet) : d.arrivals = 0 := by
  cases d with
  | moved s m =>
    have hcrossing : s.crossing m = .absent := hd.1
    rw [arrivals, hcrossing]
  | applied found side p r =>
    rw [arrivals, hd.2 _ _ _ _ rfl]
    rfl
  | _ => rfl

end Action

namespace History

lemma arrivals_append {actions h : History γ κ δ α ρ} (hactions : ∀ d ∈ actions, d.Quiet) :
    arrivals (actions ++ h) = h.arrivals := by
  induction actions with
  | nil => rfl
  | cons d actions ih =>
    obtain ⟨hd, hactions⟩ := List.forall_mem_cons.1 hactions
    rw [List.cons_append, arrivals_cons, hd.arrivals_eq_zero, ih hactions, Nat.zero_add]

variable [DecidableEq κ]

/-- Readers stay within a limit while none arrives or departs. -/
lemma Within.append {limit : List κ → Nat → Prop} (hlimit : limit [] 0)
    {actions h : History γ κ δ α ρ} (hh : h.Unobserved) (hactions : ∀ d ∈ actions, d.Quiet)
    (hw : Within limit h) : Within limit (actions ++ h) := by
  have hnow : limit h.inFlight h.arrivals := by
    cases h with
    | nil => exact hlimit
    | cons d h =>
      have hlast := hw.2
      have hd : ∀ found side p r, d = .applied found side p r → r.observed = false :=
        fun found side p r heq => hh found side p r (heq ▸ List.mem_cons_self)
      rwa [Action.lookTicket?_eq_none hd] at hlast
  suffices hall : Within limit (actions ++ h) ∧
      limit (inFlight (actions ++ h)) (arrivals (actions ++ h)) from hall.1
  induction actions with
  | nil => exact ⟨hw, hnow⟩
  | cons d actions ih =>
    obtain ⟨hd, hactions⟩ := List.forall_mem_cons.1 hactions
    obtain ⟨hwithin, hlast⟩ := ih hactions
    have hflight : inFlight (d :: (actions ++ h)) = inFlight (actions ++ h) := by
      rw [inFlight, hd.1]
      rfl
    rw [List.cons_append, Within, hflight, arrivals_cons, hd.arrivals_eq_zero,
      Action.lookTicket?_eq_none hd.2, Nat.zero_add]
    exact ⟨⟨hwithin, hlast⟩, hlast⟩

end History

/-! ## Steps of the leading writer -/

/-- Finished writers stay finished. -/
lemma Instance.Progress.finished_append {s s' : Instance γ δ α ρ} {t t' : Option (Task α ρ)}
    {actions : History γ κ δ α ρ} {n : Nat} (hp : Progress s t actions s' t')
    (hd : CellInv s.cells s.writers n t) : ∃ gone, s'.finished = gone ++ s.finished := by
  have hroundEnded : ∀ {batch : Batch α ρ}, s.RoundEnded s' batch →
      ∃ gone, s'.finished = gone ++ s.finished := by
    rintro batch hc
    obtain ⟨gone, hgone, -⟩ := hc.finished
    exact ⟨gone, hgone⟩
  cases hp with
  | quiet | elect | turn => exact ⟨[], rfl⟩
  | apply hpass =>
    obtain ⟨output, gate, registry, log, note, -, rfl, -⟩ := pass_ok hpass
    exact ⟨[], rfl⟩
  | giveUp hpass => exact hroundEnded (roundEnded_giveUp hd hpass)
  | complete => exact hroundEnded (roundEnded_complete hd)
  | surplus => exact hroundEnded (roundEnded_surplus hd _ _)

/-- The leading writer does not empty the outboxes. -/
lemma Instance.Progress.emptied_eq {s s' : Instance γ δ α ρ} {t t' : Option (Task α ρ)}
    {actions h : History γ κ δ α ρ} (hp : Progress s t actions s' t') :
    History.emptied (actions ++ h) = h.emptied := by
  cases hp <;> simp

/-- The effect of a number of steps of the leading writer. -/
structure Point.WriterProgress (p q : Point γ κ δ α ρ) : Prop where
  history : ∃ actions, q.history = actions ++ p.history ∧ ∀ d ∈ actions, d.crossing = .absent
  session : ∃ inst, q.session = { p.session with inst }
  calls : q.history.calls = p.history.calls
  emptied : q.history.emptied = p.history.emptied
  finished : ∃ gone, q.inst.finished = gone ++ p.inst.finished

namespace Point

lemma WriterProgress.refl (p : Point γ κ δ α ρ) : p.WriterProgress p :=
  ⟨⟨[], rfl, by simp⟩, ⟨p.inst, rfl⟩, rfl, rfl, [], rfl⟩

lemma WriterProgress.next {p q : Point γ κ δ α ρ} (hpq : p.WriterProgress q)
    (hq : q.session.Exclusive q.control) (hqueued : Queued q.session q.history q.task?) :
    p.WriterProgress (q.next .writer) := by
  obtain ⟨⟨actions, hhistory, hactions⟩, ⟨inst, hsession⟩, hcalls, hemptied, gone, hgone⟩ := hpq
  have hstaged := staged_next_writer hq
  have hprogress := hstaged.progress
  have hcellInv : CellInv q.inst.cells q.inst.writers q.session.started q.task? := hqueued.cellInv
  rw [Point.task?, Instance.task?_eq] at hcellInv
  obtain ⟨more, hmore⟩ := hprogress.finished_append hcellInv
  refine ⟨⟨(q.inst.advance q.control).1 ++ actions, ?_, ?_⟩,
    ⟨(q.inst.advance q.control).2.1, ?_⟩, ?_, ?_, more ++ gone, ?_⟩
  · rw [List.append_assoc, ← hhistory]
    rfl
  · exact List.forall_mem_append.2 ⟨hstaged.crossing, hactions⟩
  · rw [show (q.next .writer).session = { q.session with inst := (q.inst.advance q.control).2.1 }
      from rfl, hsession]
  · exact hprogress.calls_eq.trans hcalls
  · exact hprogress.emptied_eq.trans hemptied
  · rw [List.append_assoc, ← hgone]
    exact hmore

lemma writerProgress_replicate {p : Point γ κ δ α ρ} (hp : p.session.Exclusive p.control)
    (hqueued : Queued p.session p.history p.task?) (n : Nat) :
    p.WriterProgress (p.after (List.replicate n .writer)) := by
  refine (after_induction (P := fun q => (q.session.Exclusive q.control ∧
    Queued q.session q.history q.task?) ∧ p.WriterProgress q) ⟨⟨hp, hqueued⟩, .refl p⟩ ?_).2
  rintro q t ht ⟨⟨hq, hqueued⟩, hpq⟩
  cases List.eq_of_mem_replicate ht
  have hprogress := (staged_next_writer hq).progress
  refine ⟨⟨exclusive_next hq .writer, ?_⟩, hpq.next hq hqueued⟩
  rw [task?, Instance.task?_eq] at hqueued ⊢
  exact hqueued.progress hprogress

/-- The leading writer comes to rest after finitely many steps. -/
lemma exists_leads_resting (s : Instance γ δ α ρ) (c : Control δ α ρ) :
    ∃ t, s.Leads c t .resting := by
  cases c with
  | resting => exact ⟨s, .refl _ _⟩
  | waiting r => exact ⟨_, s.leads_proceed r⟩
  | passing p done rest old =>
    have hpass := s.leads_of_pass p old rest done
    rcases hend : s.pass (p.target old) p.application rest with ⟨f | ⟨⟨⟩⟩, t⟩ <;> rw [hend] at hpass
    · exact ⟨_, hpass⟩
    · cases p with
      | first => exact ⟨_, hpass.trans (.of_stepped .turn (Instance.leads_proceed _ _))⟩
      | second => exact ⟨_, hpass.trans (.of_stepped .complete (.refl _ _))⟩

/-- Finitely many steps of the leading writer lead to a still state. -/
lemma exists_still {p : Point γ κ δ α ρ} (hp : p.session.Exclusive p.control) :
    ∃ n, let q := p.after (List.replicate n .writer)
      q.control = .resting ∧ q.inst.still = true := by
  obtain ⟨t, ht⟩ := exists_leads_resting p.inst p.control
  have hrest := ht.inCharge hp.inCharge
  obtain ⟨n, history, hafter⟩ :=
    exists_after_of_leads (ht.trans (Instance.leads_settle hrest)) p.history p.session rfl
  refine ⟨n, ?_⟩
  rw [show p.after (List.replicate n .writer) = _ from hafter]
  exact ⟨rfl, Instance.still_settle hrest⟩

/-- A move, followed by the steps of writers up to a still state. -/
lemma exists_perform {p : Point γ κ δ α ρ} (hp : p.session.Exclusive p.control)
    (hcontrol : p.control = .resting) (m : Move α ρ) :
    ∃ n history, (p.next (.caller m)).after (List.replicate n .writer) =
        ⟨history, (p.session.perform m).2, .resting⟩ ∧
      (p.session.perform m).2.inst.still = true := by
  have hact := hp.act m
  rw [hcontrol] at hact
  obtain ⟨n, history, hafter⟩ := exists_after_of_leads (Instance.leads_settle hact.inCharge)
    (.moved p.session m :: p.history) (p.session.act m).2 rfl
  refine ⟨n, history, ?_, Instance.still_settle hact.inCharge⟩
  rw [next, hcontrol]
  exact hafter

/-- At this point readers are undisturbed, and writers wait for readers only. -/
structure Unhindered (p : Point γ κ δ α ρ) : Prop where
  given : p.session.visits.map p.inst.given = p.history.opened
  free : p.session.visits = [] → ∀ r, p.stage = .waiting r → p.inst.waits r.phase = false

/-- In a still state that is unhindered, without queries, no writer is inside. -/
lemma Unhindered.writers_eq_nil {p : Point γ κ δ α ρ} (hu : p.Unhindered)
    (hp : p.session.Exclusive p.control) (hq : Queued p.session p.history p.task?)
    (hvisits : p.session.visits = []) (hunguarded : p.session.guarded = false)
    (hcontrol : p.control = .resting) (hstill : p.inst.still = true) : p.inst.writers = [] := by
  rw [hcontrol] at hp
  rcases Instance.still_iff.1 hstill with
    habsent | ⟨hround, hnone | hlocked⟩ | ⟨r, hround, -, hwaits⟩
  · exact habsent
  · refine List.eq_nil_iff_forall_not_mem.2 fun w hw => ?_
    obtain ⟨r, hr, -⟩ := hq.cellInv.request w hw
    have hmem : (w.cell, r) ∈ p.inst.published := Instance.mem_published.2 hr
    rw [hnone] at hmem
    exact List.not_mem_nil hmem
  · -- the lock has no holder
    rcases hp.held hlocked with h | h | h
    · rw [hunguarded] at h
      cases h
    · exact absurd rfl h
    · exact absurd hround h
  · have hstage : p.stage = .waiting r := by
      rw [stage, hcontrol, Instance.stage, hround]
      rfl
    rw [hu.free hvisits r hstage] at hwaits
    cases hwaits

end Point

/-! ## Gates with `ExactGateInv` -/

section

variable [DecidableEq κ] {current : γ → κ} {old : δ → κ} {limit : List κ → Nat → Prop}
  {Knows : γ → Option (Phase δ) → List (Nat × κ) → Nat → Prop}

/-- A query under way is on the active side, unless a writer waits for it. -/
structure QueryPlacement (old : δ → κ) (s : Session γ κ δ α ρ) (h : History γ κ δ α ρ)
    (c : Control δ α ρ) : Prop where
  sides : ∀ v ∈ s.visits, v.side = s.inst.activeSide ∨ ∃ p ∈ c.phase?, v.ticket = old p.awaited
  opened : s.visits.map s.inst.given = h.opened

namespace QueryPlacement

variable {s s' : Session γ κ δ α ρ} {h : History γ κ δ α ρ} {c c' : Control δ α ρ}

lemma moved (T : GateInv current old limit Knows) (hk : ReadersKnown Knows s h c)
    (hs : QueryPlacement old s h c)
    {m : Move α ρ} {r : Except Failure (Answer κ α)} (hact : s.act m = (r, s'))
    (hm : s.Moved m r s') (hmatched : History.Matched (.moved s m :: h))
    (hwithin : History.Within limit (.moved s m :: h)) :
      QueryPlacement old s' (.moved s m :: h) c := by
  have hcrossed := s.crossed_act m
  rw [hact] at hcrossed
  obtain ⟨-, hside, -⟩ := hk.crossed T hcrossed hmatched hwithin
  refine ⟨fun v hv => ?_, hm.opened hact hs.opened⟩
  rw [show s'.inst.activeSide = s.inst.activeSide from hside]
  generalize s.crossing m = x at hcrossed
  cases hcrossed with
  | absent _ hvisits | arrived _ hvisits | departed _ hvisits => exact hs.sides v (hvisits ▸ hv)
  | entered _ hgiven hvisits =>
    rw [hvisits] at hv
    rcases List.mem_cons.1 hv with rfl | hv
    · exact .inl (hgiven.trans hside)
    · exact hs.sides v hv
  | left _ hvisits => exact hs.sides v (hvisits ▸ List.mem_cons_of_mem _ hv)

omit [DecidableEq κ] in
/-- While no writer waits every query under way is on the active side. -/
lemma side_eq (hs : QueryPlacement old s h c) (hphase : c.phase? = none) {v : Visit κ}
    (hv : v ∈ s.visits) :
    v.side = s.inst.activeSide := by
  rcases hs.sides v hv with hside | ⟨p, hp, -⟩
  · exact hside
  · rw [hphase] at hp
    cases hp

/-- A pass changes a copy that was given to no query under way. -/
lemma given_set {p : Pass} {done rest : Batch α ρ} {side : Side}
    (hs : QueryPlacement old s h (.passing p done rest side))
    (hk : ReadersKnown Knows s h (.passing p done rest side)) (a : α) :
    s.visits.map (fun v => (s.inst.copies.set (p.target side) a).get v.side) = h.opened := by
  rw [← hs.opened]
  refine Copies.given_set (fun v hv => ?_) a
  rw [hs.side_eq rfl hv, show p.target side = s.inst.activeSide.opposite from hk.target _ rfl,
    Side.opposite_opposite]

variable {actions : History γ κ δ α ρ} {inst : Instance γ δ α ρ}

/-- When a writer turns the side it waits for the queries under way. -/
lemma sides_staged (M : ExactGateInv current old limit Knows) (hk : ReadersKnown Knows s h c)
    (hs : QueryPlacement old s h c) (hstaged : Instance.Staged s.inst c actions inst c')
    (hwithin : History.Within limit (actions ++ h)) :
    ∀ v ∈ s.visits, v.side = inst.activeSide ∨ ∃ p ∈ c'.phase?, v.ticket = old p.awaited := by
  have hknows := hk.knows
  have hinside : ∀ v ∈ s.visits, (v.slot.index, v.ticket) ∈ s.indices h := fun v hv =>
    List.mem_map.2 ⟨(v.slot, v.ticket), List.mem_append_left _ (List.mem_map_of_mem hv), rfl⟩
  intro v hv
  have hside := hs.sides v hv
  cases hstaged with
  | quiet | elect => exact hside
  | apply hpass =>
    obtain ⟨registry, note, hlook⟩ := Instance.pass_look hpass
    obtain ⟨-, hkept, -⟩ := hk.look M.toGateInv hlook hwithin
    exact .inl ((hs.side_eq rfl hv).trans hkept.symm)
  | giveUp hpass =>
    obtain ⟨registry, note, hlook⟩ := Instance.pass_look hpass
    obtain ⟨-, hkept, -⟩ := hk.look M.toGateInv hlook hwithin.1
    refine .inl ((hs.side_eq rfl hv).trans ?_)
    rw [Instance.activeSide, Instance.activeSide, Instance.gate_abandon]
    exact hkept.symm
  | turn =>
    -- every reader inside has the ticket that the writer waits for
    obtain ⟨-, hold, -⟩ := M.turn hknows
    exact .inr ⟨_, rfl, (M.ticket_eq hknows _ (hinside v hv)).trans hold.symm⟩
  | shift hstandby =>
    obtain ⟨-, hkept⟩ := M.shift hknows hstandby
    refine hside.imp (fun hactive => hactive.trans hkept.symm) ?_
    rintro ⟨p, hp, hticket⟩
    cases hp
    exact ⟨_, rfl, hticket⟩
  | clear hcleared =>
    have hgone := (M.cleared hknows).symm.trans hcleared
    simp only [Except.ok.injEq, decide_eq_true_eq] at hgone
    refine .inl (hside.resolve_right ?_)
    rintro ⟨p, hp, hticket⟩
    cases hp
    exact hgone (hticket ▸ List.mem_map_of_mem (hinside v hv))
  | complete =>
    rw [Instance.activeSide, Instance.gate_complete]
    exact .inl (hs.side_eq rfl hv)
  | surplus hcleared => exact absurd hcleared (M.sound hknows)

/-- A step of the leading writer changes no copy given to a query under way. -/
lemma given_staged (M : ExactGateInv current old limit Knows) (hk : ReadersKnown Knows s h c)
    (hs : QueryPlacement old s h c) (hstaged : Instance.Staged s.inst c actions inst c') :
    s.visits.map inst.given = h.opened := by
  cases hstaged with
  | quiet | elect | turn | shift | clear => exact hs.opened
  | apply hpass =>
    obtain ⟨output, gate, registry, log, note, -, rfl, -⟩ := Instance.pass_ok hpass
    exact hs.given_set hk _
  | giveUp hpass =>
    obtain ⟨message, gate, registry, log, note, -, -, rfl, -⟩ := Instance.pass_error hpass
    obtain ⟨cells, writers, log', finished, hend⟩ := Instance.abandon_frame _ _ _
    rw [hend]
    exact hs.given_set hk _
  | @complete batch side =>
    obtain ⟨cells, writers, log, finished, hend⟩ := s.inst.complete_frame batch side
    rw [hend]
    exact hs.opened
  | surplus hcleared => exact absurd hcleared (M.sound hk.knows)

lemma staged (M : ExactGateInv current old limit Knows) (hk : ReadersKnown Knows s h c)
    (hs : QueryPlacement old s h c) (hstaged : Instance.Staged s.inst c actions inst c')
    (hwithin : History.Within limit (actions ++ h)) :
      QueryPlacement old { s with inst } (actions ++ h) c' where
  sides := (hs.sides_staged M hk hstaged hwithin :)
  opened := by
    rw [History.opened_append hstaged.crossing h]
    exact (hs.given_staged M hk hstaged :)

end QueryPlacement

/-- Over a gate with `ExactGateInv`, within its limit, every point is unhindered with plain
callers. -/
theorem unhindered_of_exactGateInv (M : ExactGateInv current old limit Knows)
    {s : Session γ κ δ α ρ} (hs : s.Exclusive .resting) (hvisits : s.visits = [])
    (hstart : ReadersKnown Knows s [] (Point.start s).stage) (hplainInv : PlainInv s [])
    {ticks : List (Tick α ρ)} (hticks : Plainly ticks) :
    let p := (Point.start s).after ticks
    p.history.Within limit → p.Unhindered := by
  intro p hwithin
  have ho : PlainInv p.session p.history := plainInv_after hs hplainInv hticks
  -- one induction for both, as the placement of queries depends on what the gate knows
  obtain ⟨hk, hplaced⟩ : ReadersKnown Knows p.session p.history p.stage ∧
      QueryPlacement old p.session p.history p.stage := by
    have hmatched := ho.matched
    revert hmatched hwithin
    refine Point.stage_after
      (P := fun s h c => h.Within limit → h.Matched →
        ReadersKnown Knows s h c ∧ QueryPlacement old s h c)
      (fun {s h c m r s'} _ hact hm ih hwithin hmatched => ?_)
      (fun {s h c actions inst c'} hstaged ih hwithin hmatched => ?_)
      (fun {s h c} ih hwithin hmatched => ?_) hs fun _ _ => ?_
    · obtain ⟨hk, hs⟩ := ih hwithin.1 hmatched.1
      exact ⟨hk.moved M.toGateInv hact hmatched hwithin,
        hs.moved M.toGateInv hk hact hm hmatched hwithin⟩
    · obtain ⟨hk, hs⟩ := ih hwithin.of_append hmatched.of_append
      exact ⟨hk.staged M.toGateInv hstaged hwithin, hs.staged M hk hstaged hwithin⟩
    · obtain ⟨hk, hs⟩ := ih hwithin.1 hmatched.1
      exact ⟨hk.emptied _ _, hs.sides, hs.opened⟩
    · exact ⟨hstart, by simp [Point.start, hvisits], by simp [Point.start, hvisits, History.opened]⟩
  refine ⟨hplaced.opened, fun habsent r hstage => ?_⟩
  have hinside : p.session.indices p.history = [] := by
    rw [Session.indices, Session.inside, habsent, ho.rawReaders]
    rfl
  have hknows := hk.knows
  rw [hstage, hinside] at hknows
  obtain ⟨batch, side, d | d⟩ := r
  · have hstandby : Gate.standby p.inst.gate d = true := M.standby hknows
    simp only [Instance.waits, hstandby, Bool.not_true]
  · have hcleared : Gate.cleared p.inst.gate d = .ok true := (M.cleared hknows).trans (by simp)
    simp only [Instance.waits, hcleared, Bool.not_true]

end

/-! ## Flags -/

/-- Over flags every point is unhindered with plain callers, as long as no query is doubled. -/
theorem unhindered_of_single {kind : IndicatorKind} (hkind : ¬ kind.Counting) (style : Style)
    (c : Config) (init : Copies α) {ticks : List (Tick α ρ)} (hticks : Plainly ticks) :
    let p := (Point.start (.ofInstance (.ofStyle style kind c init))).after ticks
    (∀ d ∈ p.history, d.Single) → p.Unhindered := by
  intro p hsingle
  obtain ⟨hs, -⟩ := flagsInv_after hkind style c init hticks.not_raw hsingle
  refine ⟨hs.opened, fun habsent r hstage => ?_⟩
  have hempty : ∀ v, (p.inst.gate.readers v).isEmpty = true := by
    intro v
    have hplaces : p.session.places = [] := by rw [Session.places, habsent]; rfl
    refine ((hs.readersFlagged.shows v).isEmpty_iff ?_).2 ?_ <;> rw [hplaces]
    · simp [among]
    · rfl
  obtain ⟨batch, side, d | d⟩ := r
  · have hstandby : Gate.standby p.inst.gate d = true := hempty d.next
    simp only [Instance.waits, hstandby, Bool.not_true]
  · have hcleared : Gate.cleared p.inst.gate d = .ok true := congrArg Except.ok (hempty d)
    simp only [Instance.waits, hcleared, Bool.not_true]

end TwinCopy
