import TwinCopy.Proofs.Rebasing
import TwinCopy.Proofs.ReferenceScripts

/-!
# Departures without a reader

At the gate without versions a departure may come from a side without readers in flight. On the
active side it is refused at once, as there are never more departures than arrivals. On the other
side it is not: the word no longer has the arrivals there, so the departure is counted, and if a
writer waits for that side, it is the writer that reports the misuse.

`CountsBalanced` is the part of the invariant `Balanced` that remains with unmatched departures: the
counts of the active side are right, those of the other side are the departures since the turn, and
the backlog of a writer is exceeded by the number of unmatched ones. This holds as long as the
fields do not overflow: no more than `2 ^ 19` readers are in flight, and there are less than
`2 ^ 20` departures from the inactive side between two turns.
-/

namespace TwinCopy

open IngressWord

variable {α ρ : Type}

/-! ## Late departures -/

/-- The side of a departure. -/
def Crossing.departure? : Crossing Side → Option Side
  | .departed _ side => some side
  | .left v => some v.ticket
  | .absent | .arrived .. | .entered _ => none

/-- The action is a departure from the inactive side. -/
def Action.late : Action IngressWord Side Backlog α ρ → Bool
  | .moved s m => (s.crossing m).departure? == some s.inst.activeSide.opposite
  | _ => false

namespace History

/-- The number of departures from the inactive side since the latest turn. -/
def late : History IngressWord Side Backlog α ρ → Nat
  | [] => 0
  | .turned _ :: _ => 0
  | d :: h => late h + d.late.toNat

/-- The late departures always fitted their field. -/
def Fitting : History IngressWord Side Backlog α ρ → Prop
  | [] => True
  | d :: h => Fitting h ∧ late (d :: h) < 2 ^ 20

instance decidableFitting : (h : History IngressWord Side Backlog α ρ) → Decidable (Fitting h)
  | [] => inferInstanceAs (Decidable True)
  | d :: h =>
      have := decidableFitting h
      inferInstanceAs (Decidable (Fitting h ∧ late (d :: h) < 2 ^ 20))

lemma Fitting.of_append {actions h : History IngressWord Side Backlog α ρ}
    (hf : Fitting (actions ++ h)) : Fitting h := by
  induction actions with
  | nil => exact hf
  | cons d actions ih => exact ih hf.1

end History

/-! ## The counts with unmatched departures -/

namespace IngressWord.Counts

/-- The readers on the inactive side: none, or while a writer waits those of its backlog. The
departures exceed the backlog by the number of unmatched ones, and there are none of these while a
reader is in flight that they could be taken for. -/
def Awaited (c : Counts) (sides : List Side) : Control Backlog α ρ → Prop
  | .resting => sides.count c.side.opposite = 0
  | .passing p _ _ old => p.target old = c.side.opposite ∧ sides.count c.side.opposite = 0
  | .waiting r =>
      let d := r.phase.awaited
      d.side = c.side.opposite ∧ r.old = c.side.opposite ∧
        (d.carried.toNat < 2 ^ 20 ∧ d.carried.toNat ≤ d.ingress.toNat) ∧
        ∃ unmatched, d.ingress.toNat + unmatched =
            d.carried.toNat + (c.egress c.side.opposite + sides.count c.side.opposite) ∧
          (unmatched = 0 ∨ sides.count c.side.opposite = 0)

variable {c c' : Counts} {sides sides' : List Side} {x : Control Backlog α ρ}

/-- Arrivals and departures on the active side do not affect the other one. -/
lemma Awaited.congr (h : c.Awaited sides x) (hside : c'.side = c.side)
    (hegress : c'.egress c.side.opposite = c.egress c.side.opposite)
    (hcount : sides'.count c.side.opposite = sides.count c.side.opposite) :
      c'.Awaited sides' x := by
  cases x with
  | resting =>
    change sides'.count c'.side.opposite = 0
    rw [hside, hcount]
    exact h
  | passing p done rest old =>
    refine ⟨?_, ?_⟩
    · rw [hside]
      exact h.1
    · rw [hside, hcount]
      exact h.2
  | waiting r =>
    simp only [Awaited, hside, hegress, hcount]
    exact h

/-- A departure from the inactive side is that of a reader of the backlog, or unmatched. -/
lemma Awaited.depart (h : c.Awaited sides x) :
    (c.depart c.side.opposite).Awaited (sides.erase c.side.opposite) x := by
  have hegress : (c.depart c.side.opposite).egress c.side.opposite =
      c.egress c.side.opposite + 1 := by
    rw [egress_depart_opposite, egress_count_same]
  cases x with
  | resting =>
    have hnone : sides.count c.side.opposite = 0 := h
    change (sides.erase _).count _ = 0
    rw [side_depart, List.count_erase_self, hnone]
  | passing p done rest old =>
    obtain ⟨htarget, hnone⟩ := h
    refine ⟨by rw [side_depart]; exact htarget, ?_⟩
    rw [side_depart, List.count_erase_self, hnone]
  | waiting r =>
    obtain ⟨hwaits, hold, hcarried, unmatched, hleft, hone⟩ := h
    simp only [Awaited, side_depart, hegress, List.count_erase_self]
    refine ⟨hwaits, hold, hcarried, ?_⟩
    by_cases hnone : sides.count c.side.opposite = 0
    · exact ⟨unmatched + 1, by omega, .inr (by omega)⟩
    · exact ⟨unmatched, by omega, .inl (hone.resolve_right hnone)⟩

end IngressWord.Counts

/-- A departure is refused if the active side has as many departures as arrivals. -/
lemma IngressWord.Keeps.depart_eq_error {g : IngressWord} {c : Counts} (hk : g.Keeps c)
    (hlow : c.egress c.side + 1 < 2 ^ 20) (hnone : c.ingress = c.egress c.side) :
    g.depart c.side = (.error .unmatchedDeparture, g) := by
  have hcount := hk.count hlow
  have hside : (Fields.unpack (g.word + egressUnit c.side)).side = c.side :=
    hcount.side_eq.trans (Counts.side_count _ _)
  have hegress : ((Fields.unpack (g.word + egressUnit c.side)).egress c.side).toNat =
      c.egress c.side + 1 :=
    (hcount.toNat_egress c.side).trans (c.egress_count_same c.side)
  have hingress : (Fields.unpack (g.word + egressUnit c.side)).ingress.toNat = c.ingress :=
    hcount.toNat_ingress.trans (c.ingress_count c.side)
  have hgt : (Fields.unpack (g.word + egressUnit c.side)).egress c.side >
      (Fields.unpack (g.word + egressUnit c.side)).ingress := by
    rw [gt_iff_lt, UInt64.lt_iff_toNat_lt, hegress, hingress]
    omega
  have hfirst : (g.depart c.side).1 = .error .unmatchedDeparture := by
    simp only [IngressWord.depart]
    rw [if_pos ⟨hside, hgt⟩]
  exact Prod.ext hfirst (depart_of_error hfirst)

/-- A writer with a backlog that finds more departures than arrivals reports misuse. -/
lemma IngressWord.Keeps.cleared_eq_error {g : IngressWord} {c : Counts} (hk : g.Keeps c)
    {b : Backlog} (hcarried : b.carried.toNat < 2 ^ 20) (hwaits : b.carried.toNat < b.ingress.toNat)
    (hlt : b.ingress.toNat < c.egress b.side + b.carried.toNat) :
    g.cleared b = .error .unmatchedDeparture := by
  have hegress : c.egress b.side < 2 ^ 20 := by
    cases b.side with
    | left => exact hk.1.2.1
    | right => exact hk.1.2.2
  rw [Backlog.cleared_of_lt hwaits]
  exact Backlog.drained_of_lt (by rw [hk.toNat_egress]; omega) (by rw [hk.toNat_egress]; exact hlt)

/-- The counts of the active side agree with the readers in flight, those of the other side are the
late departures. -/
structure CountsBalanced (g : IngressWord) (sides : List Side) (late : Nat)
    (x : Control Backlog α ρ) (c : Counts) : Prop where
  keeps : g.Keeps c
  activeExact : c.ActiveExact sides
  late : c.egress c.side.opposite = late
  awaited : c.Awaited sides x

namespace CountsBalanced

variable {g : IngressWord} {sides : List Side} {late : Nat} {x : Control Backlog α ρ} {c : Counts}

/-- An arrival is on the active side. -/
lemma arrive (ha : CountsBalanced g sides late x c) (hlength : sides.length + 1 ≤ 2 ^ 19) :
    CountsBalanced g.arrive.2 (g.arrive.1 :: sides) late x c.arrive := by
  have hticket : g.arrive.1 = c.side := ha.keeps.side_eq
  rw [hticket]
  refine ⟨ha.keeps.arrive (ha.activeExact.room hlength), ha.activeExact.arrive, ?_, ?_⟩
  · rw [Counts.egress_arrive]
    exact ha.late
  · refine ha.awaited.congr rfl (Counts.egress_arrive _ _) ?_
    exact List.count_cons_of_ne (Ne.symm (Side.opposite_ne _))

/-- A departure from the active side without a reader in flight there is refused. -/
lemma depart_eq_error (ha : CountsBalanced g sides late x c) (hmem : c.side ∉ sides) :
    g.depart c.side = (.error .unmatchedDeparture, g) := by
  have hactive := ha.activeExact.active
  have hlow := ha.activeExact.low
  rw [List.count_eq_zero.2 hmem, Nat.add_zero] at hactive
  exact ha.keeps.depart_eq_error (by omega) hactive

/-- A departure from the active side is that of one of its readers, or changes nothing. -/
lemma depart_active (ha : CountsBalanced g sides late x c) : ∃ c' : Counts, c'.side = c.side ∧
    CountsBalanced (g.depart c.side).2 (sides.erase c.side) late x c' := by
  by_cases hmem : c.side ∈ sides
  · obtain ⟨hroom, hbacked⟩ := ha.activeExact.backed hmem
    have hegress : (c.depart c.side).egress c.side.opposite = c.egress c.side.opposite := by
      rw [Counts.egress_depart_opposite, Counts.egress_count_opposite]
    refine ⟨c.depart c.side, Counts.side_depart _ _, (ha.keeps.depart hroom hbacked).2,
      ha.activeExact.depart fun _ => hmem, ?_, ha.awaited.congr (Counts.side_depart _ _) hegress ?_⟩
    · rw [Counts.side_depart, hegress, ha.late]
    · exact List.count_erase_of_ne (Side.opposite_ne _)
  · rw [ha.depart_eq_error hmem, List.erase_of_not_mem hmem]
    exact ⟨c, rfl, ha⟩

/-- A departure from the inactive side is accepted. -/
lemma depart_inactive (ha : CountsBalanced g sides late x c) (hfits : late + 1 < 2 ^ 20) :
    (g.depart c.side.opposite).1 = .ok (c.reports c.side.opposite) ∧
      CountsBalanced (g.depart c.side.opposite).2 (sides.erase c.side.opposite) (late + 1) x
        (c.depart c.side.opposite) := by
  have hne : c.side.opposite ≠ c.side := Side.opposite_ne _
  have hbacked : (c.count c.side.opposite).egress c.side ≤ c.ingress := by
    have hactive := ha.activeExact.active
    rw [Counts.egress_count_of_ne hne.symm]
    omega
  obtain ⟨hresult, hkeeps⟩ :=
    ha.keeps.depart (s := c.side.opposite) (by rw [ha.late]; exact hfits) hbacked
  refine ⟨hresult, hkeeps, ha.activeExact.depart fun heq => absurd heq hne, ?_, ha.awaited.depart⟩
  rw [Counts.side_depart, Counts.egress_depart_opposite, Counts.egress_count_same, ha.late]

lemma depart (ha : CountsBalanced g sides late x c) (side : Side)
    (hfits : late + (some side == some c.side.opposite).toNat < 2 ^ 20) :
    ∃ c' : Counts, c'.side = c.side ∧ CountsBalanced (g.depart side).2 (sides.erase side)
      (late + (some side == some c.side.opposite).toNat) x c' := by
  rcases Side.eq_or_eq_opposite side c.side with rfl | rfl
  · have hno : (some c.side == some c.side.opposite) = false := by
      simpa using (Side.opposite_ne c.side).symm
    rw [hno]
    exact ha.depart_active
  · rw [beq_self_eq_true] at hfits ⊢
    exact ⟨_, Counts.side_depart _ _, (ha.depart_inactive hfits).2⟩

/-- A move preserves the invariant, also an unmatched departure. -/
lemma moved {s s' : Session IngressWord Side Backlog α ρ} {y : Crossing Side}
    (ha : CountsBalanced s.inst.gate sides late x c) (hcrossed : s.Crossed y s')
    (hlength : (y.flight sides).length ≤ 2 ^ 19)
    (hfits : late + (y.departure? == some c.side.opposite).toNat < 2 ^ 20) :
    ∃ c' : Counts, c'.side = c.side ∧ CountsBalanced s'.inst.gate (y.flight sides)
      (late + (y.departure? == some c.side.opposite).toNat) x c' := by
  cases hcrossed with
  | absent hgate =>
    rw [hgate]
    exact ⟨c, rfl, ha⟩
  | arrived harrive =>
    obtain ⟨hticket, hgate⟩ := Prod.mk.inj (Except.ok.inj harrive)
    rw [← hgate, Crossing.flight, ← hticket]
    exact ⟨c.arrive, rfl, ha.arrive hlength⟩
  | departed hgate =>
    rw [hgate]
    exact ha.depart _ hfits
  | @entered _ v harrive hside =>
    obtain ⟨hticket, hgate⟩ := Prod.mk.inj (Except.ok.inj harrive)
    rw [← hgate, Crossing.flight, ← hticket]
    exact ⟨c.arrive, rfl, ha.arrive hlength⟩
  | left hgate =>
    rw [hgate]
    exact ha.depart _ hfits

/-- An application preserves the invariant, with or without a read. -/
lemma looked {s t : Instance IngressWord Backlog α ρ} (ha : CountsBalanced s.gate sides late x c)
    {side : Side} {p : Pass} {y : Nat × Request α ρ} {result : Except Fault Unit}
    (hpass : s.pass side p.application [y] = (result, t))
    (hlength : sides.length + (Action.applied s side p y.2 :
      Action IngressWord Side Backlog α ρ).arrivals ≤ 2 ^ 19) :
    ∃ c' : Counts, c'.side = c.side ∧ CountsBalanced t.gate sides late x c' := by
  obtain ⟨copies, cells, rfl⟩ := Instance.pass_looked hpass
  rcases hobserved : y.2.observed with _ | _
  · have hlooked : s.looked y.2 = s := by simp [Instance.looked_eq, hobserved]
    rw [hlooked]
    exact ⟨c, rfl, ha⟩
  · rw [Instance.arrivals_eq_one hobserved] at hlength
    obtain ⟨gate, writers, hkeeps, hlooked⟩ :=
      Instance.looked_eq_of_observed ha.keeps ha.activeExact hlength hobserved
    have hegress : (c.arrive.depart c.side).egress c.side.opposite = c.egress c.side.opposite := by
      rw [show c.side.opposite = c.arrive.side.opposite from rfl, Counts.egress_depart_opposite]
      exact (c.arrive.egress_count_opposite c.side).trans (Counts.egress_arrive _ _)
    have hside : (c.arrive.depart c.side).side = c.side := Counts.side_depart _ _
    have hactiveExact := ha.activeExact.arrive.depart (s := c.side) fun _ => List.mem_cons_self
    rw [List.erase_cons_head] at hactiveExact
    rw [hlooked]
    refine ⟨c.arrive.depart c.side, hside, hkeeps, hactiveExact, ?_,
      ha.awaited.congr hside hegress rfl⟩
    rw [hside, hegress]
    exact ha.late

/-- What a writer that waits finds out. -/
lemma cleared {r : Round Backlog α ρ} (ha : CountsBalanced g sides late (.waiting r) c) :
    (g.cleared r.phase.awaited = .ok true → sides.count c.side.opposite = 0) ∧
      ∀ m, g.cleared r.phase.awaited = .error m → sides.count c.side.opposite = 0 := by
  obtain ⟨hwaits, -, ⟨hcarried, hle⟩, unmatched, hleft, hone⟩ := ha.awaited
  rw [← hwaits] at hleft hone ⊢
  by_cases hmatched : c.egress r.phase.awaited.side + r.phase.awaited.carried.toNat ≤
      r.phase.awaited.ingress.toNat
  · rw [ha.keeps.cleared hmatched]
    refine ⟨fun htrue => ?_, fun m herror => ?_⟩
    · have heq := beq_iff_eq.1 (Except.ok.inj htrue)
      omega
    · cases herror
  · -- there were unmatched departures, and none of these while a reader of the backlog is in flight
    have hnone : sides.count r.phase.awaited.side = 0 := by omega
    exact ⟨fun _ => hnone, fun _ _ => hnone⟩

/-- A step of the leading writer preserves the invariant. After a turn there are no late departures
yet. -/
lemma staged {s t : Instance IngressWord Backlog α ρ}
    {h actions : History IngressWord Side Backlog α ρ}
    {x x' : Control Backlog α ρ} (hstaged : Instance.Staged s x actions t x')
    (ha : CountsBalanced s.gate h.inFlight h.late x c)
    (hpeak : History.peak (actions ++ h) ≤ 2 ^ 19) :
    ∃ c', CountsBalanced t.gate h.inFlight (History.late (actions ++ h)) x' c' := by
  have hawaited := ha.awaited
  cases hstaged with
  | quiet => exact ⟨c, ha⟩
  | shift => exact ⟨c, ha.keeps, ha.activeExact, ha.late, hawaited⟩
  | elect =>
    exact ⟨c, ha.keeps, ha.activeExact, ha.late, congrArg Side.opposite ha.keeps.side_eq, hawaited⟩
  | apply hpass =>
    obtain ⟨c', -, hafter⟩ := ha.looked hpass (History.length_le_of_peak (h := h) hpeak)
    exact ⟨c', hafter.keeps, hafter.activeExact, hafter.late, hafter.awaited⟩
  | giveUp hpass =>
    have hpeak' := Nat.le_trans (History.peak_le_append [.abandoned _] _) hpeak
    obtain ⟨c', -, hafter⟩ := ha.looked hpass (History.length_le_of_peak (h := h) hpeak')
    rw [Instance.gate_abandon]
    exact ⟨c', hafter.keeps, hafter.activeExact, hafter.late, hafter.awaited.2⟩
  | @turn batch old =>
    obtain ⟨htarget, hnone⟩ := hawaited
    obtain ⟨hside, hingress, hcarried, hturned⟩ := ha.keeps.exchange
    have hback : c.turn.side.opposite = c.side := Side.opposite_opposite _
    have hold : old = c.side := by
      rw [← Side.opposite_opposite old, ← Side.opposite_opposite c.side]
      exact congrArg Side.opposite htarget
    have hactive := ha.activeExact.active
    have hlow := ha.activeExact.low
    refine ⟨c.turn, hturned, .turn hnone, Counts.egress_turn _ _, ?_⟩
    refine ⟨hside.trans hback.symm, hold.trans hback.symm, ⟨?_, ?_⟩, 0, ?_, .inl rfl⟩
    · change s.gate.exchange.1.carried.toNat < _
      omega
    · change s.gate.exchange.1.carried.toNat ≤ s.gate.exchange.1.ingress.toNat
      omega
    · change s.gate.exchange.1.ingress.toNat + 0 = s.gate.exchange.1.carried.toNat + _
      rw [hback, Counts.egress_turn, hingress, hcarried]
      omega
  | @clear batch old d hcleared =>
    obtain ⟨-, hold, -⟩ := hawaited
    exact ⟨c, ha.keeps, ha.activeExact, ha.late, hold, ha.cleared.1 hcleared⟩
  | complete =>
    rw [Instance.gate_complete]
    exact ⟨c, ha.keeps, ha.activeExact, ha.late, hawaited.2⟩
  | surplus hcleared =>
    rw [Instance.gate_abandon]
    exact ⟨c, ha.keeps, ha.activeExact, ha.late, ha.cleared.2 _ hcleared⟩

end CountsBalanced

/-- `CountsBalanced` holds at every point of every schedule within the limits of the fields. -/
theorem countsBalanced_after (c : Config) (init : Copies α) (ticks : List (Tick α ρ)) :
    let p := (Point.start (.ofInstance (.ingressWord c init))).after ticks
    p.history.peak ≤ 2 ^ 19 → p.history.Fitting →
      ∃ k, CountsBalanced p.inst.gate p.history.inFlight p.history.late p.stage k := by
  refine Point.stage_after
    (P := fun s h x => h.peak ≤ 2 ^ 19 → h.Fitting →
      ∃ k, CountsBalanced s.inst.gate h.inFlight h.late x k)
    (fun {s h x m r s'} _ hact _ ih hpeak hfitting => ?_)
    (fun {s h x actions inst x'} hstaged ih hpeak hfitting => ?_)
    (fun {s h x} ih hpeak hfitting => ?_) (Session.exclusive_fresh _ _ _ _ _ _) fun _ _ => ?_
  · obtain ⟨k, ha⟩ := ih (Nat.le_trans (History.peak_le_append [_] _) hpeak) hfitting.1
    have hcrossed := s.crossed_act m
    rw [hact] at hcrossed
    have hlate : History.late (.moved s m :: h) =
        h.late + ((s.crossing m).departure? == some k.side.opposite).toNat := by
      rw [← show s.inst.activeSide = k.side from ha.keeps.side_eq]
      rfl
    have hfits := hfitting.2
    rw [hlate] at hfits ⊢
    obtain ⟨k', -, hafter⟩ := ha.moved hcrossed (History.length_inFlight_le hpeak) hfits
    exact ⟨k', hafter⟩
  · obtain ⟨k, ha⟩ := ih (Nat.le_trans (History.peak_le_append _ _) hpeak) hfitting.of_append
    rw [History.inFlight_append hstaged.crossing]
    exact ha.staged hstaged hpeak
  · exact ih (Nat.le_trans (History.peak_le_append [_] _) hpeak) hfitting.1
  · exact ⟨_, .fresh, Counts.tracks_nil.toActiveExact, rfl, rfl⟩

/-! ## Where misuse is reported -/

/-- At this gate a departure is always one from the gate. -/
lemma Session.act_depart_ingress (s : Session IngressWord Side Backlog α ρ)
    (hstyle : s.inst.style = .exclusive) (k n : Nat) :
    s.act (.depart k n) =
      s.call (s.inst.dismiss s.inst.commonSlot (Gate.ticket IngressWord n)) fun _ => .done :=
  Session.depart_of_style hstyle rfl rfl n

/-- The effect of a departure from a side without readers in flight. -/
structure Point.UnmatchedDeparture (p : Point IngressWord Side Backlog α ρ) (k n : Nat) : Prop where
  /-- on the active side it is refused, and the word does not change -/
  active : Gate.ticket IngressWord n = p.inst.activeSide →
    (∃ f, (p.session.act (.depart k n)).1 = .error (.fault f none) ∧
      f.message = "misuse: depart without a matching arrive") ∧
    (p.session.act (.depart k n)).2.inst.gate = p.inst.gate
  /-- on the other side it is accepted and counted, and only a writer reports misuse: one that is
  suspended always does, and one that has just turned the side does if it has to wait at all -/
  inactive : Gate.ticket IngressWord n ≠ p.inst.activeSide → p.history.late + 1 < 2 ^ 20 →
    let side := Gate.ticket IngressWord n
    let gate := (p.session.act (.depart k n)).2.inst.gate
    (p.session.act (.depart k n)).1 = .ok .done ∧
      (gate.fields.egress side).toNat = (p.inst.gate.fields.egress side).toNat + 1 ∧
      (∀ r, p.inst.round = some r →
        Gate.cleared gate r.phase.awaited = .error .unmatchedDeparture) ∧
      ∀ r, p.stage = .waiting r → Gate.cleared gate r.phase.awaited =
        if r.phase.awaited.carried = r.phase.awaited.ingress then .ok true
        else .error .unmatchedDeparture

/-- A suspended round has a reader to wait for. -/
def Point.Pending (p : Point IngressWord Side Backlog α ρ) : Prop :=
  ∀ r, p.inst.round = some r → r.phase.awaited.carried ≠ r.phase.awaited.ingress

lemma Point.pending_after {p : Point IngressWord Side Backlog α ρ} (hp : p.Pending)
    (ticks : List (Tick α ρ)) : (p.after ticks).Pending := by
  refine after_induction hp fun q t _ hq => ?_
  cases t with
  | caller m =>
    intro r hr
    exact hq r ((q.session.moved_act m).round_eq.symm.trans hr)
  | writer =>
    intro r hr
    rcases (q.inst.stepped_advance q.control).round_eq_some hr with hround | hstandby | hcleared
    · exact hq r hround
    · cases hstandby
    · intro heq
      rw [show Gate.cleared q.inst.gate r.phase.awaited = .ok true from Backlog.cleared_of_eq heq]
        at hcleared
      cases hcleared
  | outbox => exact hq

lemma CountsBalanced.departure_unmatched {p : Point IngressWord Side Backlog α ρ} {c : Counts}
    (ha : CountsBalanced p.inst.gate p.history.inFlight p.history.late p.stage c)
    (hpending : p.Pending)
    (hcontrol : p.session.Exclusive p.control) (hstyle : p.inst.style = .exclusive) {k n : Nat}
    (habsent : Gate.ticket IngressWord n ∉ p.history.inFlight) : p.UnmatchedDeparture k n := by
  have hside : p.inst.activeSide = c.side := ha.keeps.side_eq
  have hact := p.session.act_depart_ingress hstyle k n
  constructor
  · intro hactive
    rw [hactive, hside] at habsent
    have hdepart : Gate.depart p.session.inst.gate p.session.inst.commonSlot.index
        (Gate.ticket IngressWord n) = (.error .unmatchedDeparture, p.session.inst.gate) := by
      rw [hactive, hside]
      exact ha.depart_eq_error habsent
    rw [hact, Instance.dismiss, hdepart]
    exact ⟨⟨_, rfl, by decide⟩, rfl⟩
  · intro hinactive hfits side gate
    have hopposite : side = c.side.opposite :=
      (Side.eq_or_eq_opposite side c.side).resolve_left (hside ▸ hinactive)
    obtain ⟨hresult, hafter⟩ := ha.depart_inactive hfits
    rw [← hopposite] at hresult hafter
    have hdepart : Gate.depart p.session.inst.gate p.session.inst.commonSlot.index side =
        (.ok (c.reports side), (p.inst.gate.depart side).2) := Prod.ext hresult rfl
    have hleft :
        (p.session.act (.depart k n)).1 = .ok .done ∧ gate = (p.inst.gate.depart side).2 := by
      change _ ∧ (p.session.act (.depart k n)).2.inst.gate = _
      rw [hact, Instance.dismiss, hdepart]
      simp only [Instance.foldl_report]
      exact ⟨rfl, rfl⟩
    have hcleared : ∀ r, p.stage = .waiting r → Gate.cleared gate r.phase.awaited =
        if r.phase.awaited.carried = r.phase.awaited.ingress then .ok true
        else .error .unmatchedDeparture := by
      intro r hr
      split
      · next heq => exact Backlog.cleared_of_eq heq
      · next hne =>
        -- no reader of the backlog is left, so this departure exceeds the arrivals
        obtain ⟨hwaits, -, ⟨hcarried, hle⟩, unmatched, hmissing, -⟩ := hr ▸ ha.awaited
        have hnone : p.history.inFlight.count c.side.opposite = 0 :=
          List.count_eq_zero.2 (hopposite ▸ habsent)
        have hlt := Nat.lt_of_le_of_ne hle (mt UInt64.toNat_inj.1 hne)
        rw [hleft.2]
        refine hafter.keeps.cleared_eq_error hcarried hlt ?_
        rw [hwaits, hopposite, Counts.egress_depart_opposite, Counts.egress_count_same]
        omega
    refine ⟨hleft.1, ?_, fun r hr => ?_, hcleared⟩
    · rw [hleft.2, hafter.keeps.toNat_egress, ha.keeps.toNat_egress, hopposite,
        Counts.egress_depart_opposite, Counts.egress_count_same]
    · have hresting := (hcontrol.inCharge.2).resolve_right fun h => by
        rw [show p.session.inst.round = some r from hr] at h
        cases h.2
      rw [hcleared r (by rw [Point.stage, hresting, Instance.stage, hr]; rfl),
        if_neg (hpending r hr)]

/-- At every point of every schedule, whether or not a writer waits: a departure from the active
side without a reader in flight there is reported as misuse and changes nothing; such a departure
from the other side is accepted. Every script is such a schedule. -/
theorem unmatched_departures_found_on_active_side (c : Config) (init : Copies α) :
    let start : Session IngressWord Side Backlog α ρ := .ofInstance (.ingressWord c init)
    (∀ ticks, let p := (Point.start start).after ticks
      p.history.peak ≤ 2 ^ 19 → p.history.Fitting →
        ∀ k n, Gate.ticket IngressWord n ∉ p.history.inFlight → p.UnmatchedDeparture k n) ∧
      ∀ script, ∃ ticks, start.IsScheduleOf script ticks := by
  intro start
  have hs : start.Exclusive .resting := Session.exclusive_fresh _ _ _ _ _ _
  refine ⟨?_, Session.exists_isScheduleOf hs rfl⟩
  intro ticks p hpeak hfitting k n habsent
  have hstyle : p.inst.style = .exclusive := Point.style_after (p := .start start) hs ticks
  have hpending : p.Pending := Point.pending_after (p := .start start) nofun ticks
  obtain ⟨counts, hbalanced⟩ := countsBalanced_after c init ticks hpeak hfitting
  exact hbalanced.departure_unmatched hpending (Point.exclusive_after hs ticks) hstyle habsent

/-- A writer waits for a query, which then ends. -/
def leftBehind : List (Tick Nat Nat) :=
  let count : Mutation Nat Nat := .ofFunction fun n => (n + 1, n)
  [.caller (.enter 0), .caller (.mutate 0 count false), .writer, .writer, .writer, .writer, .writer,
    .caller (.leave false)]

theorem unmatched_departures_found_while_draining :
    let p := (Point.start (.ofInstance (.ingressWord .standard ⟨5, 5⟩))).after leftBehind
    p.history.peak ≤ 2 ^ 19 ∧ p.history.Fitting ∧ p.history.inFlight = [] ∧
      p.inst.activeSide = .right ∧ p.inst.round.isSome ∧ p.UnmatchedDeparture 0 0 ∧
        p.UnmatchedDeparture 0 1 := by
  intro p
  have hpeak : p.history.peak ≤ 2 ^ 19 := by decide +kernel
  have hfitting : p.history.Fitting := by decide +kernel
  have habsent : p.history.inFlight = [] := by decide +kernel
  have hfound := (unmatched_departures_found_on_active_side .standard
    (⟨5, 5⟩ : Copies Nat) (ρ := Nat)).1 leftBehind hpeak hfitting 0
  refine ⟨hpeak, hfitting, habsent, by decide +kernel, by decide +kernel, ?_, ?_⟩
  · exact hfound 0 (by rw [habsent]; exact List.not_mem_nil)
  · exact hfound 1 (by rw [habsent]; exact List.not_mem_nil)

/-- Not every departure from a side without readers in flight is refused: a departure from the right
side of a fresh instance is accepted. -/
theorem unmatched_departure_passes :
    ¬ ∀ (ticks : List (Tick Nat Nat)) (n : Nat),
      let p := (Point.start (.ofInstance (.ingressWord .standard ⟨5, 5⟩))).after ticks
      Gate.ticket IngressWord n ∉ p.history.inFlight →
        (∃ f, (p.session.act (.depart 0 n)).1 = .error (.fault f none)) ∧
          (p.session.act (.depart 0 n)).2.inst.gate = p.inst.gate := by
  intro hall
  obtain ⟨⟨f, hrefused⟩, -⟩ := hall [] 1 List.not_mem_nil
  cases hrefused

end TwinCopy
