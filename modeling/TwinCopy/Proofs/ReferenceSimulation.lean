import TwinCopy.Proofs.ReferenceGate

/-!
# Simulation of an instance behind the reference gate

Behind a gate that `SimulatesRef` an instance behaves like the one behind the reference gate:
readers are sent to the same side and given the same copy, and writers make the same passes and wait
at the same time. `RefSimAt` says that the two instances are equal off the gate and that their gates
are related, and `RefSim` adds that the same round is suspended in both. The lemmas lift the
simulation through the functions of an instance, from one arrival to `settle`. Each assumes `fine`
of the log of the reference gate afterwards, from which it follows for the log before.
-/

namespace TwinCopy

variable {γ κ δ α ρ : Type} [Gate γ κ δ]

namespace Instance

/-! ## The simulation relation -/

/-- The second instance is equal to the first off the gate, its gate is related to the reference
gate with the backlog `d`, and its registry is unbounded. -/
structure RefSimAt (shown : GateView → GateView) (fits : RefGate → γ → Option δ → Prop)
    (s : Instance RefGate Side α ρ) (t : Instance γ δ α ρ) (d : Option δ) : Prop where
  eqOffGate : EqOffGate shown s t
  gate : fits s.gate t.gate d
  registry : ∃ next, t.registry = ⟨0, .unbounded next⟩

/-- Either no round is suspended, or the same round is in both instances, with the backlog given. -/
inductive SameRefRound (s : Instance RefGate Side α ρ) (t : Instance γ δ α ρ) :
    Option δ → Prop where
  | idle (hs : s.round = none) (ht : t.round = none) : SameRefRound s t none
  | waiting {batch : Batch α ρ} {old : Side} {d : δ}
      (hs : s.round = some ⟨batch, old, .clearing s.gate.side.opposite⟩)
      (ht : t.round = some ⟨batch, old, .clearing d⟩) : SameRefRound s t (some d)

/-- The instances are related, and the same round is suspended in both. -/
def RefSim (shown : GateView → GateView) (fits : RefGate → γ → Option δ → Prop)
    (s : Instance RefGate Side α ρ) (t : Instance γ δ α ρ) : Prop :=
  ∃ d, RefSimAt shown fits s t d ∧ SameRefRound s t d

lemma SameRefRound.congr {s s' : Instance RefGate Side α ρ} {t t' : Instance γ δ α ρ} {d : Option δ}
    (h : SameRefRound s t d) (hs : s'.round = s.round) (hside : s'.gate.side = s.gate.side)
    (ht : t'.round = t.round) : SameRefRound s' t' d := by
  cases h with
  | idle hidle hidle' => exact .idle (hs.trans hidle) (ht.trans hidle')
  | waiting hwaits hwaits' => exact .waiting (by rw [hs, hwaits, hside]) (ht.trans hwaits')

/-! ## Behind the reference gate -/

section RefGate

variable (s : Instance RefGate Side α ρ)

lemma arrive_refGate :
    s.arrive s.commonSlot = (.ok s.gate.side, { s with gate := s.gate.arrive }) :=
  if_pos rfl

lemma enter_refGate : s.enter s.commonSlot =
    (.ok ⟨s.commonSlot, s.gate.side, s.gate.side⟩, { s with gate := s.gate.arrive }) := by
  rw [enter, arrive_refGate]
  rfl

lemma gate_dismiss_refGate (slot : Slot) (side : Side) :
    (s.dismiss slot side).2.gate = (s.gate.depart side).2 := by
  obtain ⟨log, h⟩ := s.dismiss_state slot side
  rw [h]
  rfl

lemma readAnew_refGate : s.readAnew = ((s.read s.commonSlot).1.mapError (.fault · none),
    (s.read s.commonSlot).2) :=
  rfl

end RefGate

variable {ticket : Side → κ} {shown : GateView → GateView} {fine : List Passage → Prop}
  {fits : RefGate → γ → Option δ → Prop}

namespace RefSimAt

variable {s : Instance RefGate Side α ρ} {t : Instance γ δ α ρ} {d : Option δ}

/-! ## Readers -/

lemma activeSide_eq (M : SimulatesRef ticket shown fine fits) (h : RefSimAt shown fits s t d) :
    t.activeSide = s.activeSide :=
  M.side_eq h.gate

lemma view_eq (M : SimulatesRef ticket shown fine fits) (h : RefSimAt shown fits s t d)
    (hfine : fine s.gate.log) : t.view.mapGate shown = s.view.mapGate shown := by
  simp only [View.mapGate, view, h.activeSide_eq M, M.shown_eq h.gate hfine, h.eqOffGate.mutations,
    h.eqOffGate.batches]

lemma arrive (M : SimulatesRef ticket shown fine fits) (h : RefSimAt shown fits s t d)
    (hfine : fine s.gate.arrive.log) {slot : Slot} (hslot : slot.issuer = 0) :
    ∃ gate, t.arrive slot = (.ok (ticket s.gate.side), { t with gate }) ∧
      RefSimAt shown fits { s with gate := s.gate.arrive } { t with gate } d := by
  obtain ⟨next, hregistry⟩ := h.registry
  obtain ⟨gate, harrive, hfits⟩ := M.arrive h.gate hfine slot.index
  refine ⟨gate, ?_, { h.eqOffGate with }, hfits, next, hregistry⟩
  rw [Instance.arrive, if_pos (by rw [hslot, hregistry]), harrive]

lemma enter (M : SimulatesRef ticket shown fine fits) (h : RefSimAt shown fits s t d)
    (hfine : fine s.gate.arrive.log) {slot : Slot} (hslot : slot.issuer = 0) :
    ∃ gate, t.enter slot = (.ok ⟨slot, ticket s.gate.side, s.gate.side⟩, { t with gate }) ∧
      RefSimAt shown fits { s with gate := s.gate.arrive } { t with gate } d := by
  obtain ⟨gate, harrive, hsim⟩ := h.arrive M hfine hslot
  refine ⟨gate, ?_, hsim⟩
  rw [Instance.enter, harrive]
  simp only [hsim.activeSide_eq M]
  rfl

lemma dismiss (M : SimulatesRef ticket shown fine fits) (h : RefSimAt shown fits s t d)
    (side : Side) (slot slot' : Slot) (hfine : fine (s.dismiss slot side).2.gate.log) :
    (t.dismiss slot' (ticket side)).1 = (s.dismiss slot side).1 ∧
      RefSimAt shown fits (s.dismiss slot side).2 (t.dismiss slot' (ticket side)).2 d := by
  rw [gate_dismiss_refGate] at hfine
  obtain ⟨hresult, hfits⟩ := M.depart side h.gate hfine slot'.index
  have href : Gate.depart s.gate slot.index side = s.gate.depart side := rfl
  rw [← href] at hresult hfits
  -- the gates agree on whether the departure is accepted, so two of the four cases are absurd
  rcases s.dismiss_cases slot side with ⟨_, _, hd, hs⟩ | ⟨_, _, hd, hs⟩ <;>
    rcases t.dismiss_cases slot' (ticket side) with ⟨_, _, hd', ht⟩ | ⟨_, _, hd', ht⟩ <;>
    rw [hd, hd'] at hresult hfits
  · rw [hs, ht]
    exact ⟨rfl, { h.eqOffGate with }, hfits, h.registry⟩
  · cases hresult
  · cases hresult
  · cases hresult
    rw [hs, ht]
    exact ⟨rfl, { h.eqOffGate with }, hfits, h.registry⟩

lemma read (M : SimulatesRef ticket shown fine fits) (h : RefSimAt shown fits s t d)
    (hfine : fine (s.read s.commonSlot).2.gate.log) {slot : Slot} (hslot : slot.issuer = 0) :
    (t.read slot).1 = (s.read s.commonSlot).1 ∧
      RefSimAt shown fits (s.read s.commonSlot).2 (t.read slot).2 d := by
  rw [read_of_enter s.enter_refGate] at hfine ⊢
  simp only [leave] at hfine ⊢
  have harrived : fine s.gate.arrive.log := by
    rw [gate_dismiss_refGate] at hfine
    exact M.fine_of_suffix (s.gate.arrive.suffix_depart _) hfine
  obtain ⟨gate, henter, hsim⟩ := h.enter M harrived hslot
  obtain ⟨hresult, hleft⟩ := hsim.dismiss M s.gate.side s.commonSlot slot hfine
  rw [read_of_enter henter]
  simp only [leave, hresult]
  exact ⟨by rw [given, given, hsim.eqOffGate.copies], hleft⟩

/-- The registry is unbounded, so a read from within an application always gets a slot. -/
lemma readAnew (M : SimulatesRef ticket shown fine fits) (h : RefSimAt shown fits s t d)
    (hfine : fine s.readAnew.2.gate.log) :
    t.readAnew.1 = s.readAnew.1 ∧ RefSimAt shown fits s.readAnew.2 t.readAnew.2 d := by
  rw [readAnew_refGate] at hfine ⊢
  obtain ⟨next, hregistry⟩ := h.registry
  by_cases hslotted : Gate.slotted γ = true
  · have hregistered : RefSimAt shown fits s
        ({ t with registry := ⟨0, .unbounded (next + 1)⟩ }.report
          (.slotRegistered next.toNat)) d :=
      ⟨{ h.eqOffGate with }, h.gate, _, rfl⟩
    obtain ⟨hresult, hread⟩ := hregistered.read M hfine
      (show (⟨0, next.toNat⟩ : Slot).issuer = 0 from rfl)
    simp only [Instance.readAnew, hslotted, if_true, register, hregistry, Registry.register,
      hresult, true_and]
    obtain ⟨next', hregistry'⟩ := hread.registry
    exact ⟨{ hread.eqOffGate with }, hread.gate, next', by rw [release, hregistry']; rfl⟩
  · have hissuer : t.commonSlot.issuer = 0 := by rw [commonSlot, hregistry]
    obtain ⟨hresult, hread⟩ := h.read M hfine hissuer
    simp only [Instance.readAnew, hslotted, Bool.false_eq_true, if_false, Prod.map_fst,
      Prod.map_snd, hresult]
    exact ⟨trivial, hread⟩

/-! ## Writers -/

lemma looked (M : SimulatesRef ticket shown fine fits) (h : RefSimAt shown fits s t d)
    (r : Request α ρ) (hfine : fine (s.looked r).gate.log) :
    RefSimAt shown fits (s.looked r) (t.looked r) d := by
  unfold Instance.looked at hfine ⊢
  by_cases hobserved : r.observed = true
  · simp only [hobserved, if_true] at hfine ⊢
    have hsuffix : s.gate.log <:+ s.readAnew.2.gate.log := by
      have hobserve := s.looked_cases r
      obtain ⟨gate, registry, log, note, hlooked, hlook⟩ := hobserve
      have hgate := congrArg Instance.gate hlooked
      simp only [Instance.looked, hobserved, if_true] at hgate
      change s.readAnew.2.gate = gate at hgate
      rw [hgate]
      exact (RefGate.backwardClosed _).look hlook List.suffix_rfl
    obtain ⟨hresult, hread⟩ := h.readAnew M hfine
    have hseen : (Observation.mk t.view
        (t.readAnew.1.map (·, t.readAnew.2.lock.tryAcquire.isSome))).mapGate shown =
        (Observation.mk s.view
          (s.readAnew.1.map (·, s.readAnew.2.lock.tryAcquire.isSome))).mapGate shown := by
      simp only [Observation.mapGate, h.view_eq M (M.fine_of_suffix hsuffix hfine), hresult,
        hread.eqOffGate.lock]
    exact ⟨hread.eqOffGate.note r.writer hseen, hread.gate, hread.registry⟩
  · simp only [hobserved, Bool.false_eq_true, if_false]
    exact h

/-- A pass has the same result and leaves the same copies. -/
lemma pass (M : SimulatesRef ticket shown fine fits) (side : Side) (n : Nat) (batch : Batch α ρ)
    (h : RefSimAt shown fits s t d) (hfine : fine (s.pass side n batch).2.gate.log) :
    (t.pass side n batch).1 = (s.pass side n batch).1 ∧
      RefSimAt shown fits (s.pass side n batch).2 (t.pass side n batch).2 d := by
  induction batch generalizing s t with
  | nil => exact ⟨rfl, h⟩
  | cons x batch ih =>
    obtain ⟨i, r⟩ := x
    rw [pass_cons s] at hfine ⊢
    rw [pass_cons t]
    have hcopies : t.copies = s.copies := h.eqOffGate.copies
    rcases houtcome : (r.mutation.apply n (s.copies.get side)).outcome with message | output
    · rw [pass_singleton_error s side n i r houtcome] at hfine ⊢
      rw [pass_singleton_error t side n i r (by rw [hcopies]; exact houtcome), hcopies]
      have hlooked := h.looked M r hfine
      exact ⟨rfl, { hlooked.eqOffGate with copies := rfl }, hlooked.gate, hlooked.registry⟩
    · rw [pass_singleton_ok s side n i r houtcome] at hfine ⊢
      rw [pass_singleton_ok t side n i r (by rw [hcopies]; exact houtcome), hcopies,
        h.eqOffGate.cells]
      have hsuffix := suffix_pass batch { s.looked r with
        copies := s.copies.set side (r.mutation.apply n (s.copies.get side)).copy
        cells := if n = 1 then s.cells.modify i ({ · with result := some output })
          else s.cells } side n
      have hlooked := h.looked M r (M.fine_of_suffix hsuffix hfine)
      exact ih ⟨{ hlooked.eqOffGate with copies := rfl, cells := rfl }, hlooked.gate,
        hlooked.registry⟩ hfine

lemma abandon (h : RefSimAt shown fits s t d) (batch : Batch α ρ) (fault : Fault) :
    RefSimAt shown fits (s.abandon batch fault) (t.abandon batch fault) d := by
  refine ⟨h.eqOffGate.abandon batch fault, ?_, ?_⟩
  · rw [gate_abandon, gate_abandon]
    exact h.gate
  · rw [registry_abandon]
    exact h.registry

lemma complete (h : RefSimAt shown fits s t d) (batch : Batch α ρ) (old : Side) :
    RefSimAt shown fits (s.complete batch old) (t.complete batch old) d := by
  refine ⟨h.eqOffGate.complete batch old, ?_, ?_⟩
  · rw [gate_complete, gate_complete]
    exact h.gate
  · rw [registry_complete]
    exact h.registry

/-! ## Rounds -/

/-- Both rounds are suspended while there are readers on the old side, and ended otherwise. -/
lemma clear (M : SimulatesRef ticket shown fine fits) {d : δ} (h : RefSimAt shown fits s t (some d))
    (hs : s.round = none) (ht : t.round = none) (batch : Batch α ρ) (old : Side)
    (hfine : fine (s.clear batch old s.gate.side.opposite).gate.log) :
    RefSim shown fits (s.clear batch old s.gate.side.opposite) (t.clear batch old d) := by
  have hstart : fine s.gate.log := M.fine_of_suffix (s.leads_clear batch old _).suffix hfine
  have hcleared : Gate.cleared s.gate s.gate.side.opposite =
      .ok (decide (s.gate.side.opposite ∉ s.gate.inside)) := rfl
  revert hfine
  unfold Instance.clear
  rw [hcleared, M.cleared h.gate hstart]
  -- only where the verdict is that the readers are gone is there a second pass
  rcases hclear : decide (s.gate.side.opposite ∉ s.gate.inside) with _ | _
  · intro _
    exact ⟨some d, ⟨{ h.eqOffGate with }, h.gate, h.registry⟩, .waiting rfl rfl⟩
  · have hrest : RefSimAt shown fits (s.report (Gate.clearedEvent RefGate s.gate.side.opposite))
        (t.report (Gate.clearedEvent γ d)) none :=
      ⟨h.eqOffGate.report _ _, M.rest h.gate (of_decide_eq_true hclear), h.registry⟩
    have hpass := hrest.pass M old 2 batch
    have hs' := (round_pass batch (s.report (Gate.clearedEvent RefGate s.gate.side.opposite))
      old 2).trans hs
    have ht' := (round_pass batch (t.report (Gate.clearedEvent γ d)) old 2).trans ht
    rcases hsecond' : Instance.pass (t.report (Gate.clearedEvent γ d)) old 2 batch with ⟨r', t'⟩
    rcases hsecond : Instance.pass (s.report (Gate.clearedEvent RefGate s.gate.side.opposite)) old 2
        batch with ⟨f | ⟨⟨⟩⟩, s'⟩ <;>
      simp only [hsecond, hsecond'] at hpass hs' ht' ⊢ <;> intro hfine <;>
      obtain ⟨rfl, hsim⟩ := hpass (by simpa using hfine)
    · exact ⟨none, hsim.abandon batch f, .idle (by simpa using hs') (by simpa using ht')⟩
    · exact ⟨none, hsim.complete batch old, .idle (by simpa using hs') (by simpa using ht')⟩

/-- Both rounds begin, and are then suspended together or ended. -/
lemma begin (M : SimulatesRef ticket shown fine fits) (h : RefSimAt shown fits s t none)
    (hs : s.round = none) (ht : t.round = none) (batch : Batch α ρ)
    (hfine : fine (s.begin batch).gate.log) :
    RefSim shown fits (s.begin batch) (t.begin batch) := by
  have hpass := h.pass M s.activeSide.opposite 1 batch
  have hs' := (round_pass batch s s.activeSide.opposite 1).trans hs
  have ht' := (round_pass batch t s.activeSide.opposite 1).trans ht
  simp only [Instance.begin] at hfine ⊢
  rw [h.activeSide_eq M]
  rcases hfirst' : t.pass s.activeSide.opposite 1 batch with ⟨r', t'⟩
  rcases hfirst : s.pass s.activeSide.opposite 1 batch with ⟨f | ⟨⟨⟩⟩, s'⟩ <;>
    simp only [hfirst, hfirst'] at hpass hs' ht' hfine ⊢
  · obtain ⟨rfl, hsim⟩ := hpass (by simpa using hfine)
    exact ⟨none, hsim.abandon batch f, .idle (by simpa using hs') (by simpa using ht')⟩
  · -- at the reference gate the backlog of a round is the side that it has turned
    have href : proceed { s' with gate := (Gate.turn s'.gate).2 }
        ⟨batch, s.activeSide, .standby (Gate.turn s'.gate).1⟩ =
        { s' with gate := s'.gate.turn }.clear batch s.activeSide s'.gate.turn.side.opposite := by
      rw [RefGate.turn, Side.opposite_opposite]
      rfl
    rw [href] at hfine ⊢
    have hsuffix := (leads_clear { s' with gate := s'.gate.turn } batch s.activeSide
      s'.gate.turn.side.opposite).suffix
    have hturned : fine s'.gate.turn.log := M.fine_of_suffix hsuffix hfine
    obtain ⟨rfl, hsim⟩ := hpass hturned
    obtain ⟨hstandby, hfits⟩ := M.turn hsim.gate hturned
    have hshifted : RefSimAt shown fits { s' with gate := s'.gate.turn }
        { t' with gate := Gate.shift (Gate.turn t'.gate).2 (Gate.turn t'.gate).1 }
        (some (Gate.turn t'.gate).1) :=
      ⟨{ hsim.eqOffGate with }, hfits, hsim.registry⟩
    simp only [proceed, hstandby, if_true]
    exact hshifted.clear M hs' ht' batch s.activeSide hfine

end RefSimAt

namespace RefSim

variable {s : Instance RefGate Side α ρ} {t : Instance γ δ α ρ}

lemma eqOffGate (h : RefSim shown fits s t) : EqOffGate shown s t := by
  obtain ⟨d, hsim, -⟩ := h
  exact hsim.eqOffGate

lemma round_isSome (h : RefSim shown fits s t) : t.round.isSome = s.round.isSome := by
  obtain ⟨d, -, hrounds⟩ := h
  cases hrounds with
  | idle hs ht => rw [hs, ht, Option.isSome_none, Option.isSome_none]
  | waiting hs ht => rw [hs, ht, Option.isSome_some, Option.isSome_some]

lemma dismiss (M : SimulatesRef ticket shown fine fits) (h : RefSim shown fits s t) (side : Side)
    (slot slot' : Slot) (hfine : fine (s.dismiss slot side).2.gate.log) :
    (t.dismiss slot' (ticket side)).1 = (s.dismiss slot side).1 ∧
      RefSim shown fits (s.dismiss slot side).2 (t.dismiss slot' (ticket side)).2 := by
  obtain ⟨d, hsim, hrounds⟩ := h
  obtain ⟨hresult, hgone⟩ := hsim.dismiss M side slot slot' hfine
  obtain ⟨log, hs⟩ := s.dismiss_state slot side
  obtain ⟨log', ht⟩ := t.dismiss_state slot' (ticket side)
  exact ⟨hresult, d, hgone, hrounds.congr (by rw [hs])
    (by rw [gate_dismiss_refGate, RefGate.side_depart]) (by rw [ht])⟩

lemma relock (h : RefSim shown fits s t) (lock : SpinLock) :
    RefSim shown fits { s with lock } { t with lock } := by
  obtain ⟨d, hsim, hrounds⟩ := h
  exact ⟨d, ⟨{ hsim.eqOffGate with lock := rfl }, hsim.gate, hsim.registry⟩,
    hrounds.congr rfl rfl rfl⟩

lemma publish (h : RefSim shown fits s t) (i : Nat) (r : Request α ρ) :
    RefSim shown fits (s.publish i r) (t.publish i r) := by
  obtain ⟨d, hsim, hrounds⟩ := h
  exact ⟨d, ⟨hsim.eqOffGate.publish i r, hsim.gate, hsim.registry⟩,
    hrounds.congr rfl rfl rfl⟩

lemma resume (M : SimulatesRef ticket shown fine fits) (h : RefSim shown fits s t)
    (hfine : fine s.resume.gate.log) : RefSim shown fits s.resume t.resume := by
  obtain ⟨d, hsim, hrounds⟩ := h
  cases hrounds with
  | idle hs ht =>
    simp only [Instance.resume, hs, ht]
    exact ⟨none, hsim, .idle hs ht⟩
  | waiting hs ht =>
    simp only [Instance.resume, hs, ht, proceed] at hfine ⊢
    exact RefSimAt.clear M (s := { s with round := none }) (t := { t with round := none })
      ⟨{ hsim.eqOffGate with }, hsim.gate, hsim.registry⟩ rfl rfl _ _ hfine

/-- While a round is suspended its writer holds the lock, so that no other writer is elected. -/
lemma elect (M : SimulatesRef ticket shown fine fits) (h : RefSim shown fits s t)
    (hcharge : s.InCharge .resting) (hfine : fine s.elect.gate.log) :
    RefSim shown fits s.elect t.elect := by
  have hpublished := h.eqOffGate.published
  have hlock := h.eqOffGate.lock
  by_cases hidle : s.published = [] ∨ s.lock.locked = true
  · rw [elect_of_idle hidle, elect_of_idle (by rwa [hpublished, hlock])]
    exact h
  · obtain ⟨d, hsim, hrounds⟩ := h
    cases hrounds with
    | waiting hs => exact absurd (.inr (hcharge.1 (by simp [hs]))) hidle
    | idle hs ht =>
      obtain ⟨hsome, hlocked⟩ := not_or.1 hidle
      have hfree : s.lock.locked = false := by simpa using hlocked
      have hacquire : s.lock.tryAcquire = some { s.lock with locked := true } := by
        simp [SpinLock.tryAcquire, hfree]
      have helect : ∀ {γ κ δ : Type} [Gate γ κ δ] (u : Instance γ δ α ρ),
          u.published = s.published → u.lock = s.lock →
            u.elect = { u with lock := { s.lock with locked := true } }.begin s.published := by
        intro γ κ δ _ u hu hu'
        unfold Instance.elect
        rw [hu, hu']
        rcases hbatch : s.published with _ | ⟨x, batch⟩
        · exact absurd hbatch hsome
        · rw [hacquire]
      rw [helect s rfl rfl] at hfine ⊢
      rw [helect t hpublished hlock]
      have hheld : RefSimAt shown fits { s with lock := { s.lock with locked := true } }
          { t with lock := { s.lock with locked := true } } none :=
        ⟨{ hsim.eqOffGate with lock := rfl }, hsim.gate, hsim.registry⟩
      exact hheld.begin M hs ht _ hfine

/-- The simulation is preserved when both instances run their writers until these are done or
wait. -/
lemma settle (M : SimulatesRef ticket shown fine fits) (h : RefSim shown fits s t)
    (hcharge : s.InCharge .resting) (hfine : fine s.settle.gate.log) :
    RefSim shown fits s.settle t.settle := by
  unfold Instance.settle at hfine ⊢
  rw [h.eqOffGate.writers_isEmpty]
  split
  · exact h
  · next hwriters =>
    rw [if_neg hwriters] at hfine
    have hcharge' : s.resume.InCharge .resting := s.leads_resume.inCharge hcharge
    have hsuffix : s.resume.gate.log <:+ s.resume.elect.gate.log := by
      by_cases hround : s.resume.round = none
      · exact (leads_elect hround).suffix
      · rw [elect_of_idle (.inr (hcharge'.1 hround))]
    exact (h.resume M (M.fine_of_suffix hsuffix hfine)).elect M hcharge' hfine

end RefSim

end Instance

end TwinCopy
