import TwinCopy.Proofs.ObservationalEq
import TwinCopy.Proofs.BackwardClosed

/-!
# Simulation of gates, lifted to instances

`GateSim l fine Rel` says that `Rel` is a lock-step simulation between two gates with the same
tickets: related gates admit and dismiss the same readers, send them to the same side, make a writer
wait at the same time, and look the same under the projection `l`. The relation is indexed by the
phase in which a writer waits, if one does. It has to be preserved only while the second gate
satisfies `fine`, which is a backward closed condition, so that it suffices to know it at the end of
a run. A map that commutes with the operations of two gates (`GateHom`) is a simulation without any
condition.

`Instance.SimAt` pairs a simulation of gates with observational equality of the instances, and
`Instance.Sim` adds that the same round is suspended in both. The lemmas lift the simulation through
the functions of an instance, from a single arrival to `settle`.
-/

namespace TwinCopy

variable {γ κ δ γ' δ' α ρ : Type} [Gate γ κ δ] [Gate γ' κ δ']

/-- Maps the backlog that a writer waits for. -/
def Phase.map {ε : Type} (f : δ → ε) : Phase δ → Phase ε
  | .standby d => .standby (f d)
  | .clearing d => .clearing (f d)

/-- `Rel` is a simulation between two gates, up to the projection `l` and as long as `fine` holds of
the second one. Its last argument is the phase in which a writer waits, with the backlog at each
gate. -/
structure GateSim (l : Projection) (fine : γ' → Prop)
    (Rel : γ → γ' → Option (Phase (δ × δ')) → Prop) : Prop where
  backwardClosed : BackwardClosed fine
  slotted_eq : Gate.slotted γ' = Gate.slotted γ
  ticket_eq : ∀ n, Gate.ticket γ' n = Gate.ticket γ n
  side_eq : ∀ {g g' p}, Rel g g' p → Gate.side g' = Gate.side g
  view_eq : ∀ {g g' p}, Rel g g' p → l.gate (Gate.view g') = l.gate (Gate.view g)
  arrive : ∀ {g g' p}, Rel g g' p → ∀ index,
    (∃ m, Gate.arrive g index = .error m ∧ Gate.arrive g' index = .error m) ∨
      ∃ ticket u u', Gate.arrive g index = .ok (ticket, u) ∧
        Gate.arrive g' index = .ok (ticket, u') ∧ (fine u' → Rel u u' p)
  depart : ∀ {g g' p}, Rel g g' p → ∀ index ticket, fine (Gate.depart g' index ticket).2 →
    Rel (Gate.depart g index ticket).2 (Gate.depart g' index ticket).2 p ∧
      ((∃ m, (Gate.depart g index ticket).1 = .error m ∧
          (Gate.depart g' index ticket).1 = .error m) ∨
        ∃ events events', (Gate.depart g index ticket).1 = .ok events ∧
          (Gate.depart g' index ticket).1 = .ok events' ∧
          events'.filter l.event = events.filter l.event)
  turn : ∀ {g g'}, Rel g g' none →
    Rel (Gate.turn g).2 (Gate.turn g').2 (some (.standby ((Gate.turn g).1, (Gate.turn g').1)))
  standby_eq : ∀ {g g' d d'}, Rel g g' (some (.standby (d, d'))) →
    Gate.standby g' d' = Gate.standby g d
  shift : ∀ {g g' d d'}, Rel g g' (some (.standby (d, d'))) → Gate.standby g d = true →
    Rel (Gate.shift g d) (Gate.shift g' d') (some (.clearing (d, d')))
  cleared_eq : ∀ {g g' d d'}, Rel g g' (some (.clearing (d, d'))) →
    Gate.cleared g' d' = Gate.cleared g d
  rest : ∀ {g g' d d'}, Rel g g' (some (.clearing (d, d'))) → Gate.cleared g d ≠ .ok false →
    Rel g g' none
  clearedEvent : ∀ {g g' d d'}, Rel g g' (some (.clearing (d, d'))) →
    [Gate.clearedEvent γ' d'].filter l.event = [Gate.clearedEvent γ d].filter l.event
  appliedEvent : ∀ {g g'}, Rel g g' none → ∀ mutations side,
    [Gate.appliedEvent g' mutations side].filter l.event =
      [Gate.appliedEvent g mutations side].filter l.event

/-! ## Homomorphisms of gates -/

/-- A map of gates that commutes with every operation. -/
structure GateHom [Gate γ' κ δ] (φ : γ' → γ) : Prop where
  slotted : Gate.slotted γ' = Gate.slotted γ
  ticket : ∀ n, Gate.ticket γ' n = Gate.ticket γ n
  side : ∀ g, Gate.side g = Gate.side (φ g)
  view : ∀ g, Gate.view g = Gate.view (φ g)
  arrive : ∀ g index, (Gate.arrive g index).map (Prod.map id φ) = Gate.arrive (φ g) index
  depart : ∀ g index ticket,
    (Gate.depart g index ticket).map id φ = Gate.depart (φ g) index ticket
  turn : ∀ g, (Gate.turn g).map id φ = Gate.turn (φ g)
  standby : ∀ g d, Gate.standby g d = Gate.standby (φ g) d
  shift : ∀ g d, φ (Gate.shift g d) = Gate.shift (φ g) d
  cleared : ∀ g d, Gate.cleared g d = Gate.cleared (φ g) d
  clearedEvent : ∀ d, Gate.clearedEvent γ' d = Gate.clearedEvent γ d
  appliedEvent : ∀ g n side, Gate.appliedEvent g n side = Gate.appliedEvent (φ g) n side

/-- The graph of a homomorphism of gates, as a relation indexed by what a writer waits for. -/
structure HomGraph [Gate γ' κ δ] (φ : γ' → γ) (g : γ) (g' : γ') (p : Option (Phase (δ × δ))) :
    Prop where
  gate : φ g' = g
  phase : ∀ q ∈ p, q.map Prod.snd = q.map Prod.fst

lemma GateHom.gateSim [Gate γ' κ δ] {φ : γ' → γ} (F : GateHom φ) (l : Projection) :
    GateSim l (fun _ : γ' => True) (HomGraph φ) where
  backwardClosed := .always
  slotted_eq := F.slotted
  ticket_eq := F.ticket
  side_eq h := by rw [F.side, h.gate]
  view_eq h := by rw [F.view, h.gate]
  arrive {g g' p} h index := by
    obtain ⟨rfl, hphase⟩ := h
    have harrive := F.arrive g' index
    rcases hresult : Gate.arrive g' index with m | ⟨ticket, u⟩ <;> rw [hresult] at harrive
    · exact .inl ⟨m, harrive.symm, rfl⟩
    · exact .inr ⟨ticket, φ u, u, harrive.symm, rfl, fun _ => ⟨rfl, hphase⟩⟩
  depart {g g' p} h index ticket _ := by
    obtain ⟨rfl, hphase⟩ := h
    rw [← F.depart]
    refine ⟨⟨rfl, hphase⟩, ?_⟩
    rcases hresult : (Gate.depart g' index ticket).1 with m | events
    · exact .inl ⟨m, hresult, rfl⟩
    · exact .inr ⟨events, events, hresult, rfl, rfl⟩
  turn {g g'} h := by
    obtain ⟨rfl, -⟩ := h
    rw [← F.turn]
    exact ⟨rfl, by rintro q ⟨⟩; rfl⟩
  standby_eq h := by
    obtain ⟨rfl, hphase⟩ := h
    cases hphase _ rfl
    exact F.standby _ _
  shift h _ := by
    obtain ⟨rfl, hphase⟩ := h
    cases hphase _ rfl
    exact ⟨F.shift _ _, by rintro q ⟨⟩; rfl⟩
  cleared_eq h := by
    obtain ⟨rfl, hphase⟩ := h
    cases hphase _ rfl
    exact F.cleared _ _
  rest h _ := ⟨h.gate, nofun⟩
  clearedEvent h := by
    obtain ⟨-, hphase⟩ := h
    cases hphase _ rfl
    rw [F.clearedEvent]
  appliedEvent h n side := by rw [F.appliedEvent, h.gate]

/-- The identity is a homomorphism of gates. -/
lemma GateHom.refl : GateHom (id : γ → γ) where
  slotted := rfl
  ticket _ := rfl
  side _ := rfl
  view _ := rfl
  arrive g index := by
    rw [id_eq]
    cases Gate.arrive g index <;> rfl
  depart _ _ _ := rfl
  turn _ := rfl
  standby _ _ := rfl
  shift _ _ := rfl
  cleared _ _ := rfl
  clearedEvent _ := rfl
  appliedEvent _ _ _ := rfl

namespace Instance

variable {l : Projection} {fine : γ' → Prop} {Rel : γ → γ' → Option (Phase (δ × δ')) → Prop}
  {place : Nat → Nat} {s : Instance γ δ α ρ} {t : Instance γ' δ' α ρ} {p : Option (Phase (δ × δ'))}

/-- Two instances are observationally equal and their gates are related, in the phase `p`. -/
structure SimAt (l : Projection) (Rel : γ → γ' → Option (Phase (δ × δ')) → Prop) (place : Nat → Nat)
    (s : Instance γ δ α ρ) (t : Instance γ' δ' α ρ) (p : Option (Phase (δ × δ'))) : Prop where
  obsEq : ObsEq l place s t
  gate : Rel s.gate t.gate p

/-- Either no round is suspended, or the same round is in both instances, in the phase given. -/
inductive SameRound (place : Nat → Nat) (s : Instance γ δ α ρ) (t : Instance γ' δ' α ρ) :
    Option (Phase (δ × δ')) → Prop where
  | idle (hs : s.round = none) (ht : t.round = none) : SameRound place s t none
  | waiting {batch : Batch α ρ} {old : Side} {p : Phase (δ × δ')}
      (hs : s.round = some ⟨batch, old, p.map Prod.fst⟩)
      (ht : t.round = some ⟨placed place batch, old, p.map Prod.snd⟩) : SameRound place s t (some p)

/-- Two instances are observationally equal, their gates are related, and the same round is
suspended in both. -/
def Sim (l : Projection) (Rel : γ → γ' → Option (Phase (δ × δ')) → Prop) (place : Nat → Nat)
    (s : Instance γ δ α ρ) (t : Instance γ' δ' α ρ) : Prop :=
  ∃ p, SimAt l Rel place s t p ∧ SameRound place s t p

lemma SameRound.congr {s' : Instance γ δ α ρ} {t' : Instance γ' δ' α ρ} (h : SameRound place s t p)
    (hs : s'.round = s.round) (ht : t'.round = t.round) : SameRound place s' t' p := by
  cases h with
  | idle hidle hidle' => exact .idle (hs.trans hidle) (ht.trans hidle')
  | waiting hwaits hwaits' => exact .waiting (hs.trans hwaits) (ht.trans hwaits')

namespace SimAt

/-! ## Readers -/

lemma activeSide_eq (K : GateSim l fine Rel) (h : SimAt l Rel place s t p) :
    t.activeSide = s.activeSide :=
  K.side_eq h.gate

lemma view_eq (K : GateSim l fine Rel) (h : SimAt l Rel place s t p) :
    t.view.mapGate l.gate = s.view.mapGate l.gate := by
  simp only [View.mapGate, view, h.activeSide_eq K, K.view_eq h.gate, h.obsEq.mutations,
    h.obsEq.batches]

lemma misused (h : SimAt l Rel place s t p) (m : Misuse) :
    SimAt l Rel place (s.misused m).2 (t.misused m).2 p :=
  ⟨h.obsEq.report rfl, h.gate⟩

lemma arrive (K : GateSim l fine Rel) (h : SimAt l Rel place s t p) (slot : Slot)
    (hfine : fine (t.arrive slot).2.gate) :
    (t.arrive slot).1 = (s.arrive slot).1 ∧
      SimAt l Rel place (s.arrive slot).2 (t.arrive slot).2 p := by
  have hid : t.registry.id = s.registry.id := by rw [h.obsEq.registry]
  unfold Instance.arrive at hfine ⊢
  by_cases hissuer : slot.issuer = s.registry.id
  · rw [if_pos (hissuer.trans hid.symm)] at hfine
    rw [if_pos (hissuer.trans hid.symm), if_pos hissuer]
    rcases K.arrive h.gate slot.index with ⟨m, hs, ht⟩ | ⟨ticket, u, u', hs, ht, hrel⟩
    · rw [hs, ht]
      exact ⟨rfl, h.misused m⟩
    · rw [ht] at hfine
      rw [hs, ht]
      exact ⟨rfl, { h.obsEq with }, hrel hfine⟩
  · rw [if_neg fun heq => hissuer (heq.trans hid), if_neg hissuer]
    exact ⟨rfl, h.misused .foreignSlot⟩

lemma dismiss (K : GateSim l fine Rel) (h : SimAt l Rel place s t p) (slot : Slot) (ticket : κ)
    (hfine : fine (t.dismiss slot ticket).2.gate) :
    (t.dismiss slot ticket).1 = (s.dismiss slot ticket).1 ∧
      SimAt l Rel place (s.dismiss slot ticket).2 (t.dismiss slot ticket).2 p := by
  have hfine' : fine (Gate.depart t.gate slot.index ticket).2 := by
    obtain ⟨log, ht⟩ := t.dismiss_state slot ticket
    rwa [ht] at hfine
  obtain ⟨hrel, hresult⟩ := K.depart h.gate slot.index ticket hfine'
  -- related gates agree on whether the departure is accepted
  rcases s.dismiss_cases slot ticket with ⟨events, g, hd, hs⟩ | ⟨m, g, hd, hs⟩ <;>
    rcases t.dismiss_cases slot ticket with ⟨events', g', hd', ht⟩ | ⟨m', g', hd', ht⟩ <;>
    rw [hd, hd'] at hrel hresult <;> rw [hs, ht]
  · rcases hresult with ⟨m, hm, -⟩ | ⟨_, _, hevents, hevents', hevent⟩
    · cases hm
    · cases hevents
      cases hevents'
      have hreverse : events'.reverse.filter l.event = events.reverse.filter l.event := by
        rw [List.filter_reverse, List.filter_reverse, hevent]
      exact ⟨rfl, { h.obsEq.logged hreverse with }, hrel⟩
  · rcases hresult with ⟨m, hm, -⟩ | ⟨_, _, -, hevents', -⟩
    · cases hm
    · cases hevents'
  · rcases hresult with ⟨m, -, hm⟩ | ⟨_, _, hevents, -, -⟩
    · cases hm
    · cases hevents
  · rcases hresult with ⟨m, hm, hm'⟩ | ⟨_, _, hevents, -, -⟩
    · cases hm
      cases hm'
      have hreported : ObsEq l place (s.report (.misused m)) (t.report (.misused m)) :=
        h.obsEq.report rfl
      exact ⟨rfl, { hreported with }, hrel⟩
    · cases hevents

lemma depart (K : GateSim l fine Rel) (h : SimAt l Rel place s t p) (slot : Slot) (ticket : κ)
    (hfine : fine (t.depart slot ticket).2.gate) :
    (t.depart slot ticket).1 = (s.depart slot ticket).1 ∧
      SimAt l Rel place (s.depart slot ticket).2 (t.depart slot ticket).2 p := by
  unfold Instance.depart at hfine ⊢
  rw [h.obsEq.registry] at hfine ⊢
  by_cases hissuer : slot.issuer = s.registry.id
  · rw [if_pos hissuer] at hfine
    rw [if_pos hissuer, if_pos hissuer]
    exact h.dismiss K slot ticket hfine
  · rw [if_neg hissuer, if_neg hissuer]
    exact ⟨rfl, h.misused .foreignSlot⟩

lemma enter (K : GateSim l fine Rel) (h : SimAt l Rel place s t p) (slot : Slot)
    (hfine : fine (t.enter slot).2.gate) :
    (t.enter slot).1 = (s.enter slot).1 ∧
      SimAt l Rel place (s.enter slot).2 (t.enter slot).2 p := by
  have harrive := h.arrive K slot
  unfold Instance.enter at hfine ⊢
  rcases hs : s.arrive slot with ⟨f | ticket, s'⟩ <;>
    rcases ht : t.arrive slot with ⟨f' | ticket', t'⟩ <;>
    simp only [hs, ht] at harrive hfine ⊢ <;> obtain ⟨hresult, hnext⟩ := harrive hfine
  · exact ⟨congrArg _ (Except.error.inj hresult), hnext⟩
  · cases hresult
  · cases hresult
  · cases hresult
    exact ⟨by rw [hnext.activeSide_eq K], hnext⟩

lemma given_eq (h : SimAt l Rel place s t p) (v : Visit κ) : t.given v = s.given v := by
  rw [given, given, h.obsEq.copies]

lemma read (K : GateSim l fine Rel) (h : SimAt l Rel place s t p) (slot : Slot)
    (hfine : fine (t.read slot).2.gate) :
    (t.read slot).1 = (s.read slot).1 ∧
      SimAt l Rel place (s.read slot).2 (t.read slot).2 p := by
  have hentered : fine (t.enter slot).2.gate := by
    rcases ht : t.enter slot with ⟨f | v, t'⟩
    · rw [Instance.read, ht] at hfine
      exact hfine
    · rw [read_of_enter ht] at hfine
      obtain ⟨log, hleave⟩ := t'.dismiss_state v.slot v.ticket
      rw [leave, hleave] at hfine
      exact K.backwardClosed.depart hfine
  obtain ⟨hresult, hnext⟩ := h.enter K slot hentered
  rcases hs : s.enter slot with ⟨f | v, s'⟩ <;> rcases ht : t.enter slot with ⟨f' | v', t'⟩ <;>
    rw [hs, ht] at hresult hnext <;> cases hresult
  · rw [Instance.read, Instance.read, hs, ht]
    exact ⟨rfl, hnext⟩
  · rw [read_of_enter ht] at hfine
    rw [read_of_enter hs, read_of_enter ht]
    obtain ⟨hleft, hgone⟩ := hnext.dismiss K v.slot v.ticket hfine
    exact ⟨by rw [leave, hleft, hnext.given_eq]; rfl, hgone⟩

lemma register (h : SimAt l Rel place s t p) :
    t.register.1 = s.register.1 ∧ SimAt l Rel place s.register.2 t.register.2 p := by
  unfold Instance.register
  rw [h.obsEq.registry]
  rcases s.registry.register with e | ⟨slot, registry⟩
  · exact ⟨rfl, h⟩
  · have hclaimed : ObsEq l place { s with registry } { t with registry } :=
      { h.obsEq with registry := rfl }
    exact ⟨rfl, hclaimed.report rfl, h.gate⟩

lemma release (h : SimAt l Rel place s t p) (slot : Slot) :
    SimAt l Rel place (s.release slot) (t.release slot) p :=
  ⟨{ h.obsEq with registry := congrArg (Registry.release · slot.index) h.obsEq.registry }, h.gate⟩

lemma readAnew (K : GateSim l fine Rel) (h : SimAt l Rel place s t p)
    (hfine : fine t.readAnew.2.gate) :
    t.readAnew.1 = s.readAnew.1 ∧ SimAt l Rel place s.readAnew.2 t.readAnew.2 p := by
  unfold Instance.readAnew at hfine ⊢
  rw [K.slotted_eq] at hfine ⊢
  by_cases hslotted : Gate.slotted γ = true
  · rw [if_pos hslotted] at hfine
    rw [if_pos hslotted, if_pos hslotted]
    obtain ⟨hresult, hnext⟩ := h.register
    rcases hs : s.register with ⟨e | slot, s'⟩ <;> rcases ht : t.register with ⟨e' | slot', t'⟩ <;>
      rw [hs, ht] at hresult hnext <;> cases hresult
    · exact ⟨rfl, hnext⟩
    · rw [ht] at hfine
      obtain ⟨hread, hgone⟩ := hnext.read K slot hfine
      exact ⟨congrArg (Except.mapError (Failure.fault · none)) hread, hgone.release slot⟩
  · rw [if_neg hslotted] at hfine
    rw [if_neg hslotted, if_neg hslotted]
    have hcommon : t.commonSlot = s.commonSlot := by rw [commonSlot, h.obsEq.registry, commonSlot]
    rw [hcommon] at hfine ⊢
    obtain ⟨hread, hgone⟩ := h.read K s.commonSlot hfine
    exact ⟨congrArg (Except.mapError (Failure.fault · none)) hread, hgone⟩

/-! ## Writers -/

lemma looked (K : GateSim l fine Rel) (h : SimAt l Rel place s t p) (r : Request α ρ)
    (hfine : fine (t.looked r).gate) : SimAt l Rel place (s.looked r) (t.looked r) p := by
  unfold Instance.looked at hfine ⊢
  by_cases hobserved : r.observed = true
  · rw [if_pos hobserved] at hfine
    rw [if_pos hobserved, if_pos hobserved]
    obtain ⟨hresult, hread⟩ := h.readAnew K hfine
    have hseen : (Observation.mk t.view
        (t.readAnew.1.map (·, t.readAnew.2.lock.tryAcquire.isSome))).mapGate l.gate =
        (Observation.mk s.view
          (s.readAnew.1.map (·, s.readAnew.2.lock.tryAcquire.isSome))).mapGate l.gate := by
      simp only [Observation.mapGate, h.view_eq K, hresult, hread.obsEq.lock]
    exact ⟨hread.obsEq.note r.writer hseen, hread.gate⟩
  · rw [if_neg hobserved, if_neg hobserved]
    exact h

/-- A pass over the embedded batch has the same result and leaves the same copies. -/
lemma pass (K : GateSim l fine Rel) (side : Side) (n : Nat) (batch : Batch α ρ)
    (h : SimAt l Rel place s t p) (hfine : fine (t.pass side n (placed place batch)).2.gate) :
    (t.pass side n (placed place batch)).1 = (s.pass side n batch).1 ∧
      SimAt l Rel place (s.pass side n batch).2 (t.pass side n (placed place batch)).2 p := by
  induction batch generalizing s t with
  | nil => exact ⟨rfl, h⟩
  | cons x batch ih =>
    obtain ⟨i, r⟩ := x
    have hcons : placed place ((i, r) :: batch) = (place i, r) :: placed place batch := rfl
    rw [hcons, pass_cons t] at hfine ⊢
    rw [pass_cons s]
    have hcopies : t.copies = s.copies := h.obsEq.copies
    rcases houtcome : (r.mutation.apply n (s.copies.get side)).outcome with message | output
    · rw [pass_singleton_error t side n _ r (by rw [hcopies]; exact houtcome)] at hfine ⊢
      rw [pass_singleton_error s side n i r houtcome, hcopies]
      have hlooked := h.looked K r hfine
      exact ⟨rfl, { hlooked.obsEq with copies := rfl }, hlooked.gate⟩
    · rw [pass_singleton_ok t side n _ r (by rw [hcopies]; exact houtcome)] at hfine ⊢
      rw [hcopies] at hfine ⊢
      rw [pass_singleton_ok s side n i r houtcome]
      have hmid := K.backwardClosed.pass (placed place batch) { t.looked r with
        copies := s.copies.set side (r.mutation.apply n (s.copies.get side)).copy
        cells := if n = 1 then t.cells.modify (place i) ({ · with result := some output })
          else t.cells } side n hfine
      have hlooked := h.looked K r hmid
      refine ih ⟨{ hlooked.obsEq with copies := rfl, cells := ?_ }, hlooked.gate⟩ hfine
      show EmbedsCells place (if n = 1 then _ else _) (if n = 1 then _ else _)
      split
      · exact h.obsEq.cells.modify _ _
      · exact h.obsEq.cells

lemma abandon (h : SimAt l Rel place s t p) (batch : Batch α ρ) (fault : Fault) :
    SimAt l Rel place (s.abandon batch fault) (t.abandon (placed place batch) fault) p :=
  ⟨h.obsEq.abandon batch fault, by rw [gate_abandon, gate_abandon]; exact h.gate⟩

lemma complete (K : GateSim l fine Rel) (h : SimAt l Rel place s t none) (batch : Batch α ρ)
    (old : Side) :
    SimAt l Rel place (s.complete batch old) (t.complete (placed place batch) old) none :=
  ⟨h.obsEq.complete batch old (K.appliedEvent h.gate),
    by rw [gate_complete, gate_complete]; exact h.gate⟩

/-! ## Rounds -/

/-- Both rounds are suspended, or both are ended: the gates give the same verdict on the old
side. -/
lemma clear (K : GateSim l fine Rel) {d : δ} {d' : δ'}
    (h : SimAt l Rel place s t (some (.clearing (d, d')))) (hs : s.round = none)
    (ht : t.round = none) (batch : Batch α ρ) (old : Side)
    (hfine : fine (t.clear (placed place batch) old d').gate) :
    Sim l Rel place (s.clear batch old d) (t.clear (placed place batch) old d') := by
  have hrest := K.rest h.gate
  revert hfine hrest
  unfold Instance.clear
  rw [K.cleared_eq h.gate]
  -- only where the verdict is that the readers are gone is there a second pass
  rcases Gate.cleared s.gate d with m | _ | _
  · intro _ hrest
    have hover : SimAt l Rel place (s.misused m).2 (t.misused m).2 none :=
      ⟨h.obsEq.report rfl, hrest nofun⟩
    exact ⟨none, hover.abandon batch (.misuse m),
      .idle ((round_abandon _ _ _).trans hs) ((round_abandon _ _ _).trans ht)⟩
  · intro _ _
    exact ⟨_, ⟨{ h.obsEq with }, h.gate⟩, .waiting rfl rfl⟩
  · intro hfine hrest
    have hcleared : SimAt l Rel place (s.report (Gate.clearedEvent γ d))
        (t.report (Gate.clearedEvent γ' d')) none :=
      ⟨h.obsEq.report (K.clearedEvent h.gate), hrest nofun⟩
    have hpass := hcleared.pass K old 2 batch
    have hs' := (round_pass batch (s.report (Gate.clearedEvent γ d)) old 2).trans hs
    have ht' :=
      (round_pass (placed place batch) (t.report (Gate.clearedEvent γ' d')) old 2).trans ht
    rcases hsecond' : Instance.pass (t.report (Gate.clearedEvent γ' d')) old 2 (placed place batch)
      with ⟨r', t'⟩
    have hmid : fine t'.gate := by
      rw [hsecond'] at hfine
      cases r' <;> simpa using hfine
    rw [hsecond'] at hpass
    obtain ⟨hresult, hsim⟩ := hpass hmid
    rcases hsecond : Instance.pass (s.report (Gate.clearedEvent γ d)) old 2 batch
      with ⟨f | ⟨⟨⟩⟩, s'⟩ <;>
      simp only [hsecond, hsecond'] at hresult hsim hs' ht' ⊢ <;> subst hresult
    · exact ⟨none, hsim.abandon batch f, .idle (by simpa using hs') (by simpa using ht')⟩
    · exact ⟨none, hsim.complete K batch old, .idle (by simpa using hs') (by simpa using ht')⟩

lemma proceed (K : GateSim l fine Rel) {p : Phase (δ × δ')} (h : SimAt l Rel place s t (some p))
    (hs : s.round = none) (ht : t.round = none) (batch : Batch α ρ) (old : Side)
    (hfine : fine (t.proceed ⟨placed place batch, old, p.map Prod.snd⟩).gate) :
    Sim l Rel place (s.proceed ⟨batch, old, p.map Prod.fst⟩)
      (t.proceed ⟨placed place batch, old, p.map Prod.snd⟩) := by
  obtain ⟨d, d'⟩ | ⟨d, d'⟩ := p
  · have hstandby := K.standby_eq h.gate
    simp only [Phase.map, Instance.proceed, hstandby] at hfine ⊢
    by_cases hgo : Gate.standby s.gate d = true
    · rw [if_pos hgo] at hfine
      rw [if_pos hgo, if_pos hgo]
      have hshifted : SimAt l Rel place { s with gate := Gate.shift s.gate d }
          { t with gate := Gate.shift t.gate d' } (some (.clearing (d, d'))) :=
        ⟨{ h.obsEq with }, K.shift h.gate hgo⟩
      exact hshifted.clear K hs ht batch old hfine
    · rw [if_neg hgo, if_neg hgo]
      exact ⟨_, ⟨{ h.obsEq with }, h.gate⟩, .waiting rfl rfl⟩
  · exact h.clear K hs ht batch old hfine

/-- Both rounds begin, and are then suspended in the same phase or ended. -/
lemma begin (K : GateSim l fine Rel) (h : SimAt l Rel place s t none) (hs : s.round = none)
    (ht : t.round = none) (batch : Batch α ρ) (hfine : fine (t.begin (placed place batch)).gate) :
    Sim l Rel place (s.begin batch) (t.begin (placed place batch)) := by
  have hpass := h.pass K s.activeSide.opposite 1 batch
  have hs' := (round_pass batch s s.activeSide.opposite 1).trans hs
  have ht' := (round_pass (placed place batch) t s.activeSide.opposite 1).trans ht
  simp only [Instance.begin] at hfine ⊢
  rw [h.activeSide_eq K] at hfine ⊢
  rcases hfirst' : t.pass s.activeSide.opposite 1 (placed place batch) with ⟨r', t'⟩
  rw [hfirst'] at hpass hfine
  have hmid : fine t'.gate := by
    cases r' with
    | error f => simpa using hfine
    | ok => exact K.backwardClosed.turn (K.backwardClosed.leads (leads_proceed _ _) hfine)
  obtain ⟨hresult, hsim⟩ := hpass hmid
  rcases hfirst : s.pass s.activeSide.opposite 1 batch with ⟨f | ⟨⟨⟩⟩, s'⟩ <;>
    simp only [hfirst, hfirst'] at hresult hsim hs' ht' hfine ⊢ <;> subst hresult
  · exact ⟨none, hsim.abandon batch f, .idle (by simpa using hs') (by simpa using ht')⟩
  · have hturned : SimAt l Rel place { s' with gate := (Gate.turn s'.gate).2 }
        { t' with gate := (Gate.turn t'.gate).2 }
        (some (.standby ((Gate.turn s'.gate).1, (Gate.turn t'.gate).1))) :=
      ⟨{ hsim.obsEq with }, K.turn hsim.gate⟩
    exact hturned.proceed K hs' ht' batch s.activeSide hfine

end SimAt

namespace Sim

lemma obsEq (h : Sim l Rel place s t) : ObsEq l place s t := by
  obtain ⟨p, hsim, -⟩ := h
  exact hsim.obsEq

lemma round_isSome (h : Sim l Rel place s t) : t.round.isSome = s.round.isSome := by
  obtain ⟨p, -, hrounds⟩ := h
  cases hrounds with
  | idle hs ht => rw [hs, ht, Option.isSome_none, Option.isSome_none]
  | waiting hs ht => rw [hs, ht, Option.isSome_some, Option.isSome_some]

lemma resume (K : GateSim l fine Rel) (h : Sim l Rel place s t) (hfine : fine t.resume.gate) :
    Sim l Rel place s.resume t.resume := by
  obtain ⟨p, hsim, hrounds⟩ := h
  cases hrounds with
  | idle hs ht =>
    simp only [Instance.resume, hs, ht]
    exact ⟨none, hsim, .idle hs ht⟩
  | @waiting batch old p hs ht =>
    simp only [Instance.resume, hs, ht] at hfine ⊢
    have hfree : SimAt l Rel place { s with round := none } { t with round := none } (some p) :=
      ⟨{ hsim.obsEq with }, hsim.gate⟩
    exact hfree.proceed K rfl rfl batch old hfine

/-- While a round is suspended its writer holds the lock, so that no other writer is elected. -/
lemma elect (K : GateSim l fine Rel) (h : Sim l Rel place s t) (hcharge : s.InCharge .resting)
    (hfine : fine t.elect.gate) : Sim l Rel place s.elect t.elect := by
  have hpublished : t.published = placed place s.published := published_placed h.obsEq.cells
  have hnil : t.published = [] ↔ s.published = [] := by
    rw [hpublished, placed, List.map_eq_nil_iff]
  have hlock := h.obsEq.lock
  by_cases hidle : s.published = [] ∨ s.lock.locked = true
  · rw [elect_of_idle hidle, elect_of_idle (by rwa [hnil, hlock])]
    exact h
  · obtain ⟨p, hsim, hrounds⟩ := h
    obtain ⟨hsome, hlocked⟩ := not_or.1 hidle
    have hfree : s.lock.locked = false := by simpa using hlocked
    cases hrounds with
    | waiting hs => exact absurd (.inr (hcharge.1 (by simp [hs]))) hidle
    | idle hs ht =>
      rw [elect_of_free (hnil.not.2 hsome) (by rwa [hlock]), hpublished] at hfine ⊢
      rw [elect_of_free hsome hfree]
      have hrounds : SimAt l Rel place { s with lock := { s.lock with locked := true } }
          { t with lock := { t.lock with locked := true } } none :=
        ⟨{ hsim.obsEq with lock := by rw [hlock] }, hsim.gate⟩
      exact hrounds.begin K hs ht s.published hfine

/-- The simulation is preserved when both instances run their writers until these are done or
wait. -/
lemma settle (K : GateSim l fine Rel) (h : Sim l Rel place s t) (hcharge : s.InCharge .resting)
    (hfine : fine t.settle.gate) : Sim l Rel place s.settle t.settle := by
  unfold Instance.settle at hfine ⊢
  rw [h.obsEq.writers_isEmpty] at hfine ⊢
  split
  · exact h
  · next hwriters =>
    rw [if_neg hwriters] at hfine
    exact (h.resume K (K.backwardClosed.elect hfine)).elect K
      (s.leads_resume.inCharge hcharge) hfine

end Sim

end Instance

end TwinCopy
