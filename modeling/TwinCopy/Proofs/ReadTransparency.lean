import TwinCopy.Proofs.ExactGates
import TwinCopy.Proofs.LoggedGate

/-!
# Gates that a completed read does not change

An arrival and the departure that belongs to it may change the state of a gate: counts of arrivals
have grown, and a word without versions may have been rebased. `ReadTransparent` says that the
behaviour is still the same. It is a simulation between a gate and a logged gate under which the
gate is still related to the logged one after the latter has admitted and dismissed another reader.

`ReaderDetermined` gates, whose behaviour depends on the readers inside and on nothing else of their
history, are read-transparent within their limits (`ReaderDetermined.readTransparent`).
-/

namespace TwinCopy

variable {γ κ δ : Type}

/-! ## Waiting -/

/-- The backlog of a phase. -/
def Phase.backlog : Phase δ → δ
  | .standby d | .clearing d => d

/-- Whether the gate makes a writer wait in this phase. -/
def Phase.blocks [Gate γ κ δ] (g : γ) : Phase δ → Bool
  | .standby d => !Gate.standby g d
  | .clearing d =>
      match Gate.cleared g d with
      | .ok cleared => !cleared
      | .error _ => false

lemma Instance.waits_eq {α ρ : Type} [Gate γ κ δ] (s : Instance γ δ α ρ) (ph : Phase δ) :
    s.waits ph = ph.blocks s.gate := by
  cases ph <;> rfl

/-- Changes to the gate and the log keep an instance at a standstill if a writer that waited still
has to wait. -/
lemma Instance.still_of_blocks {α ρ : Type} [Gate γ κ δ] {u : Instance γ δ α ρ} {gate : γ}
    {log : List Event} (h : u.still = true)
    (hblocks : ∀ r, u.round = some r → r.phase.blocks u.gate = true → r.phase.blocks gate = true) :
    ({ u with gate, log } : Instance γ δ α ρ).still = true := by
  rw [Instance.still_iff] at h ⊢
  rcases h with hwriters | hidle | ⟨r, hround, hlock, hwaits⟩
  · exact .inl hwriters
  · exact .inr (.inl hidle)
  · refine .inr (.inr ⟨r, hround, hlock, ?_⟩)
    rw [Instance.waits_eq] at hwaits ⊢
    exact hblocks r hround hwaits

/-- Related gates make a writer wait at the same time. -/
lemma GateSim.blocks_eq {γ' δ' : Type} [Gate γ κ δ] [Gate γ' κ δ'] {l : Projection}
    {fine : γ' → Prop}
    {Rel : γ → γ' → Option (Phase (δ × δ')) → Prop} (K : GateSim l fine Rel) {g : γ} {g' : γ'}
    {ph : Phase (δ × δ')} (h : Rel g g' (some ph)) :
    (ph.map Prod.snd).blocks g' = (ph.map Prod.fst).blocks g := by
  obtain ⟨d, d'⟩ | ⟨d, d'⟩ := ph
  · simp only [Phase.map, Phase.blocks, K.standby_eq h]
  · simp only [Phase.map, Phase.blocks, K.cleared_eq h]

variable [DecidableEq κ]

/-- A simulation between a gate and a logged gate that is preserved when only the logged gate admits
and dismisses a reader, whose slot is that of no reader inside. No arrival lets a waiting writer go
on. -/
structure ReadTransparent [Gate γ κ δ] (l : Projection) (fine : LoggedGate γ κ → Prop)
    (Rel : γ → LoggedGate γ κ → Option (Phase (δ × δ)) → Prop) : Prop
    extends GateSim l fine Rel where
  blocks : ∀ {g q ph index ticket u}, Rel g q (some ph) → Gate.arrive q index = .ok (ticket, u) →
    fine u → (ph.map Prod.snd).blocks q = true → (ph.map Prod.snd).blocks u = true
  returns : ∀ {g q p index ticket u}, Rel g q p →
    (Gate.slotted γ = true → index ∉ (Transit.inside q.transits).map Prod.fst) →
      Gate.arrive q index = .ok (ticket, u) → fine (Gate.depart u index ticket).2 →
        Rel g (Gate.depart u index ticket).2 p

/-! ## Gates determined by the readers inside -/

/-- A gate that knows the readers inside exactly, and for which two states that know the same
readers and have the same side and current ticket behave and look the same. -/
structure ReaderDetermined [Gate γ κ δ] (l : Projection) (current : γ → κ) (old : δ → κ)
    (limit : List κ → Nat → Prop)
    (Knows : γ → Option (Phase δ) → List (Nat × κ) → Nat → Prop) : Prop
    extends ExactGateInv current old limit Knows where
  limit_mono : ∀ {tickets n n'}, n ≤ n' → limit tickets n' → limit tickets n
  view_eq : ∀ {g g' p p' readers n n'}, Knows g p readers n → Knows g' p' readers n' →
    Gate.side g' = Gate.side g → current g' = current g →
      l.gate (Gate.view g') = l.gate (Gate.view g)
  quiet : ∀ {g p readers n index ticket events}, Knows g p ((index, ticket) :: readers) n →
    (Gate.depart g index ticket).1 = .ok events → events.filter l.event = []
  turned : ∀ {g g' readers n n'}, Knows g none readers n → Knows g' none readers n' →
    Gate.side g' = Gate.side g → current g' = current g →
      current (Gate.turn g').2 = current (Gate.turn g).2 ∧
        Gate.clearedEvent γ (Gate.turn g').1 = Gate.clearedEvent γ (Gate.turn g).1
  shifted : ∀ {g g' d d' readers n n'}, Knows g (some (.standby d)) readers n →
    Knows g' (some (.standby d')) readers n' → current g' = current g → old d' = old d →
      current (Gate.shift g' d') = current (Gate.shift g d)
  applied : ∀ (g g' : γ) n side, Gate.appliedEvent g' n side = Gate.appliedEvent g n side

/-- A gate and a logged gate know the same readers inside, which are those of the log, and a writer
waits for the same of them at both. -/
structure SameReaders [Gate γ κ δ] (current : γ → κ) (old : δ → κ)
    (Knows : γ → Option (Phase δ) → List (Nat × κ) → Nat → Prop) (g : γ) (q : LoggedGate γ κ)
    (p : Option (Phase (δ × δ))) : Prop where
  knows : ∃ n ≤ Transit.arrivals q.transits,
    Knows g (p.map (Phase.map Prod.fst)) (Transit.inside q.transits) n
  knows' : Knows q.gate (p.map (Phase.map Prod.snd)) (Transit.inside q.transits)
    (Transit.arrivals q.transits)
  side : Gate.side q.gate = Gate.side g
  current : current q.gate = current g
  backlog : ∀ ph ∈ p, old ph.backlog.2 = old ph.backlog.1 ∧
    Gate.clearedEvent γ ph.backlog.2 = Gate.clearedEvent γ ph.backlog.1

section ReaderDetermined

variable [Gate γ κ δ] {l : Projection} {current : γ → κ} {old : δ → κ} {limit : List κ → Nat → Prop}
  {Knows : γ → Option (Phase δ) → List (Nat × κ) → Nat → Prop} {g g' : γ} {q u : LoggedGate γ κ}
  {p : Option (Phase (δ × δ))} {d d' : δ} {index : Nat} {ticket : κ}

namespace SameReaders

/-- The relation holds before any arrival. -/
lemma start (hknows : Knows g none [] 0) : SameReaders current old Knows g ⟨g, []⟩ none :=
  ⟨⟨0, Nat.zero_le _, hknows⟩, hknows, rfl, rfl, nofun⟩

lemma arrive (I : ReaderDetermined l current old limit Knows)
    (h : SameReaders current old Knows g q p)
    (index : Nat) : ∃ ticket g' u, Gate.arrive g index = .ok (ticket, g') ∧
      Gate.arrive q index = .ok (ticket, u) ∧
        (Transit.Regular limit u.transits → SameReaders current old Knows g' u p) := by
  obtain ⟨n, hn, hknows⟩ := h.knows
  obtain ⟨g', harrive⟩ := I.admits hknows index
  obtain ⟨u, harrive'⟩ := I.admits h.knows' index
  rw [h.current] at harrive'
  refine ⟨current g, g', _, harrive, LoggedGate.arrive_of_ok harrive', ?_⟩
  rintro ⟨-, hlimit⟩
  obtain ⟨hcame, hside, hcurrent⟩ :=
    I.arrive hknows harrive (I.limit_mono (Nat.succ_le_succ hn) hlimit)
  obtain ⟨hcame', hside', hcurrent'⟩ := I.arrive h.knows' harrive' hlimit
  exact ⟨⟨n + 1, Nat.succ_le_succ hn, hcame⟩, hcame', by rw [hside', hside, h.side],
    by rw [hcurrent', hcurrent, h.current], h.backlog⟩

lemma depart (I : ReaderDetermined l current old limit Knows)
    (h : SameReaders current old Knows g q p)
    (hinside : (index, ticket) ∈ Transit.inside q.transits) :
    SameReaders current old Knows (Gate.depart g index ticket).2 (Gate.depart q index ticket).2 p ∧
      ∃ events events', (Gate.depart g index ticket).1 = .ok events ∧
        (Gate.depart q index ticket).1 = .ok events' ∧
          events'.filter l.event = events.filter l.event := by
  obtain ⟨n, hn, hknows⟩ := h.knows
  have hperm := List.perm_cons_erase hinside
  have hfirst := I.perm hperm hknows
  have hsecond := I.perm hperm h.knows'
  obtain ⟨hgone, hside, hcurrent⟩ := I.depart hfirst
  obtain ⟨hgone', hside', hcurrent'⟩ := I.depart hsecond
  obtain ⟨events, hevents⟩ := I.departs hfirst
  obtain ⟨events', hevents'⟩ := I.departs hsecond
  refine ⟨⟨⟨n, hn, hgone⟩, hgone', ?_, ?_, h.backlog⟩, events, events', hevents, hevents', ?_⟩
  · exact hside'.trans (h.side.trans hside.symm)
  · exact hcurrent'.trans (h.current.trans hcurrent.symm)
  · rw [I.quiet hfirst hevents, I.quiet hsecond hevents']

lemma turn (I : ReaderDetermined l current old limit Knows)
    (h : SameReaders current old Knows g q none) :
    SameReaders current old Knows (Gate.turn g).2 (Gate.turn q).2
      (some (.standby ((Gate.turn g).1, (Gate.turn q).1))) := by
  obtain ⟨n, hn, hknows⟩ := h.knows
  obtain ⟨hturned, hold, hside⟩ := I.turn hknows
  obtain ⟨hturned', hold', hside'⟩ := I.turn h.knows'
  obtain ⟨hcurrent, hevent⟩ := I.turned hknows h.knows' h.side h.current
  refine ⟨⟨n, hn, hturned⟩, hturned', ?_, hcurrent, ?_⟩
  · exact hside'.trans ((congrArg Side.opposite h.side).trans hside.symm)
  · rintro ph ⟨⟩
    exact ⟨hold'.trans (h.current.trans hold.symm), hevent⟩

lemma shift (I : ReaderDetermined l current old limit Knows)
    (h : SameReaders current old Knows g q (some (.standby (d, d')))) :
    SameReaders current old Knows (Gate.shift g d) (Gate.shift q d')
      (some (.clearing (d, d'))) := by
  obtain ⟨n, hn, hknows⟩ := h.knows
  obtain ⟨hshifted, hside⟩ := I.shift hknows (I.standby hknows)
  obtain ⟨hshifted', hside'⟩ := I.shift h.knows' (I.standby h.knows')
  refine ⟨⟨n, hn, hshifted⟩, hshifted', ?_, ?_, ?_⟩
  · exact hside'.trans (h.side.trans hside.symm)
  · exact I.shifted hknows h.knows' h.current (h.backlog _ rfl).1
  · rintro ph ⟨⟩
    exact h.backlog (.standby (d, d')) rfl

/-- Whether the awaited readers are gone is determined by the readers inside. -/
lemma cleared_eq (I : ReaderDetermined l current old limit Knows)
    (h : SameReaders current old Knows g q (some (.clearing (d, d')))) :
    Gate.cleared q d' = Gate.cleared g d := by
  obtain ⟨n, -, hknows⟩ := h.knows
  have hold : old d' = old d := (h.backlog _ rfl).1
  have hcleared :
      Gate.cleared q d' = .ok (decide (old d' ∉ (Transit.inside q.transits).map Prod.snd)) :=
    I.cleared h.knows'
  rw [hcleared, hold]
  exact (I.cleared hknows).symm

lemma rest (I : ReaderDetermined l current old limit Knows)
    (h : SameReaders current old Knows g q (some (.clearing (d, d'))))
    (hcleared : Gate.cleared g d ≠ .ok false) : SameReaders current old Knows g q none := by
  obtain ⟨n, hn, hknows⟩ := h.knows
  have hgone : Gate.cleared g d = .ok true := by
    have hresult := I.cleared hknows
    by_cases hmem : old d ∉ (Transit.inside q.transits).map Prod.snd
    · rwa [decide_eq_true hmem] at hresult
    · rw [decide_eq_false hmem] at hresult
      exact absurd hresult hcleared
  have hgone' : Gate.cleared q.gate d' = .ok true := (h.cleared_eq I).trans hgone
  exact ⟨⟨n, hn, I.clear hknows hgone⟩, I.clear h.knows' hgone', h.side, h.current, nofun⟩

/-- A writer that waits for readers inside still waits for them when there are more. -/
lemma blocks {ph : Phase (δ × δ)} (I : ReaderDetermined l current old limit Knows)
    (h : SameReaders current old Knows g q (some ph))
    (h' : SameReaders current old Knows g' u (some ph))
    (hinside : Transit.inside q.transits ⊆ Transit.inside u.transits)
    (hblocks : (ph.map Prod.snd).blocks q = true) : (ph.map Prod.snd).blocks u = true := by
  rcases ph with ⟨d, d'⟩ | ⟨d, d'⟩
  · have hstandby : Gate.standby q d' = true := I.standby h.knows'
    simp [Phase.map, Phase.blocks, hstandby] at hblocks
  · have hcleared :
      Gate.cleared q d' = .ok (decide (old d' ∉ (Transit.inside q.transits).map Prod.snd)) :=
      I.cleared h.knows'
    have hcleared' :
        Gate.cleared u d' = .ok (decide (old d' ∉ (Transit.inside u.transits).map Prod.snd)) :=
      I.cleared h'.knows'
    simp only [Phase.map, Phase.blocks, hcleared, hcleared', Bool.not_eq_true',
      decide_eq_false_iff_not, not_not] at hblocks ⊢
    exact List.map_subset Prod.snd hinside hblocks

/-- An arrival and its departure increase the number of arrivals and change nothing else. -/
lemma returns (I : ReaderDetermined l current old limit Knows)
    (h : SameReaders current old Knows g q p)
    (harrive : Gate.arrive q index = .ok (ticket, u))
    (hregular : Transit.Regular limit u.transits) :
    SameReaders current old Knows g (Gate.depart u index ticket).2 p := by
  obtain ⟨n, hn, hknows⟩ := h.knows
  obtain ⟨hadmitted, htransits⟩ := LoggedGate.eq_of_arrive harrive
  rw [htransits] at hregular
  obtain ⟨hcame, hside, hcurrent⟩ := I.arrive h.knows' hadmitted hregular.2
  obtain ⟨hgone, hside', hcurrent'⟩ := I.depart hcame
  have hinside :
      Transit.inside (Gate.depart u index ticket).2.transits = Transit.inside q.transits := by
    show Transit.inside (.departed index ticket :: u.transits) = _
    rw [htransits, Transit.inside_visit]
  have harrivals :
      Transit.arrivals (Gate.depart u index ticket).2.transits =
          Transit.arrivals q.transits + 1 := by
    show Transit.arrivals (.departed index ticket :: u.transits) = _
    rw [htransits]
    rfl
  refine ⟨⟨n, ?_, ?_⟩, ?_, ?_, ?_, h.backlog⟩
  · rw [harrivals]
    exact Nat.le_succ_of_le hn
  · rw [hinside]
    exact hknows
  · rw [hinside, harrivals]
    exact hgone
  · exact (hside'.trans hside).trans h.side
  · exact (hcurrent'.trans hcurrent).trans h.current

end SameReaders

namespace ReaderDetermined

lemma gateSim (I : ReaderDetermined l current old limit Knows) :
    GateSim l (fun q : LoggedGate γ κ => Transit.Regular limit q.transits)
      (SameReaders current old Knows) where
  backwardClosed := LoggedGate.backwardClosed_regular limit
  slotted_eq := rfl
  ticket_eq _ := rfl
  side_eq h := h.side
  view_eq h := by
    obtain ⟨n, -, hknows⟩ := h.knows
    exact I.view_eq hknows h.knows' h.side h.current
  arrive h index := .inr (h.arrive I index)
  depart h index ticket hfine := by
    obtain ⟨hgone, hevents⟩ := h.depart I hfine.2
    exact ⟨hgone, .inr hevents⟩
  turn h := h.turn I
  standby_eq h := by
    obtain ⟨n, -, hknows⟩ := h.knows
    exact (I.standby h.knows').trans (I.standby hknows).symm
  shift h _ := h.shift I
  cleared_eq h := h.cleared_eq I
  rest h hcleared := h.rest I hcleared
  clearedEvent {g q d d'} h :=
    congrArg (fun e => [e].filter l.event) (h.backlog (.clearing (d, d')) rfl).2
  appliedEvent {g q} _ n side := congrArg (fun e => [e].filter l.event) (I.applied g q.gate n side)

/-- A gate determined by the readers inside is read-transparent within its limits. -/
theorem readTransparent (I : ReaderDetermined l current old limit Knows) :
    ReadTransparent l (fun q : LoggedGate γ κ => Transit.Regular limit q.transits)
      (SameReaders current old Knows) where
  toGateSim := I.gateSim
  blocks {g q ph index ticket u} h harrive hfine hblocks := by
    obtain ⟨ticket', g', u', -, harrive', hcame⟩ := h.arrive I index
    rw [harrive] at harrive'
    cases harrive'
    refine h.blocks I (hcame hfine) ?_ hblocks
    rw [(LoggedGate.eq_of_arrive harrive).2]
    exact List.subset_cons_self _ _
  returns h _ harrive hfine := h.returns I harrive hfine.1

end ReaderDetermined

end ReaderDetermined

end TwinCopy
