import TwinCopy.Proofs.ExactGates
import TwinCopy.Proofs.Refinement
import TwinCopy.Proofs.Rounds

/-!
# The stand-by version

Where a gate has two versions, readers join the current one, and the other one stands by. A round
turns the side and then the version, without an observable state in between: whenever the instance
is read, the active side corresponds to the current version, and the stand-by version has no reader,
or a round waits for its readers to leave. So a writer never has to wait before it turns the
version.

This does not depend on departures being matched. It holds for read-indicators of every kind, and
for a word with versions as long as the readers of a version fit their thirty bits.
-/

namespace TwinCopy

variable {γ α ρ : Type}

/-- Whether a view shows a version without readers. -/
def GateView.vacant : GateView → Version → Bool
  | .versions _ zeroEmpty _, .zero => zeroEmpty
  | .versions _ _ oneEmpty, .one => oneEmpty
  | .packed _ inZero _, .zero => inZero == 0
  | .packed _ _ inOne, .one => inOne == 0
  | .ingress .., _ => false

/-- A view shows this version as the current one, with the corresponding side. -/
def View.Shows (w : View) (v : Version) : Prop :=
  w.gate.current? = some v ∧ (w.side = .right ↔ v = .one)

/-! ## Gates whose versions alternate -/

section Gate

variable [Gate γ Version Version]

/-- Whether a version has no reader. -/
def vacant (g : γ) (v : Version) : Bool :=
  (Gate.view g).vacant v

/-- The effect of readers: the side and the current version stay the same, and the stand-by version
gets no readers. -/
structure ReadersOnly (current : γ → Version) (g g' : γ) : Prop where
  side : Gate.side g' = Gate.side g
  version : current g' = current g
  standby : vacant g (current g).next = true → vacant g' (current g).next = true

lemma ReadersOnly.trans {current : γ → Version} {g g' g'' : γ} (h : ReadersOnly current g g')
    (h' : ReadersOnly current g' g'') : ReadersOnly current g g'' where
  side := h'.side.trans h.side
  version := h'.version.trans h.version
  standby hvacant := by
    have hstandby := h'.standby
    rw [h.version] at hstandby
    exact hstandby (h.standby hvacant)

/-- A gate whose versions alternate. `Knows g tickets` is the invariant of the gate while readers
with these tickets are in flight, as long as `room` holds of them. -/
structure Alternating (current : γ → Version) (room : List Version → Nat → Prop)
    (Knows : γ → List Version → Prop) : Prop where
  shown : ∀ g : γ, (Gate.view g).current? = some (current g)
  arrive : ∀ {g g' : γ} {tickets index ticket n}, Knows g tickets →
    Gate.arrive g index = .ok (ticket, g') → room (ticket :: tickets) n →
    Knows g' (ticket :: tickets) ∧ ReadersOnly current g g'
  depart : ∀ {g : γ} {tickets index ticket}, Knows g tickets →
    Knows (Gate.depart g index ticket).2 (tickets.erase ticket) ∧
      ReadersOnly current g (Gate.depart g index ticket).2
  turn : ∀ {g : γ} {tickets}, Knows g tickets →
    Knows (Gate.turn g).2 tickets ∧ (Gate.turn g).1 = current g ∧
      current (Gate.turn g).2 = current g ∧ Gate.side (Gate.turn g).2 = (Gate.side g).opposite ∧
      vacant (Gate.turn g).2 (current g).next = vacant g (current g).next
  standby : ∀ {g : γ} {tickets}, Knows g tickets →
    Gate.standby g (current g) = vacant g (current g).next
  shift : ∀ {g : γ} {tickets}, Knows g tickets →
    Knows (Gate.shift g (current g)) tickets ∧
      current (Gate.shift g (current g)) = (current g).next ∧
      Gate.side (Gate.shift g (current g)) = Gate.side g
  cleared : ∀ {g : γ} {tickets v}, Knows g tickets → Gate.cleared g v = .ok (vacant g v)

/-- The condition on the gate at each stage of a round: side and version correspond except between
their two turns, and the stand-by version is vacant unless the round waits for its readers. -/
def StandbyInv (current : γ → Version) (g : γ) : Control Version α ρ → Prop
  | .resting => (Gate.side g).version = current g ∧ vacant g (current g).next = true
  | .passing p _ _ old => (Gate.side g).version = current g ∧ vacant g (current g).next = true ∧
      p.target old = (Gate.side g).opposite
  | .waiting ⟨_, old, .standby d⟩ => (Gate.side g).version = (current g).next ∧
      vacant g (current g).next = true ∧ d = current g ∧ old = (Gate.side g).opposite
  | .waiting ⟨_, old, .clearing d⟩ =>
      (Gate.side g).version = current g ∧ d = (current g).next ∧ old = (Gate.side g).opposite

variable {current : γ → Version} {room : List Version → Nat → Prop}
  {Knows : γ → List Version → Prop}

lemma StandbyInv.readersOnly {g g' : γ} {c : Control Version α ρ} (h : StandbyInv current g c)
    (hg : ReadersOnly current g g') : StandbyInv current g' c := by
  obtain ⟨hside, hcurrent, hstandby⟩ := hg
  match c with
  | .resting =>
    simp only [StandbyInv, hside, hcurrent]
    exact ⟨h.1, hstandby h.2⟩
  | .passing p done rest old =>
    simp only [StandbyInv, hside, hcurrent]
    exact ⟨h.1, hstandby h.2.1, h.2.2⟩
  | .waiting ⟨batch, old, .standby d⟩ =>
    simp only [StandbyInv, hside, hcurrent]
    exact ⟨h.1, hstandby h.2.1, h.2.2⟩
  | .waiting ⟨batch, old, .clearing d⟩ =>
    simp only [StandbyInv, hside, hcurrent]
    exact h

namespace Alternating

variable (T : Alternating current room Knows)

include T

/-- The read within an application arrives and departs in one step. -/
lemma looked {s : Instance γ Version α ρ} {r : Request α ρ} {gate : γ} {registry : Registry}
    {note : Writer α → Writer α} {tickets : List Version} (hlook : s.Look r gate registry note)
    (hknows : Knows s.gate tickets)
    (hroom : ∀ ticket, s.lookTicket? = some ticket → r.observed = true →
      ∃ n, room (ticket :: tickets) n) :
    Knows gate tickets ∧ ReadersOnly current s.gate gate := by
  rcases hlook.gate with rfl | ⟨hobserved, slot, ticket, entered, hslot, harrive, rfl⟩
  · exact ⟨hknows, rfl, rfl, id⟩
  · have hlookTicket : s.lookTicket? = some ticket := by
      rw [Instance.lookTicket?, hslot, Option.bind_some, harrive]
      rfl
    obtain ⟨n, hn⟩ := hroom ticket hlookTicket hobserved
    obtain ⟨hentered, harrived⟩ := T.arrive hknows harrive hn
    obtain ⟨hleft, hdeparted⟩ :
        Knows (Gate.depart entered slot.index ticket).2 ((ticket :: tickets).erase ticket) ∧
          ReadersOnly current entered (Gate.depart entered slot.index ticket).2 := T.depart hentered
    rw [List.erase_cons_head] at hleft
    exact ⟨hleft, harrived.trans hdeparted⟩

/-- A crossing has the effect of readers only. -/
lemma crossed {s s' : Session γ Version Version α ρ} {x : Crossing Version} {tickets : List Version}
    {n : Nat} (hc : s.Crossed x s') (hknows : Knows s.inst.gate tickets)
    (hroom : room (x.flight tickets) n) :
    Knows s'.inst.gate (x.flight tickets) ∧ ReadersOnly current s.inst.gate s'.inst.gate := by
  cases hc with
  | absent hgate =>
    rw [hgate]
    exact ⟨hknows, rfl, rfl, id⟩
  | arrived harrive => exact T.arrive hknows harrive hroom
  | departed hgate =>
    rw [hgate]
    exact T.depart hknows
  | entered harrive => exact T.arrive hknows harrive hroom
  | left hgate =>
    rw [hgate]
    exact T.depart hknows

/-- A step of the leading writer. Between the two turns it does not have to wait. -/
lemma staged {s t : Instance γ Version α ρ} {c c' : Control Version α ρ}
    {actions h : History γ Version Version α ρ} (hstaged : Instance.Staged s c actions t c')
    (hknows : Knows s.gate h.inFlight) (hstandbyInv : StandbyInv current s.gate c)
    (hwithin : History.Within room (actions ++ h)) :
      Knows t.gate h.inFlight ∧ StandbyInv current t.gate c' := by
  cases hstaged with
  | quiet => exact ⟨hknows, hstandbyInv⟩
  | elect => exact ⟨hknows, hstandbyInv.1, hstandbyInv.2, rfl⟩
  | @apply t p done rest old x hpass =>
    obtain ⟨registry, note, hlook⟩ := Instance.pass_look hpass
    obtain ⟨hknown, hreadersOnly⟩ := T.looked hlook hknows fun ticket hlookTicket hobserved =>
      ⟨_, by simpa [Action.lookTicket?, hobserved, hlookTicket, History.inFlight, Action.crossing,
        Crossing.flight] using hwithin.2⟩
    have hafter : StandbyInv current t.gate (.passing p done (x :: rest) old) :=
      hstandbyInv.readersOnly hreadersOnly
    exact ⟨hknown, hafter⟩
  | @giveUp t p done rest old x f hpass =>
    obtain ⟨registry, note, hlook⟩ := Instance.pass_look hpass
    obtain ⟨hknown, hreadersOnly⟩ := T.looked hlook hknows fun ticket hlookTicket hobserved =>
      ⟨_, by simpa [Action.lookTicket?, hobserved, hlookTicket, History.inFlight, Action.crossing,
        Crossing.flight] using hwithin.1.2⟩
    rw [Instance.gate_abandon]
    obtain ⟨hside, hvacant, -⟩ := hstandbyInv.readersOnly hreadersOnly
    exact ⟨hknown, hside, hvacant⟩
  | @turn batch old =>
    obtain ⟨hside, hvacant, hold⟩ := hstandbyInv
    obtain ⟨hknown, hd, hcurrent, hturned, hstill⟩ := T.turn hknows
    refine ⟨hknown, ?_⟩
    simp only [StandbyInv, hd, hcurrent, hturned]
    refine ⟨by rw [Side.version_opposite, hside], hstill.trans hvacant, trivial, ?_⟩
    rw [Side.opposite_opposite]
    simpa [Pass.target] using congrArg Side.opposite hold
  | @shift batch old d hstandby =>
    obtain ⟨hside, hvacant, rfl, hold⟩ := hstandbyInv
    obtain ⟨hknown, hcurrent, hturned⟩ := T.shift hknows
    refine ⟨hknown, ?_⟩
    simp only [StandbyInv, hcurrent, hturned, Version.next_next]
    exact ⟨hside, trivial, hold⟩
  | @clear batch old d hcleared =>
    obtain ⟨hside, rfl, hold⟩ := hstandbyInv
    rw [T.cleared hknows] at hcleared
    exact ⟨hknows, hside, Except.ok.inj hcleared, hold⟩
  | complete =>
    rw [Instance.gate_complete]
    exact ⟨hknows, hstandbyInv.1, hstandbyInv.2.1⟩
  | surplus hcleared =>
    rw [T.cleared hknows] at hcleared
    cases hcleared

/-- `StandbyInv` holds at every point of every schedule within the limit of the gate. -/
theorem standbyInv_after {s : Session γ Version Version α ρ} (hs : s.Exclusive .resting)
    (hround : s.inst.round = none) (hknows : Knows s.inst.gate [])
    (hstandbyInv : StandbyInv current s.inst.gate (.resting : Control Version α ρ))
    (ticks : List (Tick α ρ)) :
    let p := (Point.start s).after ticks
    p.history.Within room →
      Knows p.inst.gate p.history.inFlight ∧ StandbyInv current p.inst.gate p.stage := by
  intro p
  have hstage : (Point.start s).stage = .resting := Instance.stage_resting hround
  refine Point.stage_after
    (P := fun s h c => h.Within room →
      Knows s.inst.gate h.inFlight ∧ StandbyInv current s.inst.gate c)
    (fun {s h c m r s'} _ hact _ ih hwithin => ?_)
    (fun {s h c actions inst c'} hstaged ih hwithin => ?_)
    (fun {s h c} ih hwithin => ih hwithin.1) hs fun _ => ?_
  · obtain ⟨hknows, hstandbyInv⟩ := ih hwithin.1
    have hcrossed := s.crossed_act m
    rw [hact] at hcrossed
    obtain ⟨hknown, hreadersOnly⟩ := T.crossed hcrossed hknows hwithin.2
    exact ⟨hknown, hstandbyInv.readersOnly hreadersOnly⟩
  · obtain ⟨hknows, hstandbyInv⟩ := ih hwithin.of_append
    rw [History.inFlight_append hstaged.crossing]
    exact T.staged hstaged hknows hstandbyInv hwithin
  · rw [hstage]
    exact ⟨hknows, hstandbyInv⟩

end Alternating

end Gate

/-! ## Two read-indicators -/

namespace Versioned

lemma vacant_eq (g : Versioned) (v : Version) : vacant g v = (g.readers v).isEmpty := by
  cases v <;> rfl

lemma SameVersions.readersOnly {g g' : Versioned} (h : g.SameVersions g') :
    ReadersOnly Versioned.current g g' where
  side := h.side
  version := h.current
  standby hvacant := by
    rw [vacant_eq] at hvacant ⊢
    have hclean := h.clean hvacant
    rwa [Clean, h.current] at hclean

/-- A gate with two read-indicators satisfies this without an invariant. -/
theorem alternating : Alternating Versioned.current (fun _ _ => True) (fun _ _ => True) where
  shown _ := rfl
  arrive _ harrive _ := ⟨trivial, (sameVersions_arrive harrive).readersOnly⟩
  depart {g tickets index ticket} _ := ⟨trivial, (g.sameVersions_depart index ticket).readersOnly⟩
  turn {g tickets} _ := by
    refine ⟨trivial, rfl, rfl, rfl, ?_⟩
    rw [vacant_eq, vacant_eq]
    cases g.current <;> rfl
  standby {g tickets} _ := (g.vacant_eq _).symm
  shift _ := ⟨trivial, rfl, rfl⟩
  cleared {g tickets v} _ := congrArg Except.ok (g.vacant_eq v).symm

end Versioned

/-! ## A word with versions -/

namespace VersionedWord

/-- The word holds the number of readers in flight of each version. -/
def Measures (g : VersionedWord) (tickets : List Version) : Prop :=
  g.Keeps ⟨g.side, g.current, fun v => tickets.count v⟩

lemma count_cons_eq_update (tickets : List Version) (v : Version) :
    (fun w => (v :: tickets).count w) =
      Function.update (fun w => tickets.count w) v (tickets.count v + 1) := by
  funext w
  by_cases hw : w = v
  · subst hw
    rw [Function.update_self, List.count_cons_self]
  · rw [Function.update_of_ne hw, List.count_cons_of_ne (Ne.symm hw)]

lemma count_erase_eq_update (tickets : List Version) (v : Version) :
    (fun w => (tickets.erase v).count w) =
      Function.update (fun w => tickets.count w) v (tickets.count v - 1) := by
  funext w
  by_cases hw : w = v
  · subst hw
    rw [Function.update_self, List.count_erase_self]
  · rw [Function.update_of_ne hw, List.count_erase_of_ne hw]

lemma vacant_eq (g : VersionedWord) (v : Version) : vacant g v = (g.readers v == 0) := by
  have hzero : ∀ n : UInt64, (n.toNat == 0) = (n == 0) := by
    intro n
    rw [Bool.eq_iff_iff, beq_iff_eq, beq_iff_eq, ← UInt64.toNat_inj]
    rfl
  cases v <;> exact hzero _

variable {g g' : VersionedWord} {tickets tickets' : List Version}

lemma Measures.vacant_eq (h : g.Measures tickets) (v : Version) :
    vacant g v = decide (tickets.count v = 0) := by
  rw [VersionedWord.vacant_eq, h.isEmpty]

lemma measures_of_keeps {t : Tally} (h : g.Keeps t) (hcount : t.count = fun v => tickets.count v) :
    g.Measures tickets := by
  rw [Measures, h.side_eq, h.current_eq, ← hcount]
  exact h

/-- Readers change a word only in the counts of its versions. -/
lemma Measures.readersOnly (h : g.Measures tickets) (h' : g'.Measures tickets')
    (hside : g'.side = g.side) (hcurrent : g'.current = g.current)
    (hcount : tickets.count g.current.next = 0 → tickets'.count g.current.next = 0) :
    ReadersOnly VersionedWord.current g g' where
  side := hside
  version := hcurrent
  standby := by
    rw [h.vacant_eq, h'.vacant_eq, decide_eq_true_iff, decide_eq_true_iff]
    exact hcount

lemma Measures.arrive (h : g.Measures tickets) {n : Nat} (hroom : Limit (g.current :: tickets) n) :
    g.arrive.2.Measures (g.current :: tickets) ∧
      ReadersOnly VersionedWord.current g g.arrive.2 := by
  have hlt := hroom.count_lt g.current
  rw [List.count_cons_self] at hlt
  have hkeeps := Keeps.arrive h hlt
  have hmeasures := measures_of_keeps hkeeps (count_cons_eq_update tickets g.current).symm
  refine ⟨hmeasures, h.readersOnly hmeasures hkeeps.side_eq hkeeps.current_eq fun hnone => ?_⟩
  rw [List.count_cons_of_ne (Versioned.next_ne _).symm, hnone]

lemma Measures.depart (h : g.Measures tickets) (v : Version) :
    (g.depart v).2.Measures (tickets.erase v) ∧
      ReadersOnly VersionedWord.current g (g.depart v).2 := by
  by_cases hcount : tickets.count v = 0
  · have habsent : v ∉ tickets := List.count_eq_zero.1 hcount
    rw [depart_of_readers_eq_zero ((Keeps.readers_eq_zero_iff h v).2 hcount),
      List.erase_of_not_mem habsent]
    exact ⟨h, rfl, rfl, id⟩
  · have hkeeps := Keeps.depart h hcount
    have hmeasures := measures_of_keeps hkeeps (count_erase_eq_update tickets v).symm
    have hdepart : (g.depart v).2 = ⟨g.word - unit v⟩ := by
      rw [VersionedWord.depart, if_neg (mt (Keeps.readers_eq_zero_iff h v).1 hcount)]
    rw [hdepart]
    refine ⟨hmeasures, h.readersOnly hmeasures hkeeps.side_eq hkeeps.current_eq fun hnone => ?_⟩
    exact Nat.eq_zero_of_le_zero (hnone ▸ List.erase_sublist.count_le _)

/-- The versions of a word alternate as long as its fields hold the readers. -/
theorem alternating : Alternating VersionedWord.current Limit Measures where
  shown _ := rfl
  arrive {g g' tickets index ticket n} h harrive hroom := by
    cases harrive
    exact h.arrive hroom
  depart {g tickets index ticket} h := h.depart ticket
  turn {g tickets} h := by
    have hkeeps := Keeps.flipSide h
    have hmeasures : g.flipSide.Measures tickets := measures_of_keeps hkeeps rfl
    refine ⟨hmeasures, rfl, hkeeps.current_eq, hkeeps.side_eq, ?_⟩
    rw [h.vacant_eq]
    exact hmeasures.vacant_eq _
  standby {g tickets} h := (g.vacant_eq _).symm
  shift {g tickets} h := by
    have hkeeps := Keeps.flipVersion h
    exact ⟨measures_of_keeps hkeeps rfl, hkeeps.current_eq, hkeeps.side_eq⟩
  cleared {g tickets v} h := congrArg Except.ok (g.vacant_eq v).symm

lemma measures_fresh : fresh.Measures [] :=
  measures_of_keeps keeps_fresh rfl

lemma standbyInv_fresh : StandbyInv current fresh (.resting : Control Version α ρ) := by
  refine ⟨?_, ?_⟩
  · change fresh.side.version = fresh.current
    decide
  · rw [measures_fresh.vacant_eq]
    rfl

end VersionedWord

/-! ## Observable states -/

/-- If a writer never waits between its two turns, rounds are suspended only after both. -/
lemma Instance.Stepped.clearing {κ δ : Type} [Gate γ κ δ] {s t : Instance γ δ α ρ}
    {c c' : Control δ α ρ} {actions : History γ κ δ α ρ} (h : Stepped s c actions t c')
    (hstandby : ∀ batch old d, c = .waiting ⟨batch, old, .standby d⟩ → Gate.standby s.gate d = true)
    (hround : ∀ r, s.round = some r → ∃ d, r.phase = .clearing d) :
    ∀ r, t.round = some r → ∃ d, r.phase = .clearing d := by
  cases h with
  | takeUp => simp
  | idle | elect | turn | shift | clear => exact hround
  | apply hpass =>
    rwa [← round_pass, hpass] at hround
  | giveUp hpass =>
    rw [round_abandon]
    rwa [← round_pass, hpass] at hround
  | complete =>
    rw [round_complete]
    exact hround
  | hold hheld =>
    rw [hstandby _ _ _ rfl] at hheld
    cases hheld
  | suspend =>
    rintro r ⟨⟩
    exact ⟨_, rfl⟩
  | surplus =>
    rw [round_abandon]
    exact hround

section StandbyClean

variable [Gate γ Version Version]

/-- At the end of this schedule, if the state is observable and no round waits, the stand-by version
has no reader; and if a round waits, it waits for the readers of the stand-by version, and since it
began the side and the version have both been turned. -/
structure StandbyClean (s : Session γ Version Version α ρ) (ticks : List (Tick α ρ)) : Prop where
  vacant : let p := (Point.start s).after ticks
    p.control.Observable → p.inst.round = none →
      ∃ v, p.inst.view.Shows v ∧ p.inst.view.gate.vacant v.next = true
  waits : let p := (Point.start s).after ticks
    ∀ r, p.inst.round = some r → ∃ v, p.inst.view.Shows v ∧ r.phase = .clearing v.next ∧
      r.old = p.inst.view.side.opposite ∧
      ∃ before mid, ticks = before ++ .writer :: mid ∧
        let p₀ := (Point.start s).after before
        (p₀.next .writer).history = .took r.batch :: p₀.history ∧
          p.history.taken = p₀.history.taken ++ [r.batch] ∧ p₀.inst.view.Shows v.next

namespace Alternating

variable {current : γ → Version} {room : List Version → Nat → Prop}
  {Knows : γ → List Version → Prop}

/-- The current version, with the corresponding side. -/
lemma shows (T : Alternating current room Knows) {s : Instance γ Version α ρ} {v : Version}
    (hcurrent : current s.gate = v) (hside : (Gate.side s.gate).version = v) : s.view.Shows v := by
  refine ⟨hcurrent ▸ T.shown s.gate, ?_⟩
  change Gate.side s.gate = .right ↔ v = .one
  rw [← hside]
  cases Gate.side s.gate <;> simp [Side.version]

/-- A writer never waits before it turns the version. -/
lemma clearing_after (T : Alternating current room Knows) {s : Session γ Version Version α ρ}
    (hs : s.Exclusive .resting) (hround : s.inst.round = none) (hknows : Knows s.inst.gate [])
    (hstandbyInv : StandbyInv current s.inst.gate (.resting : Control Version α ρ))
    (ticks : List (Tick α ρ)) :
    let p := (Point.start s).after ticks
    p.history.Within room → ∀ r, p.inst.round = some r → ∃ d, r.phase = .clearing d := by
  induction ticks using List.reverseRecOn with
  | nil =>
    intro p _ r hr
    cases hround.symm.trans hr
  | append_singleton ticks t ih =>
    have hexclusive : ((Point.start s).after ticks).session.Exclusive _ :=
      Point.exclusive_after hs ticks
    have hkept := T.standbyInv_after hs hround hknows hstandbyInv ticks
    rw [Point.after_append]
    generalize (Point.start s).after ticks = p at ih hexclusive hkept ⊢
    intro q hwithin
    change q.history.Within room at hwithin
    obtain ⟨actions, hactions⟩ := p.history_next t
    have hbefore : p.history.Within room := by
      change (p.next t).history.Within room at hwithin
      rw [hactions] at hwithin
      exact hwithin.of_append
    cases t with
    | caller m =>
      intro r hr
      exact ih hbefore r ((p.session.moved_act m).round_eq ▸ hr)
    | writer =>
      refine (p.inst.stepped_advance p.control).clearing (fun batch old d hcontrol => ?_)
        (ih hbefore)
      obtain ⟨hknown, hstill⟩ := hkept hbefore
      rw [Point.stage, hcontrol] at hstill
      obtain ⟨-, hvacant, rfl, -⟩ := hstill
      exact (T.standby hknown).trans hvacant
    | outbox => exact ih hbefore

/-- For a gate whose versions alternate the stand-by version is clean. -/
theorem standbyClean (T : Alternating current room Knows) {s : Session γ Version Version α ρ}
    (hs : s.Exclusive .resting) (hround : s.inst.round = none) (hknows : Knows s.inst.gate [])
    (hstandbyInv : StandbyInv current s.inst.gate (.resting : Control Version α ρ))
    (ticks : List (Tick α ρ))
    (hwithin : ((Point.start s).after ticks).history.Within room) : StandbyClean s ticks := by
  have hkept := T.standbyInv_after hs hround hknows hstandbyInv
  refine ⟨?_, ?_⟩
  · intro p hlook hnone
    obtain ⟨-, hnow⟩ := hkept ticks hwithin
    change StandbyInv current p.inst.gate (p.inst.stage p.control) at hnow
    rcases hcontrol : p.control with _ | ⟨pass, done, rest, old⟩ | r
    · rw [hcontrol, Instance.stage_resting hnone] at hnow
      exact ⟨_, T.shows rfl hnow.1, hnow.2⟩
    · rw [hcontrol] at hnow
      exact ⟨_, T.shows rfl hnow.1, hnow.2.1⟩
    · rw [hcontrol] at hlook
      exact hlook.elim
  · intro p r hr
    have hexclusive : p.session.Exclusive p.control := Point.exclusive_after hs ticks
    have hcontrol : p.control = .resting := by
      refine hexclusive.inCharge.2.resolve_right fun hcharge => ?_
      cases hcharge.2.symm.trans hr
    have hstage : p.stage = .waiting r := by
      rw [Point.stage, hcontrol, Instance.stage, hr, Option.elim_some]
    obtain ⟨d, hphase⟩ := T.clearing_after hs hround hknows hstandbyInv ticks hwithin r hr
    obtain ⟨-, hnow⟩ := hkept ticks hwithin
    change StandbyInv current p.inst.gate p.stage at hnow
    rw [hstage] at hnow
    obtain ⟨batch, old, phase⟩ := r
    obtain rfl : phase = .clearing d := hphase
    obtain ⟨hside, rfl, hold⟩ := hnow
    refine ⟨_, T.shows rfl hside, rfl, hold, ?_⟩
    -- the round began with the other side and the other version
    obtain ⟨before, mid, hticks, hsince, -⟩ := exists_since (Q := fun _ _ _ => True)
      (P := fun _ _ _ _ => True) hs hround (fun _ => trivial) (fun _ _ => trivial)
      (fun _ _ _ => trivial) (fun _ _ _ _ _ => trivial) (fun _ => trivial) ticks
      (⟨batch, old, .clearing (current p.inst.gate).next⟩ : Round Version α ρ).task
        (by rw [hstage]; rfl)
    refine ⟨before, mid, hticks, hsince.took, hsince.taken, ?_⟩
    obtain ⟨actions, hactions⟩ := ((Point.start s).after before).history_after (.writer :: mid)
    rw [← Point.after_append, ← hticks] at hactions
    rw [hactions] at hwithin
    obtain ⟨-, hbegan⟩ := hkept before hwithin.of_append
    rw [hsince.resting (Point.exclusive_after hs before)] at hbegan
    have hother : (Gate.side ((Point.start s).after before).inst.gate).version =
        (current p.inst.gate).next := by
      rw [← hside, ← Side.version_opposite, ← hold]
      exact congrArg Side.version hsince.old.symm
    exact T.shows (hbegan.1.symm.trans hother) hother

end Alternating

end StandbyClean

/-- The stand-by version is clean in every schedule: over read-indicators of every kind, under both
styles, and over a word with versions while no version has `2 ^ 30` readers in flight. While no
round waits it has no reader, also before each application of a mutation; and a round that waits has
turned both the side and the version. Every script is such a schedule. -/
theorem standby_version_clean (c : Config) (init : Copies α) :
    (∀ style kind,
      let start : Session Versioned Version Version α ρ :=
        .ofInstance (.ofStyle style kind c init)
      (∀ ticks, StandbyClean start ticks) ∧
      ∀ script, ∃ ticks, start.IsScheduleOf script ticks) ∧
    let start : Session VersionedWord Version Version α ρ := .ofInstance (.versionedWord c init)
    (∀ ticks, ((Point.start start).after ticks).history.Within VersionedWord.Limit →
      StandbyClean start ticks) ∧
    ∀ script, ∃ ticks, start.IsScheduleOf script ticks := by
  refine ⟨fun style kind => ?_, ?_⟩
  · intro start
    have hs : start.Exclusive .resting := Session.exclusive_ofStyle style kind c init
    have hgate : start.inst.gate = .ofConfig kind c := Instance.gate_ofStyle style kind c init
    have hround : start.inst.round = none := Instance.round_ofStyle style kind c init
    have hstandbyInv :
        StandbyInv Versioned.current start.inst.gate (.resting : Control Version α ρ) := by
      rw [hgate]
      exact ⟨rfl, (Versioned.vacant_eq _ _).trans (Versioned.clean_ofConfig kind c)⟩
    refine ⟨fun ticks => ?_,
      Session.exists_isScheduleOf hs (Instance.still_ofStyle style kind c init)⟩
    exact Versioned.alternating.standbyClean hs hround trivial hstandbyInv ticks
      (.of_forall (fun _ _ => trivial) _)
  · intro start
    have hs : start.Exclusive .resting := Session.exclusive_fresh _ _ _ _ _ _
    refine ⟨fun ticks hwithin => ?_, Session.exists_isScheduleOf hs rfl⟩
    exact VersionedWord.alternating.standbyClean hs rfl VersionedWord.measures_fresh
      VersionedWord.standbyInv_fresh ticks hwithin

/-- A reader arrives, an unmatched departure is made, and a writer waits for the reader. -/
def departedUnseen : List (Tick Nat Nat) :=
  let count : Mutation Nat Nat := .ofFunction fun n => (n + 1, n)
  [.caller (.enter 0), .caller (.depart 0 1), .caller (.mutate 0 count true), .writer, .writer,
    .writer, .writer, .writer]

theorem standby_version_clean_drained :
    let start : Session VersionedWord Version Version Nat Nat :=
      .ofInstance (.versionedWord .standard ⟨5, 6⟩)
    let p := (Point.start start).after departedUnseen
    p.history.Within VersionedWord.Limit ∧
      ∃ r, p.inst.round = some r ∧ ∃ v, p.inst.view.Shows v ∧ r.phase = .clearing v.next := by
  intro start p
  have hstandbyClean := (standby_version_clean .standard (⟨5, 6⟩ : Copies Nat) (ρ := Nat)).2.1
    departedUnseen (by decide +kernel)
  obtain ⟨r, hr⟩ : ∃ r, p.inst.round = some r := Option.isSome_iff_exists.1 (by decide +kernel)
  obtain ⟨v, hshows, hphase, -⟩ := hstandbyClean.waits r hr
  exact ⟨by decide +kernel, r, hr, v, hshows, hphase⟩

end TwinCopy
