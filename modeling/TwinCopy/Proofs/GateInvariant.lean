import TwinCopy.Proofs.Crossings

/-!
# Gates that determine when readers are gone

Words, counters and flags serve one purpose: a writer has to find out when the readers it waits for
are gone. `ExactGateInv` states this in terms of the readers inside. Each of them has a ticket; a
new reader gets the current one, and the readers that a writer waits for have the one that was
current when it turned the side. `GateInv` is the part of it that holds also where the count of the
readers may be wrong.

`ReadersKnown` applies this to the gate of a session, and `readersKnown_after` proves that it holds
at every point of every schedule whose departures are matched and whose readers stay within the
limit of the gate.
-/

namespace TwinCopy

variable {γ κ δ α ρ : Type} [Gate γ κ δ]

/-! ## Limits -/

/-- The ticket for the read within an application, if it is admitted. -/
def Instance.lookTicket? (s : Instance γ δ α ρ) : Option κ :=
  s.lookSlot?.bind fun slot => (Gate.arrive s.gate slot.index).toOption.map Prod.fst

/-- The ticket of the reader that arrives and departs within an action. -/
def Action.lookTicket? : Action γ κ δ α ρ → Option κ
  | .applied found _ _ r => if r.observed then found.lookTicket? else none
  | _ => none

variable [DecidableEq κ]

namespace History

/-- At every action, `limit` holds of the tickets of the readers in flight, reads within
applications included, and of the number of arrivals so far. -/
def Within (limit : List κ → Nat → Prop) : History γ κ δ α ρ → Prop
  | [] => True
  | d :: h => Within limit h ∧ limit (d.lookTicket?.toList ++ inFlight (d :: h)) (arrivals (d :: h))

lemma Within.of_append {limit : List κ → Nat → Prop} {actions h : History γ κ δ α ρ}
    (hw : Within limit (actions ++ h)) : Within limit h := by
  induction actions with
  | nil => exact hw
  | cons d actions ih => exact ih hw.1

lemma Within.mono {limit limit' : List κ → Nat → Prop} {h : History γ κ δ α ρ}
    (hlimit : ∀ tickets n, limit tickets n → limit' tickets n) (hw : Within limit h) :
    Within limit' h := by
  induction h with
  | nil => trivial
  | cons d h ih => exact ⟨ih hw.1, hlimit _ _ hw.2⟩

lemma Within.and {limit limit' : List κ → Nat → Prop} {h : History γ κ δ α ρ}
    (hw : Within limit h) (hw' : Within limit' h) :
    Within (fun tickets n => limit tickets n ∧ limit' tickets n) h := by
  induction h with
  | nil => trivial
  | cons d h ih => exact ⟨ih hw.1 hw'.1, hw.2, hw'.2⟩

/-- A limit that always holds. -/
lemma Within.of_forall {limit : List κ → Nat → Prop} (hlimit : ∀ tickets n, limit tickets n)
    (h : History γ κ δ α ρ) : Within limit h := by
  induction h with
  | nil => trivial
  | cons d h ih => exact ⟨ih, hlimit _ _⟩

/-- An action adds to the readers in flight at most those it admits. -/
lemma length_flight_le (d : Action γ κ δ α ρ) (h : History γ κ δ α ρ) :
    (d.lookTicket?.toList ++ inFlight (d :: h)).length ≤ h.inFlight.length + d.arrivals := by
  cases d with
  | moved s m =>
    simp only [Action.lookTicket?, Option.toList_none, List.nil_append, inFlight, Action.crossing,
      Action.arrivals]
    rcases s.crossing m with _ | ⟨slot, ticket⟩ | ⟨slot, ticket⟩ | v | v
    · exact Nat.le_refl _
    · exact Nat.le_refl _
    · exact List.erase_sublist.length_le
    · exact Nat.le_refl _
    · exact List.erase_sublist.length_le
  | applied found side p r =>
    rcases hlookTicket :
      (Action.applied found side p r : Action γ κ δ α ρ).lookTicket? with _ | ticket
    · exact Nat.le_add_right _ _
    · have hcame : r.observed = true ∧ ∃ slot, found.lookSlot? = some slot := by
        simp only [Action.lookTicket?, Instance.lookTicket?] at hlookTicket
        split at hlookTicket
        · next hobserved =>
          obtain ⟨slot, hslot, -⟩ := Option.bind_eq_some_iff.1 hlookTicket
          exact ⟨hobserved, slot, hslot⟩
        · cases hlookTicket
      have hone : (Action.applied found side p r : Action γ κ δ α ρ).arrivals = 1 := by
        simp [Action.arrivals, hcame.1, Instance.admitsLook_iff.2 hcame.2]
      rw [hone]
      exact Nat.le_refl (h.inFlight.length + 1)
  | _ => exact Nat.le_refl _

/-- A limit on the readers in flight at one time follows from a bound on the peak. -/
lemma Within.of_peak {h : History γ κ δ α ρ} {n : Nat} (hpeak : h.peak ≤ n) :
    Within (fun tickets _ => tickets.length ≤ n) h := by
  induction h with
  | nil => trivial
  | cons d h ih =>
    exact ⟨ih (Nat.le_trans (Nat.le_max_left _ _) hpeak),
      Nat.le_trans (length_flight_le d h) (length_le_of_peak hpeak)⟩

lemma length_inFlight_le_arrivals (h : History γ κ δ α ρ) : h.inFlight.length ≤ h.arrivals := by
  induction h with
  | nil => exact Nat.le_refl _
  | cons d h ih =>
    have hflight := length_flight_le d h
    rw [List.length_append] at hflight
    rw [arrivals_cons]
    omega

/-- A limit on the number of arrivals follows from a bound on it. -/
lemma Within.of_arrivals {h : History γ κ δ α ρ} {n : Nat} (harrivals : h.arrivals < n) :
    Within (fun tickets arrivals => tickets.length ≤ arrivals ∧ arrivals < n) h := by
  induction h with
  | nil => trivial
  | cons d h ih =>
    have hflight := length_flight_le d h
    have hinFlight := length_inFlight_le_arrivals h
    have hcons := arrivals_cons d h
    exact ⟨ih (by omega), by omega, harrivals⟩

instance decidableWithin (limit : List κ → Nat → Prop) [∀ tickets n, Decidable (limit tickets n)] :
    (h : History γ κ δ α ρ) → Decidable (Within limit h)
  | [] => inferInstanceAs (Decidable True)
  | _ :: h =>
      have := decidableWithin limit h
      inferInstanceAs (Decidable (Within limit h ∧ limit _ _))

end History

namespace Session

variable {s s' : Session γ κ δ α ρ} {h : History γ κ δ α ρ} {m : Move α ρ}

/-- The readers in flight are the readers inside. -/
lemma Crossed.flight_perm (hc : Crossed s (s.crossing m) s')
    (hm : History.Matched (.moved s m :: h)) (hp : ((s.inside h).map Prod.snd).Perm h.inFlight) :
    ((s'.inside (.moved s m :: h)).map Prod.snd).Perm (History.inFlight (.moved s m :: h)) := by
  have hrawReader := hm.2
  simp only [inside, History.rawReaders, History.inFlight, Action.crossing, List.map_append,
    List.map_map] at hp hrawReader ⊢
  revert hrawReader hc
  generalize s.crossing m = x
  intro hc hrawReader
  cases hc with
  | absent hgate hvisits =>
    rw [hvisits]
    exact hp
  | arrived harrive hvisits =>
    rw [hvisits]
    exact List.perm_middle.trans (hp.cons _)
  | @departed _ slot ticket hgate hvisits =>
    rw [hvisits]
    have herase := (List.perm_cons_erase hrawReader).map Prod.snd
    exact List.cons_perm_iff_perm_erase.1
      ((List.perm_middle.symm.trans (herase.symm.append_left _)).trans hp) |>.2
  | entered harrive hside hvisits =>
    rw [hvisits]
    exact hp.cons _
  | left hgate hvisits =>
    rw [hvisits] at hp
    exact (List.cons_perm_iff_perm_erase.1 hp).2

/-- The readers inside, given by the indices of their slots and their tickets. -/
def indices (s : Session γ κ δ α ρ) (h : History γ κ δ α ρ) : List (Nat × κ) :=
  (s.inside h).map fun r => (r.1.index, r.2)

lemma map_snd_indices (s : Session γ κ δ α ρ) (h : History γ κ δ α ρ) :
    (s.indices h).map Prod.snd = (s.inside h).map Prod.snd := by
  rw [indices, List.map_map]
  rfl

end Session

/-! ## Gates -/

/-- An invariant of a gate, also while a writer waits. `Knows g phase? readers n` says that the
readers inside are the given ones, after `n` arrivals; they are given by the indices of their slots
and by their tickets. `current` is the ticket of the next reader, `old` that of the readers that a
writer waits for. -/
structure GateInv (current : γ → κ) (old : δ → κ) (limit : List κ → Nat → Prop)
    (Knows : γ → Option (Phase δ) → List (Nat × κ) → Nat → Prop) : Prop where
  limit_perm : ∀ {tickets tickets' n}, tickets.Perm tickets' → limit tickets n → limit tickets' n
  perm : ∀ {g p readers readers' n}, readers.Perm readers' → Knows g p readers n →
    Knows g p readers' n
  mono : ∀ {g p readers n tickets}, Knows g p readers n → limit tickets (n + 1) →
    Knows g p readers (n + 1)
  ticket : ∀ {g g' p readers n index ticket}, Knows g p readers n →
    Gate.arrive g index = .ok (ticket, g') → ticket = current g
  arrive : ∀ {g g' p readers n index ticket}, Knows g p readers n →
    Gate.arrive g index = .ok (ticket, g') → limit (ticket :: readers.map Prod.snd) (n + 1) →
    Knows g' p ((index, ticket) :: readers) (n + 1) ∧ Gate.side g' = Gate.side g ∧
      current g' = current g
  depart : ∀ {g p readers n index ticket}, Knows g p ((index, ticket) :: readers) n →
    Knows (Gate.depart g index ticket).2 p readers n ∧
      Gate.side (Gate.depart g index ticket).2 = Gate.side g ∧
      current (Gate.depart g index ticket).2 = current g
  turn : ∀ {g readers n}, Knows g none readers n →
    Knows (Gate.turn g).2 (some (.standby (Gate.turn g).1)) readers n ∧
      old (Gate.turn g).1 = current g ∧ Gate.side (Gate.turn g).2 = (Gate.side g).opposite
  shift : ∀ {g d readers n}, Knows g (some (.standby d)) readers n → Gate.standby g d = true →
    Knows (Gate.shift g d) (some (.clearing d)) readers n ∧
      Gate.side (Gate.shift g d) = Gate.side g
  clear : ∀ {g d readers n}, Knows g (some (.clearing d)) readers n →
    Gate.cleared g d = .ok true → Knows g none readers n
  sound : ∀ {g d readers n m}, Knows g (some (.clearing d)) readers n → Gate.cleared g d ≠ .error m
  current_ne : ∀ {g d readers n}, Knows g (some (.clearing d)) readers n → current g ≠ old d

/-- Moreover the gate refuses no arrival within the limit and no departure of a reader inside, and a
writer finds that the readers it waits for are gone as soon as they are. -/
structure ExactGateInv (current : γ → κ) (old : δ → κ) (limit : List κ → Nat → Prop)
    (Knows : γ → Option (Phase δ) → List (Nat × κ) → Nat → Prop) : Prop
    extends GateInv current old limit Knows where
  admits : ∀ {g p readers n}, Knows g p readers n → ∀ index,
    ∃ g', Gate.arrive g index = .ok (current g, g')
  departs : ∀ {g p readers n index ticket}, Knows g p ((index, ticket) :: readers) n →
    ∃ events, (Gate.depart g index ticket).1 = .ok events
  standby : ∀ {g d readers n}, Knows g (some (.standby d)) readers n → Gate.standby g d = true
  cleared : ∀ {g d readers n}, Knows g (some (.clearing d)) readers n →
    Gate.cleared g d = .ok (decide (old d ∉ readers.map Prod.snd))
  ticket_eq : ∀ {g readers n}, Knows g none readers n → ∀ r ∈ readers, r.2 = current g

/-- The phase in which the round waits at a stage. -/
def Control.phase? : Control δ α ρ → Option (Phase δ)
  | .waiting r => some r.phase
  | _ => none

/-- The gate of a session knows the readers inside, and a pass changes the copy that new readers are
not given. -/
structure ReadersKnown (Knows : γ → Option (Phase δ) → List (Nat × κ) → Nat → Prop)
    (s : Session γ κ δ α ρ) (h : History γ κ δ α ρ) (c : Control δ α ρ) : Prop where
  knows : Knows s.inst.gate c.phase? (s.indices h) h.arrivals
  flight : ((s.inside h).map Prod.snd).Perm h.inFlight
  target : ∀ u ∈ c.task?, u.pass.target u.old = (Gate.side s.inst.gate).opposite

namespace ReadersKnown

variable {current : γ → κ} {old : δ → κ} {limit : List κ → Nat → Prop}
  {Knows : γ → Option (Phase δ) → List (Nat × κ) → Nat → Prop}
  {s s' : Session γ κ δ α ρ} {h : History γ κ δ α ρ} {c c' : Control δ α ρ}

/-- A move preserves this, as only its crossing affects the gate. -/
lemma crossed (T : GateInv current old limit Knows) (hs : ReadersKnown Knows s h c) {m : Move α ρ}
    (hc : s.Crossed (s.crossing m) s') (hmatched : History.Matched (.moved s m :: h))
    (hwithin : History.Within limit (.moved s m :: h)) :
    Knows s'.inst.gate c.phase? (s'.indices (.moved s m :: h))
      (History.arrivals (.moved s m :: h)) ∧
      Gate.side s'.inst.gate = Gate.side s.inst.gate ∧
      current s'.inst.gate = current s.inst.gate := by
  have hknows := hs.knows
  rcases hc.inside_cases hmatched with ⟨hgate, hinside, hcount⟩ |
    ⟨slot, ticket, harrive, hinside, hcount⟩ | ⟨slot, ticket, hgate, hinside, hcount⟩ <;>
    rw [History.arrivals_cons, hcount]
  · rw [hgate, Session.indices, hinside, Nat.zero_add]
    exact ⟨hknows, rfl, rfl⟩
  · -- after an arrival the new ticket is among those in flight
    have hroom : limit (ticket :: (s.indices h).map Prod.snd) (h.arrivals + 1) := by
      have hlimit := hwithin.2
      simp only [Action.lookTicket?, Option.toList_none, List.nil_append, History.arrivals_cons,
        hcount] at hlimit
      rw [s.map_snd_indices, Nat.add_comm]
      exact T.limit_perm ((hc.flight_perm hmatched hs.flight).symm.trans (hinside.map Prod.snd))
        hlimit
    obtain ⟨hknown, hside, hcurrent⟩ := T.arrive hknows harrive hroom
    rw [Nat.add_comm]
    exact ⟨T.perm (hinside.map _).symm hknown, hside, hcurrent⟩
  · obtain ⟨hknown, hside, hcurrent⟩ := T.depart (T.perm (hinside.map _) hknows)
    rw [hgate, Nat.zero_add]
    exact ⟨hknown, hside, hcurrent⟩

lemma moved (T : GateInv current old limit Knows) (hs : ReadersKnown Knows s h c) {m : Move α ρ}
    {r : Except Failure (Answer κ α)} (hact : s.act m = (r, s'))
    (hmatched : History.Matched (.moved s m :: h))
    (hwithin : History.Within limit (.moved s m :: h)) :
    ReadersKnown Knows s' (.moved s m :: h) c := by
  have hc := s.crossed_act m
  rw [hact] at hc
  obtain ⟨hknown, hside, -⟩ := hs.crossed T hc hmatched hwithin
  exact ⟨hknown, hc.flight_perm hmatched hs.flight, by rw [hside]; exact hs.target⟩

/-- A read within an application leaves the same readers inside, and possibly one more arrival. -/
lemma look (T : GateInv current old limit Knows) (hs : ReadersKnown Knows s h c) {q : Request α ρ}
    {gate : γ} {registry : Registry} {note : Writer α → Writer α}
    (hlook : s.inst.Look q gate registry note) {side : Side} {p : Pass}
    (hwithin : History.Within limit (.applied s.inst side p q :: h)) :
    Knows gate c.phase? (s.indices h) (History.arrivals (.applied s.inst side p q :: h)) ∧
      Gate.side gate = Gate.side s.inst.gate ∧ current gate = current s.inst.gate := by
  have hlimit := hwithin.2
  rw [History.arrivals_cons] at hlimit ⊢
  by_cases hvisit : (Action.applied s.inst side p q : Action γ κ δ α ρ).arrivals = 1
  · rw [hvisit, Nat.add_comm] at hlimit ⊢
    rcases hlook.visited side p with
      hgate | ⟨-, hobserved, slot, ticket, entered, hslot, harrive, hleft⟩
    · rw [hgate]
      exact ⟨T.mono hs.knows hlimit, rfl, rfl⟩
    · have hlookTicket : (Action.applied s.inst side p q : Action γ κ δ α ρ).lookTicket? =
          some ticket := by
        simp only [Action.lookTicket?, hobserved, if_true, Instance.lookTicket?, hslot,
          Option.bind_some, harrive]
        rfl
      rw [hlookTicket] at hlimit
      have hroom : limit (ticket :: (s.indices h).map Prod.snd) (h.arrivals + 1) := by
        rw [s.map_snd_indices]
        exact T.limit_perm ((hs.flight.symm).cons _) hlimit
      obtain ⟨hinside, hside, hcurrent⟩ := T.arrive hs.knows harrive hroom
      obtain ⟨hknown, hside', hcurrent'⟩ := T.depart hinside
      rw [hleft]
      exact ⟨hknown, hside'.trans hside, hcurrent'.trans hcurrent⟩
  · have habsent : (Action.applied s.inst side p q : Action γ κ δ α ρ).arrivals = 0 := by
      simp only [Action.arrivals] at hvisit ⊢
      split at hvisit
      · exact absurd rfl hvisit
      · next hnone => exact if_neg hnone
    have hgate := (hlook.visited side p).resolve_right fun hcame => hvisit hcame.1
    rw [habsent, Nat.zero_add, hgate]
    exact ⟨hs.knows, rfl, rfl⟩

/-- `ReadersKnown` depends on the gate and the readers inside only. -/
lemma congr (hs : ReadersKnown Knows s h c) {actions : History γ κ δ α ρ}
    (hactions : ∀ d ∈ actions, d.crossing = .absent) {inst : Instance γ δ α ρ}
    (hknows : Knows inst.gate c'.phase? (s.indices h) (History.arrivals (actions ++ h)))
    (htarget : ∀ u ∈ c'.task?, u.pass.target u.old = (Gate.side inst.gate).opposite) :
    ReadersKnown Knows { s with inst } (actions ++ h) c' := by
  have hinside : Session.inside { s with inst } (actions ++ h) = s.inside h := by
    simp only [Session.inside, History.rawReaders_append hactions]
  refine ⟨?_, ?_, htarget⟩
  · rw [Session.indices, hinside]
    exact hknows
  · rw [hinside, History.inFlight_append hactions]
    exact hs.flight

lemma staged (T : GateInv current old limit Knows) (hs : ReadersKnown Knows s h c)
    {actions : History γ κ δ α ρ} {inst : Instance γ δ α ρ}
    (hstaged : Instance.Staged s.inst c actions inst c')
    (hwithin : History.Within limit (actions ++ h)) :
      ReadersKnown Knows { s with inst } (actions ++ h) c' := by
  have hactions := hstaged.crossing
  have hknows := hs.knows
  have htarget := hs.target
  cases hstaged with
  | quiet => exact hs.congr hactions hknows htarget
  | elect =>
    refine hs.congr hactions ?_ ?_
    · simpa [Action.arrivals, Control.phase?] using hknows
    · rintro u ⟨⟩
      rfl
  | apply h =>
    -- an application may read the instance, like any other reader
    obtain ⟨registry, note, hlook⟩ := Instance.pass_look h
    obtain ⟨hlooked, hside, -⟩ := hs.look T hlook hwithin
    refine hs.congr hactions hlooked ?_
    rintro u ⟨⟩
    rw [hside]
    exact htarget ⟨_, _, _ :: _, _⟩ rfl
  | giveUp h =>
    obtain ⟨registry, note, hlook⟩ := Instance.pass_look h
    obtain ⟨hlooked, -⟩ := hs.look T hlook hwithin.1
    refine hs.congr hactions ?_ (by rintro u ⟨⟩)
    rw [Instance.gate_abandon]
    simpa [Action.arrivals, Control.phase?] using hlooked
  | @turn batch old =>
    obtain ⟨hturned, -, hside⟩ := T.turn hknows
    refine hs.congr hactions ?_ ?_
    · simpa [Action.arrivals, Control.phase?] using hturned
    · rintro u ⟨⟩
      have hold : old.opposite = (Gate.side s.inst.gate).opposite := htarget _ rfl
      rw [hside, ← hold]
      exact (Side.opposite_opposite old).symm
  | shift hstandby =>
    obtain ⟨hshifted, hside⟩ := T.shift hknows hstandby
    refine hs.congr hactions hshifted ?_
    rintro u ⟨⟩
    rw [hside]
    exact htarget _ rfl
  | clear hcleared => exact hs.congr hactions (T.clear hknows hcleared) htarget
  | complete =>
    refine hs.congr hactions ?_ (by rintro u ⟨⟩)
    rw [Instance.gate_complete]
    simpa [Action.arrivals, Control.phase?] using hknows
  | surplus hcleared => exact absurd hcleared (T.sound hknows)

lemma emptied (hs : ReadersKnown Knows s h c) (finished : List (Finished α ρ)) (log : List Event) :
    ReadersKnown Knows { s with inst := { s.inst with finished := [], log := [] } }
      (.emptied finished log :: h) c := by
  have habsent : ∀ d ∈ [(.emptied finished log : Action γ κ δ α ρ)], d.crossing = .absent := by
    simp [Action.crossing]
  refine hs.congr habsent ?_ hs.target
  simpa [Action.arrivals] using hs.knows

/-- `ReadersKnown` holds of a session without readers, with a fresh gate. -/
lemma start {s : Session γ κ δ α ρ} (hvisits : s.visits = []) (hround : s.inst.round = none)
    (hknows : Knows s.inst.gate none [] 0) : ReadersKnown Knows s [] (Point.start s).stage := by
  have hinside : s.inside [] = [] := by
    simp only [Session.inside, hvisits, History.rawReaders, List.map_nil, List.append_nil]
  have hstage : (Point.start s).stage = .resting := Instance.stage_resting hround
  rw [hstage]
  refine ⟨?_, ?_, by rintro u ⟨⟩⟩
  · rw [Session.indices, hinside]
    exact hknows
  · rw [hinside]
    exact .refl _

end ReadersKnown

/-- `ReadersKnown` holds at every point of every schedule, if departures match arrivals and the
readers stay within the limit. -/
theorem readersKnown_after {current : γ → κ} {old : δ → κ} {limit : List κ → Nat → Prop}
    {Knows : γ → Option (Phase δ) → List (Nat × κ) → Nat → Prop}
    (T : GateInv current old limit Knows) {s : Session γ κ δ α ρ} (hs : s.Exclusive .resting)
    (hstart : ReadersKnown Knows s [] (Point.start s).stage) (ticks : List (Tick α ρ)) :
    let p := (Point.start s).after ticks
    p.history.Matched → p.history.Within limit →
      ReadersKnown Knows p.session p.history p.stage := by
  intro p
  refine Point.stage_after (P := fun s h c => h.Matched → h.Within limit → ReadersKnown Knows s h c)
    (fun _ hact _ ih hmatched hwithin => ?_) (fun hstaged ih hmatched hwithin => ?_)
    (fun ih hmatched hwithin => ?_) hs fun _ _ => hstart
  · exact (ih hmatched.1 hwithin.1).moved T hact hmatched hwithin
  · exact (ih hmatched.of_append hwithin.of_append).staged T hstaged hwithin
  · exact (ih hmatched.1 hwithin.1).emptied _ _

end TwinCopy
