import TwinCopy.Proofs.Stages

/-!
# Crossings of the gate

Only four kinds of moves involve the gate: a raw arrival, a raw departure, the begin of a query, and
its end. `Session.crossing` classifies a move, and `crossed_act` gives its effect on the gate and
the queries under way. The readers inside are computed from the crossings of a history: the queries
under way and the raw readers, that is, those which arrived without a query and have not departed.
-/

namespace TwinCopy

variable {γ κ δ α ρ : Type}

/-- How a move involves the gate. -/
inductive Crossing (κ : Type) where
  /-- not at all -/
  | absent
  /-- a raw arrival, which is given a ticket -/
  | arrived (slot : Slot) (ticket : κ)
  /-- a raw departure, which presents a ticket -/
  | departed (slot : Slot) (ticket : κ)
  /-- the begin of a query -/
  | entered (v : Visit κ)
  /-- the end of a query -/
  | left (v : Visit κ)

/-- A raw departure is by one of the given raw readers. -/
def Crossing.Covered (rawReaders : List (Slot × κ)) : Crossing κ → Prop
  | .departed slot ticket => (slot, ticket) ∈ rawReaders
  | _ => True

instance [DecidableEq κ] (rawReaders : List (Slot × κ)) (x : Crossing κ) :
    Decidable (x.Covered rawReaders) :=
  match x with
  | .departed slot ticket => inferInstanceAs (Decidable ((slot, ticket) ∈ rawReaders))
  | .absent | .arrived .. | .entered _ | .left _ => inferInstanceAs (Decidable True)

/-- The tickets of the readers in flight after a crossing, given those before it. -/
def Crossing.flight [DecidableEq κ] (tickets : List κ) : Crossing κ → List κ
  | .absent => tickets
  | .arrived _ ticket => ticket :: tickets
  | .entered v => v.ticket :: tickets
  | .departed _ ticket => tickets.erase ticket
  | .left v => tickets.erase v.ticket

/-- A departure presents the ticket of a reader in flight. -/
def Crossing.Backed (tickets : List κ) : Crossing κ → Prop
  | .departed _ ticket => ticket ∈ tickets
  | .left v => v.ticket ∈ tickets
  | _ => True

instance [DecidableEq κ] (tickets : List κ) (x : Crossing κ) : Decidable (x.Backed tickets) :=
  match x with
  | .departed _ ticket => inferInstanceAs (Decidable (ticket ∈ tickets))
  | .left v => inferInstanceAs (Decidable (v.ticket ∈ tickets))
  | .absent | .arrived .. | .entered _ => inferInstanceAs (Decidable True)

namespace Session

variable [Gate γ κ δ]

/-- The slot at a place of the table, if it is of the registry of the instance. -/
def own? (s : Session γ κ δ α ρ) (k : Nat) : Option Slot :=
  (s.slot? k).filter (·.issuer = s.inst.registry.id)

/-- The crossing made by a move. -/
def crossing (s : Session γ κ δ α ρ) : Move α ρ → Crossing κ
  | .arrive k =>
      match s.inst.style, s.own? k with
      | .exclusive, some slot =>
          match Gate.arrive s.inst.gate slot.index with
          | .ok (ticket, _) => .arrived slot ticket
          | .error _ => .absent
      | _, _ => .absent
  | .depart k n =>
      match s.inst.style, s.own? k with
      | .exclusive, some slot => .departed slot (Gate.ticket γ n)
      | _, _ => .absent
  | .enter k =>
      match s.own? k with
      | some slot =>
          match Gate.arrive s.inst.gate slot.index with
          | .ok (ticket, gate) => .entered ⟨slot, ticket, Gate.side gate⟩
          | .error _ => .absent
      | none => .absent
  | .leave _ => s.visits.head?.elim .absent .left
  | _ => .absent

/-- The effect of a crossing on a session. -/
inductive Crossed (s : Session γ κ δ α ρ) : Crossing κ → Session γ κ δ α ρ → Prop where
  | absent {s' : Session γ κ δ α ρ} (hgate : s'.inst.gate = s.inst.gate)
      (hvisits : s'.visits = s.visits) : Crossed s .absent s'
  | arrived {s' : Session γ κ δ α ρ} {slot : Slot} {ticket : κ}
      (harrive : Gate.arrive s.inst.gate slot.index = .ok (ticket, s'.inst.gate))
      (hvisits : s'.visits = s.visits) : Crossed s (.arrived slot ticket) s'
  | departed {s' : Session γ κ δ α ρ} {slot : Slot} {ticket : κ}
      (hgate : s'.inst.gate = (Gate.depart s.inst.gate slot.index ticket).2)
      (hvisits : s'.visits = s.visits) : Crossed s (.departed slot ticket) s'
  | entered {s' : Session γ κ δ α ρ} {v : Visit κ}
      (harrive : Gate.arrive s.inst.gate v.slot.index = .ok (v.ticket, s'.inst.gate))
      (hside : v.side = Gate.side s'.inst.gate) (hvisits : s'.visits = v :: s.visits) :
      Crossed s (.entered v) s'
  | left {s' : Session γ κ δ α ρ} {v : Visit κ}
      (hgate : s'.inst.gate = (Gate.depart s.inst.gate v.slot.index v.ticket).2)
      (hvisits : s.visits = v :: s'.visits) : Crossed s (.left v) s'

lemma own?_of_issuer {s : Session γ κ δ α ρ} {k : Nat} {slot : Slot} (h : s.slot? k = some slot)
    (hissuer : slot.issuer = s.inst.registry.id) : s.own? k = some slot := by
  simp [own?, h, hissuer]

lemma own?_eq_none {s : Session γ κ δ α ρ} {k : Nat}
    (h : ∀ slot, s.slot? k = some slot → slot.issuer ≠ s.inst.registry.id) : s.own? k = none := by
  rw [own?, Option.filter_eq_none_iff]
  simpa using h

lemma crossing_depart {s : Session γ κ δ α ρ} {k n : Nat} {slot : Slot}
    (hstyle : s.inst.style = .exclusive) (hslot : s.slot? k = some slot)
    (hissuer : slot.issuer = s.inst.registry.id) :
    s.crossing (.depart k n) = .departed slot (Gate.ticket γ n) := by
  simp only [crossing, hstyle, own?_of_issuer hslot hissuer]

lemma crossing_leave {s : Session γ κ δ α ρ} {gaveUp : Bool} {v : Visit κ} {visits : List (Visit κ)}
    (hvisits : s.visits = v :: visits) : s.crossing (.leave gaveUp) = .left v := by
  simp only [crossing, hvisits, List.head?_cons, Option.elim_some]

/-- The begin of a query is always covered. -/
lemma covered_enter (s : Session γ κ δ α ρ) (k : Nat) (rawReaders : List (Slot × κ)) :
    (s.crossing (.enter k)).Covered rawReaders := by
  simp only [crossing]
  split
  · split <;> trivial
  · trivial

variable (s : Session γ κ δ α ρ)

lemma crossed_arrive (k : Nat) :
    Crossed s (s.crossing (.arrive k)) (s.act (.arrive k)).2 := by
  simp only [act, crossing]
  rcases hstyle : s.inst.style with _ | _
  · rcases hslot : s.slot? k with _ | slot
    · rw [own?_eq_none (by simp [hslot])]
      exact .absent rfl rfl
    · by_cases hissuer : slot.issuer = s.inst.registry.id
      · rw [own?_of_issuer hslot hissuer]
        simp only [call, Instance.arrive, hissuer, if_true]
        rcases harrive : Gate.arrive s.inst.gate slot.index with m | ⟨ticket, gate⟩
        · exact .absent rfl rfl
        · exact .arrived harrive rfl
      · rw [own?_eq_none (by simpa [hslot] using hissuer)]
        simp only [call, Instance.arrive, hissuer, if_false]
        exact .absent rfl rfl
  · exact .absent rfl rfl

lemma crossed_depart (k n : Nat) :
    Crossed s (s.crossing (.depart k n)) (s.act (.depart k n)).2 := by
  simp only [act, crossing]
  rcases hstyle : s.inst.style with _ | _
  · rcases hslot : s.slot? k with _ | slot
    · rw [own?_eq_none (by simp [hslot])]
      exact .absent rfl rfl
    · by_cases hissuer : slot.issuer = s.inst.registry.id
      · rw [own?_of_issuer hslot hissuer]
        obtain ⟨log, hstate⟩ := s.inst.dismiss_state slot (Gate.ticket γ n)
        simp only [call, Instance.depart, hissuer, if_true, hstate]
        exact .departed rfl rfl
      · rw [own?_eq_none (by simpa [hslot] using hissuer)]
        simp only [call, Instance.depart, hissuer, if_false]
        exact .absent rfl rfl
  · exact .absent rfl rfl

lemma crossed_enter (k : Nat) : Crossed s (s.crossing (.enter k)) (s.act (.enter k)).2 := by
  simp only [act, crossing]
  rcases hslot : s.slot? k with _ | slot
  · rw [own?_eq_none (by simp [hslot])]
    exact .absent rfl rfl
  · by_cases hissuer : slot.issuer = s.inst.registry.id
    · rw [own?_of_issuer hslot hissuer]
      simp only [Instance.enter, Instance.arrive, hissuer, if_true]
      rcases harrive : Gate.arrive s.inst.gate slot.index with m | ⟨ticket, gate⟩
      · exact .absent rfl rfl
      · exact .entered harrive rfl rfl
    · rw [own?_eq_none (by simpa [hslot] using hissuer)]
      simp only [Instance.enter, Instance.arrive, hissuer, if_false]
      exact .absent rfl rfl

lemma crossed_leave (gaveUp : Bool) :
    Crossed s (s.crossing (.leave gaveUp)) (s.act (.leave gaveUp)).2 := by
  simp only [act, crossing]
  rcases hvisits : s.visits with _ | ⟨v, visits⟩
  · exact .absent rfl rfl
  · obtain ⟨log, hstate⟩ := s.inst.dismiss_state v.slot v.ticket
    simp only [Instance.leave, hstate]
    exact .left rfl hvisits

/-- Every move has the effect of its crossing. -/
lemma crossed_act (m : Move α ρ) : Crossed s (s.crossing m) (s.act m).2 := by
  have hmoved := s.moved_act m
  cases m with
  | arrive k => exact s.crossed_arrive k
  | depart k n => exact s.crossed_depart k n
  | enter k => exact s.crossed_enter k
  | leave gaveUp => exact s.crossed_leave gaveUp
  | _ =>
    -- no other move involves the gate or the queries
    revert hmoved
    generalize (s.act _).1 = r
    generalize (s.act _).2 = t
    intro hmoved
    cases hmoved <;> exact .absent rfl rfl

/-- A move does not change the copies. -/
lemma Moved.copies_eq {s t : Session γ κ δ α ρ} {m : Move α ρ} {r : Except Failure (Answer κ α)}
    (h : s.Moved m r t) : t.inst.copies = s.inst.copies := by
  cases h <;> rfl

end Session

/-! ## The readers inside -/

section History

variable [Gate γ κ δ]

/-- Whether the read within an application gets a slot, if it needs one. -/
def Instance.admitsLook (s : Instance γ δ α ρ) : Bool :=
  !Gate.slotted γ || s.registry.register.isOk

lemma Instance.admitsLook_iff {s : Instance γ δ α ρ} :
    s.admitsLook = true ↔ ∃ slot, s.lookSlot? = some slot := by
  unfold admitsLook lookSlot?
  by_cases hslotted : Gate.slotted γ = true
  · rcases s.registry.register with e | r <;>
      simp [hslotted, Except.toOption, Except.isOk, Except.toBool]
  · simp [hslotted]

namespace Action

/-- The crossing made by an action. A read within an application arrives and departs in one action
and makes none. -/
def crossing : Action γ κ δ α ρ → Crossing κ
  | .moved s m => s.crossing m
  | _ => .absent

/-- The number of readers admitted by an action, reads within applications included. -/
def arrivals : Action γ κ δ α ρ → Nat
  | .moved s m =>
      match s.crossing m with
      | .arrived .. | .entered _ => 1
      | _ => 0
  | .applied found _ _ r => if r.observed && found.admitsLook then 1 else 0
  | _ => 0

/-- The copy given to a query that an action begins. -/
def given? : Action γ κ δ α ρ → Option α
  | .moved s m =>
      match s.crossing m with
      | .entered v => some ((s.act m).2.inst.given v)
      | _ => none
  | _ => none

end Action

namespace History

/-- The number of readers admitted. -/
def arrivals (h : History γ κ δ α ρ) : Nat :=
  (h.map Action.arrivals).sum

@[simp] lemma arrivals_cons (d : Action γ κ δ α ρ) (h : History γ κ δ α ρ) :
    arrivals (d :: h) = d.arrivals + arrivals h := rfl

lemma arrivals_le_append {actions h : History γ κ δ α ρ} :
    h.arrivals ≤ arrivals (actions ++ h) := by
  rw [arrivals, arrivals, List.map_append, List.sum_append]
  exact Nat.le_add_left _ _

/-- The copies given to the queries under way when they began, latest first. -/
def opened : History γ κ δ α ρ → List α
  | [] => []
  | d :: h =>
      match d.crossing with
      | .entered _ => d.given?.toList ++ opened h
      | .left _ => (opened h).tail
      | _ => opened h

variable [DecidableEq κ]

/-- The raw readers that have not departed, with their tickets. -/
def rawReaders : History γ κ δ α ρ → List (Slot × κ)
  | [] => []
  | d :: h =>
      match d.crossing with
      | .arrived slot ticket => (slot, ticket) :: rawReaders h
      | .departed slot ticket => (rawReaders h).erase (slot, ticket)
      | _ => rawReaders h

/-- Every raw departure matches a raw arrival with the same slot and ticket. -/
def Matched : History γ κ δ α ρ → Prop
  | [] => True
  | d :: h => Matched h ∧ d.crossing.Covered (rawReaders h)

instance decidableMatched : (h : History γ κ δ α ρ) → Decidable (Matched h)
  | [] => inferInstanceAs (Decidable True)
  | d :: h =>
      have := decidableMatched h
      inferInstanceAs (Decidable (Matched h ∧ d.crossing.Covered (rawReaders h)))

/-- The tickets of the readers in flight. A departure removes one reader with its ticket, so
departures need not match arrivals by their slots. -/
def inFlight : History γ κ δ α ρ → List κ
  | [] => []
  | d :: h => d.crossing.flight (inFlight h)

/-- The tickets of the readers in flight at the latest turn of the side. -/
def atTurn : History γ κ δ α ρ → List κ
  | [] => []
  | .turned _ :: h => inFlight h
  | _ :: h => atTurn h

/-- Every departure presents the ticket of a reader in flight. -/
def Backed : History γ κ δ α ρ → Prop
  | [] => True
  | d :: h => Backed h ∧ d.crossing.Backed (inFlight h)

instance decidableBacked : (h : History γ κ δ α ρ) → Decidable (Backed h)
  | [] => inferInstanceAs (Decidable True)
  | d :: h =>
      have := decidableBacked h
      inferInstanceAs (Decidable (Backed h ∧ d.crossing.Backed (inFlight h)))

/-- The largest number of readers in flight at one time, reads within applications included. -/
def peak : History γ κ δ α ρ → Nat
  | [] => 0
  | d :: h => max (peak h) ((inFlight h).length + d.arrivals)

lemma Backed.of_append {actions h : History γ κ δ α ρ} (hb : Backed (actions ++ h)) : Backed h := by
  induction actions with
  | nil => exact hb
  | cons d actions ih => exact ih hb.1

lemma peak_le_append (actions h : History γ κ δ α ρ) : h.peak ≤ peak (actions ++ h) := by
  induction actions with
  | nil => exact Nat.le_refl _
  | cons d actions ih => exact Nat.le_trans ih (Nat.le_max_left _ _)

/-- A bound on the peak bounds the readers in flight before an action, with those it admits. -/
lemma length_le_of_peak {d : Action γ κ δ α ρ} {h : History γ κ δ α ρ} {n : Nat}
    (hpeak : peak (d :: h) ≤ n) : h.inFlight.length + d.arrivals ≤ n :=
  Nat.le_trans (Nat.le_max_right _ _) hpeak

/-- A bound on the peak bounds the readers in flight after an action. -/
lemma length_inFlight_le {d : Action γ κ δ α ρ} {h : History γ κ δ α ρ} {n : Nat}
    (hpeak : peak (d :: h) ≤ n) : (inFlight (d :: h)).length ≤ n := by
  have hlength := length_le_of_peak hpeak
  have hbefore : h.inFlight.length ≤ n := Nat.le_of_add_right_le hlength
  rw [inFlight]
  cases d with
  | moved s m =>
    simp only [Action.crossing, Action.arrivals] at hlength ⊢
    rcases hcrossing : s.crossing m with _ | ⟨slot, ticket⟩ | ⟨slot, ticket⟩ | v | v
    · exact hbefore
    · rwa [hcrossing] at hlength
    · exact Nat.le_trans (List.erase_sublist.length_le) hbefore
    · rwa [hcrossing] at hlength
    · exact Nat.le_trans (List.erase_sublist.length_le) hbefore
  | _ => exact hbefore

lemma Matched.of_append {actions h : History γ κ δ α ρ} (hm : Matched (actions ++ h)) :
    Matched h := by
  induction actions with
  | nil => exact hm
  | cons d actions ih => exact ih hm.1

end History

/-- Steps of the leading writer make no crossings. -/
lemma Instance.Staged.crossing {s t : Instance γ δ α ρ} {c c' : Control δ α ρ}
    {actions : History γ κ δ α ρ} (h : Staged s c actions t c') :
      ∀ d ∈ actions, d.crossing = .absent := by
  cases h <;> simp [Action.crossing]

namespace History

lemma opened_append {actions : History γ κ δ α ρ} (hactions : ∀ d ∈ actions, d.crossing = .absent)
    (h : History γ κ δ α ρ) : opened (actions ++ h) = h.opened := by
  induction actions with
  | nil => rfl
  | cons d actions ih =>
    obtain ⟨hd, hactions⟩ := List.forall_mem_cons.1 hactions
    rw [List.cons_append, opened, hd]
    exact ih hactions

lemma inFlight_append [DecidableEq κ] {actions : History γ κ δ α ρ}
    (hactions : ∀ d ∈ actions, d.crossing = .absent) (h : History γ κ δ α ρ) :
    inFlight (actions ++ h) = h.inFlight := by
  induction actions with
  | nil => rfl
  | cons d actions ih =>
    obtain ⟨hd, hactions⟩ := List.forall_mem_cons.1 hactions
    rw [List.cons_append, inFlight, hd]
    exact ih hactions

lemma rawReaders_append [DecidableEq κ] {actions : History γ κ δ α ρ}
    (hactions : ∀ d ∈ actions, d.crossing = .absent) (h : History γ κ δ α ρ) :
    rawReaders (actions ++ h) = h.rawReaders := by
  induction actions with
  | nil => rfl
  | cons d actions ih =>
    obtain ⟨hd, hactions⟩ := List.forall_mem_cons.1 hactions
    rw [List.cons_append, rawReaders, hd]
    exact ih hactions

end History

/-- A move does not change the copies given to the queries under way. -/
lemma Session.Moved.opened {s s' : Session γ κ δ α ρ} {h : History γ κ δ α ρ} {m : Move α ρ}
    {r : Except Failure (Answer κ α)} (hm : s.Moved m r s') (hact : s.act m = (r, s'))
    (ho : s.visits.map s.inst.given = h.opened) :
    s'.visits.map s'.inst.given = History.opened (.moved s m :: h) := by
  have hcrossed := s.crossed_act m
  rw [hact] at hcrossed
  have hgiven : (s'.inst.given : Visit κ → α) = s.inst.given := by
    funext v
    rw [Instance.given, Instance.given, hm.copies_eq]
  generalize hx : s.crossing m = x at hcrossed
  cases hcrossed with
  | absent _ hvisits | arrived _ hvisits | departed _ hvisits =>
    simp only [History.opened, Action.crossing, hx]
    rw [hvisits, hgiven, ho]
  | entered _ _ hvisits =>
    simp only [History.opened, Action.crossing, Action.given?, hx, hact]
    rw [hvisits, List.map_cons, hgiven, ho]
    rfl
  | left _ hvisits =>
    simp only [History.opened, Action.crossing, hx]
    rw [← ho, hvisits, List.map_cons, hgiven, List.tail_cons]

omit [Gate γ κ δ] in
/-- An application changes a copy that was given to no query. -/
lemma Copies.given_set {side : Side} {visits : List (Visit κ)} {copies : Copies α}
    (h : ∀ v ∈ visits, v.side = side.opposite) (a : α) :
    visits.map (fun v => (copies.set side a).get v.side) =
      visits.map (fun v => copies.get v.side) := by
  refine List.map_congr_left fun v hv => ?_
  rw [h v hv, Copies.get_set_opposite]

/-- The read within an application leaves the gate unchanged, or is one arrival and departure. -/
lemma Instance.Look.visited {s : Instance γ δ α ρ} {r : Request α ρ} {gate : γ}
    {registry : Registry} {note : Writer α → Writer α} (h : s.Look r gate registry note)
    (side : Side) (p : Pass) :
    gate = s.gate ∨ (Action.applied s side p r : Action γ κ δ α ρ).arrivals = 1 ∧
      r.observed = true ∧ ∃ slot ticket entered,
        s.lookSlot? = some slot ∧ Visited s.gate slot.index entered gate ticket := by
  rcases h.gate with hgate | ⟨hobserved, slot, ticket, entered, hslot, hvisited⟩
  · exact .inl hgate
  · refine .inr ⟨?_, hobserved, slot, ticket, entered, hslot, hvisited⟩
    simp [Action.arrivals, hobserved, admitsLook_iff.2 ⟨slot, hslot⟩]

variable [DecidableEq κ]

namespace Session

/-- The readers inside, with their tickets: the queries under way and the raw readers. -/
def inside (s : Session γ κ δ α ρ) (h : History γ κ δ α ρ) : List (Slot × κ) :=
  s.visits.map (fun v => (v.slot, v.ticket)) ++ h.rawReaders

/-- A move leaves the readers inside unchanged, adds one, or removes one. -/
lemma Crossed.inside_cases {s s' : Session γ κ δ α ρ} {h : History γ κ δ α ρ} {m : Move α ρ}
    (hc : Crossed s (s.crossing m) s') (hm : History.Matched (.moved s m :: h)) :
    let d : Action γ κ δ α ρ := .moved s m
    s'.inst.gate = s.inst.gate ∧ s'.inside (d :: h) = s.inside h ∧ d.arrivals = 0 ∨
      (∃ slot ticket, Gate.arrive s.inst.gate slot.index = .ok (ticket, s'.inst.gate) ∧
        (s'.inside (d :: h)).Perm ((slot, ticket) :: s.inside h) ∧ d.arrivals = 1) ∨
      ∃ slot ticket, s'.inst.gate = (Gate.depart s.inst.gate slot.index ticket).2 ∧
        (s.inside h).Perm ((slot, ticket) :: s'.inside (d :: h)) ∧ d.arrivals = 0 := by
  intro d
  have hrawReader := hm.2
  have hrawReaders : History.rawReaders (d :: h) = match d.crossing with
      | .arrived slot ticket => (slot, ticket) :: h.rawReaders
      | .departed slot ticket => h.rawReaders.erase (slot, ticket)
      | _ => h.rawReaders := rfl
  have hcount : d.arrivals = match s.crossing m with
      | .arrived .. | .entered _ => 1
      | _ => 0 := rfl
  simp only [inside]
  have hcrossing : d.crossing = s.crossing m := rfl
  rw [hcrossing] at hrawReaders hrawReader
  rw [hrawReaders, hcount]
  -- from here on only the crossing matters, whichever move made it
  clear hrawReaders hcount hcrossing
  revert hrawReader hc
  generalize s.crossing m = c
  intro hc hrawReader
  cases hc with
  | absent hgate hvisits => exact .inl ⟨hgate, by rw [hvisits], rfl⟩
  | arrived harrive hvisits =>
    refine .inr (.inl ⟨_, _, harrive, ?_, rfl⟩)
    rw [hvisits]
    exact List.perm_middle
  | departed hgate hvisits =>
    refine .inr (.inr ⟨_, _, hgate, ?_, rfl⟩)
    rw [hvisits]
    exact ((List.perm_cons_erase hrawReader).append_left _).trans List.perm_middle
  | entered harrive hside hvisits =>
    refine .inr (.inl ⟨_, _, harrive, ?_, rfl⟩)
    rw [hvisits]
    exact .refl _
  | left hgate hvisits =>
    refine .inr (.inr ⟨_, _, hgate, ?_, rfl⟩)
    rw [hvisits]
    exact .refl _

end Session

end History

end TwinCopy
