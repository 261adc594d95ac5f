import TwinCopy.Proofs.CellOwnership
import TwinCopy.Proofs.ExactGates

/-!
# Indices of slots are in range

An instance over read-indicators has three kinds of arrays, each with a size of its own: the claims
of the registry, the flags or buckets of the two read-indicators, and the cells of the requests.
Each is indexed by slots. The registry hands out no index without an entry in all of them
(`Session.SlotsInRange`), and a slot of another registry is rejected before anything is looked up
(`Session.RejectsForeign`). So nothing is looked up beyond the end of an array:
`slot_lookups_in_range`.
-/

namespace TwinCopy

variable {α ρ : Type}

/-! ## Read-indicators -/

namespace Indicator

/-- A read-indicator has an entry for this slot: a bucket that the slot is hashed to, or a flag. -/
def HasEntry (i : Indicator) (slot : Nat) : Prop :=
  match i with
  | single _ | paired _ => True
  | hashed c => c.bucket slot < c.size
  | flagged f | watched f => slot < f.reading.length

variable {i j : Indicator} {slot other : Nat}

lemma hasEntry_ofConfig {kind : IndicatorKind} {c : Config}
    (hslot : ∀ n, kind.slotCapacity c = some n → slot < n) : (ofConfig kind c).HasEntry slot := by
  cases kind with
  | single | paired => trivial
  | hashed => exact HashedCounters.bucket_lt (HashedCounters.size_ofCount_pos _) slot
  | flagged | watched => simpa [ofConfig, ofSize, HasEntry, SlotFlags.ofCount] using hslot _ rfl

/-- With an entry an arrival is accepted. -/
lemma HasEntry.arrive (h : i.HasEntry slot) : ∃ j, i.arrive slot = .ok j := by
  cases i with
  | single | paired | hashed => exact ⟨_, rfl⟩
  | flagged f | watched f =>
    have hlt : slot < f.reading.length := h
    exact ⟨_, by simp only [Indicator.arrive, SlotFlags.arrive, if_pos hlt]; rfl⟩

/-- With an entry a departure is refused only as unmatched. -/
lemma HasEntry.depart (h : i.HasEntry slot) :
    (i.depart slot).1 = .ok () ∨ (i.depart slot).1 = .error .unmatchedDeparture := by
  cases i with
  | single c =>
    simp only [Indicator.depart, SingleCounter.depart, Prod.map_fst]
    split <;> simp
  | paired c =>
    simp only [Indicator.depart, PairedCounters.depart, Prod.map_fst]
    split <;> simp
  | hashed c =>
    simp only [Indicator.depart, HashedCounters.depart, Prod.map_fst]
    split <;> simp
  | flagged f | watched f =>
    have hflag : f.reading[slot]? = some f.reading[slot] := List.getElem?_eq_getElem h
    simp only [Indicator.depart, SlotFlags.depart, hflag, Prod.map_fst]
    split <;> simp

/-- An arrival does not change which slots have entries. -/
lemma HasEntry.of_arrive (h : i.HasEntry slot) (harrive : i.arrive other = .ok j) :
    j.HasEntry slot := by
  cases i with
  | single | paired =>
    cases harrive
    exact h
  | hashed c =>
    cases harrive
    rw [HasEntry, HashedCounters.bucket_congr (c.size_arrive other), HashedCounters.size_arrive]
    exact h
  | flagged f | watched f =>
    simp only [Indicator.arrive, SlotFlags.arrive] at harrive
    split at harrive
    · cases harrive
      simpa [HasEntry] using h
    · cases harrive

/-- A departure does not change which slots have entries. -/
lemma HasEntry.of_depart (h : i.HasEntry slot) (other : Nat) :
    (i.depart other).2.HasEntry slot := by
  cases i with
  | single | paired => trivial
  | hashed c =>
    change (c.depart other).2.bucket slot < (c.depart other).2.size
    rw [HashedCounters.bucket_congr (c.size_depart other), HashedCounters.size_depart]
    exact h
  | flagged f | watched f =>
    change slot < (f.depart other).2.reading.length
    simp only [SlotFlags.depart]
    split
    · exact h
    · simpa [HasEntry] using h

end Indicator

/-! ## Gates -/

namespace Versioned

/-- Both read-indicators have an entry for this slot. -/
def HasEntry (g : Versioned) (slot : Nat) : Prop :=
  ∀ v, (g.readers v).HasEntry slot

variable {g g' : Versioned} {slot other : Nat} {v : Version}

lemma HasEntry.arrive (h : g.HasEntry slot) : ∃ g', Gate.arrive g slot = .ok (g.current, g') := by
  obtain ⟨i, hi⟩ := (h g.current).arrive
  refine ⟨g.setReaders g.current i, ?_⟩
  change g.arrive slot = _
  rw [Versioned.arrive, hi]

lemma HasEntry.depart (h : g.HasEntry slot) (v : Version) :
    (Gate.depart g slot v).1 = .ok [] ∨ (Gate.depart g slot v).1 = .error .unmatchedDeparture := by
  change (g.depart slot v).1 = _ ∨ (g.depart slot v).1 = _
  rw [Versioned.depart]
  rcases (h v).depart with hv | hv
  · left
    generalize (g.readers v).depart slot = result at hv
    obtain ⟨answer, i⟩ := result
    cases hv
    rfl
  · right
    generalize (g.readers v).depart slot = result at hv
    obtain ⟨answer, i⟩ := result
    cases hv
    rfl

lemma HasEntry.of_arrive (h : g.HasEntry slot) (harrive : Gate.arrive g other = .ok (v, g')) :
    g'.HasEntry slot := by
  obtain ⟨i, hi, -, rfl⟩ := Versioned.of_arrive harrive
  intro w
  by_cases hw : w = g.current
  · subst hw
    rw [readers_setReaders_same]
    exact (h _).of_arrive hi
  · rw [readers_setReaders_of_ne _ _ hw]
    exact h w

lemma HasEntry.of_depart (h : g.HasEntry slot) (other : Nat) (v : Version) :
    (Gate.depart g other v).2.HasEntry slot := by
  rw [depart_state]
  intro w
  by_cases hw : w = v
  · subst hw
    rw [readers_setReaders_same]
    exact (h w).of_depart other
  · rw [readers_setReaders_of_ne _ _ hw]
    exact h w

lemma HasEntry.visited {entered left : Versioned} (h : g.HasEntry slot)
    (hvisited : Instance.Visited g other entered left v) : left.HasEntry slot := by
  obtain ⟨harrive, rfl⟩ := hvisited
  exact (h.of_arrive harrive).of_depart other v

end Versioned

lemma Session.Crossed.hasEntry {s s' : Session Versioned Version Version α ρ} {x : Crossing Version}
    {slot : Nat} (hcrossed : s.Crossed x s') (h : s.inst.gate.HasEntry slot) :
    s'.inst.gate.HasEntry slot := by
  cases hcrossed with
  | absent hgate => exact hgate ▸ h
  | arrived harrive | entered harrive => exact h.of_arrive harrive
  | departed hgate | left hgate =>
    rw [hgate]
    exact h.of_depart _ _

lemma Instance.Staged.hasEntry {s t : Instance Versioned Version α ρ} {c c' : Control Version α ρ}
    {actions : History Versioned Version Version α ρ} {slot : Nat}
    (hstaged : Staged s c actions t c') (h : s.gate.HasEntry slot) : t.gate.HasEntry slot := by
  have hlook : ∀ {r : Request α ρ} {gate registry note}, s.Look r gate registry note →
      gate.HasEntry slot := by
    intro r gate registry note hlook
    rcases hlook.gate with rfl | ⟨-, slot', ticket, entered, -, hvisited⟩
    · exact h
    · exact h.visited hvisited
  cases hstaged with
  | quiet | elect | turn | shift | clear => exact h
  | apply hpass =>
    obtain ⟨registry, note, hpass⟩ := pass_look hpass
    exact hlook hpass
  | giveUp hpass =>
    obtain ⟨registry, note, hpass⟩ := pass_look hpass
    rw [gate_abandon]
    exact hlook hpass
  | complete =>
    rw [gate_complete]
    exact h
  | surplus =>
    rw [gate_abandon]
    exact h

/-! ## Slots of another registry -/

namespace Session

variable {s s' : Session Versioned Version Version α ρ} {k : Nat} {slot : Slot}

/-- The session after a slot of another registry was rejected: this is reported, and nothing else
changes. -/
def rejected (s : Session Versioned Version Version α ρ) : Session Versioned Version Version α ρ :=
  { s with inst := s.inst.report (.misused .foreignSlot) }

/-- The slot at this place is rejected by every operation. No query begins, no reader arrives or
departs, and no request is published: a combining writer finishes at once. -/
structure RejectsForeign (s : Session Versioned Version Version α ρ) (k : Nat) : Prop where
  enter : s.act (.enter k) = (.error (.fault (.misuse .foreignSlot) none), s.rejected)
  arrive : s.inst.style = .exclusive →
    s.act (.arrive k) = (.error (.fault (.misuse .foreignSlot) none), s.rejected)
  depart : s.inst.style = .exclusive → ∀ ticket,
    s.act (.depart k ticket) = (.error (.fault (.misuse .foreignSlot) none), s.rejected)
  mutate : s.inst.style = .combining → ∀ mutation observed,
    s.act (.mutate k mutation observed) =
      (.ok (.writer s.started),
        { s.rejected with
          inst :=
            { s.rejected.inst with
              finished := ⟨s.started, .error (.misuse .foreignSlot),
                if observed then some [] else none⟩ :: s.inst.finished }
          started := s.started + 1 })

/-- Slots of another registry are rejected, as long as writers have distinct numbers. -/
lemma rejectsForeign {t : Option (Task α ρ)} (hd : CellInv s.inst.cells s.inst.writers s.started t)
    (hslot : s.slot? k = some slot) (hforeign : slot.issuer ≠ s.inst.registry.id) :
      s.RejectsForeign k where
  enter := by
    simp only [act, hslot, Instance.enter, Instance.arrive, if_neg hforeign]
    rfl
  arrive hstyle := by
    simp only [act, hstyle, hslot, call, Instance.arrive, if_neg hforeign]
    rfl
  depart hstyle ticket := by
    simp only [act, hstyle, hslot, call, Instance.depart, if_neg hforeign]
    rfl
  mutate hstyle mutation observed := by
    have hbusy : s.hasRequest slot = false := by
      rw [hasRequest, beq_false_of_ne hforeign, Bool.and_false, Bool.false_and]
    have hwriters : s.inst.writers.filter (·.id != s.started) = s.inst.writers :=
      List.filter_eq_self.2 fun w hw => by simpa using Nat.ne_of_lt (hd.started w hw)
    rw [mutate_of_combining hstyle hslot, hbusy, if_neg Bool.false_ne_true, if_neg hforeign]
    simp only [Instance.finish, Instance.report, hwriters]
    simp only [rejected, Instance.report, hstyle, List.reverse_nil]

end Session

/-! ## Slots of the instance -/

namespace Registry

/-- The registry may hand out this index. -/
def Covers (r : Registry) (index : Nat) : Prop :=
  ∀ n, r.capacity = some n → index < n

variable {r r' : Registry} {index : Nat}

lemma Covers.congr (h : r.Covers index) (hr : r'.capacity = r.capacity) : r'.Covers index :=
  fun n hn => h n (hr ▸ hn)

lemma covers_of_register {slot : Slot} (h : r.register = .ok (slot, r')) : r.Covers slot.index :=
  (register_spec h).2.2.2

end Registry

/-- Every index that the registry may hand out has an entry, and the registry may hand out the
indices of all slots in use. -/
structure Session.SlotsInRange (s : Session Versioned Version Version α ρ) : Prop where
  hasEntry : ∀ index, s.inst.registry.Covers index → s.inst.gate.HasEntry index
  table : ∀ slot, some slot ∈ s.table → slot.issuer = s.inst.registry.id →
    s.inst.registry.Covers slot.index
  visits : ∀ v ∈ s.visits, s.inst.registry.Covers v.slot.index
  stranger : s.stranger.id ≠ s.inst.registry.id

namespace Session.SlotsInRange

variable {s s' : Session Versioned Version Version α ρ}

lemma covers_of_slot? (hs : s.SlotsInRange) {k : Nat} {slot : Slot} (hslot : s.slot? k = some slot)
    (hissuer : slot.issuer = s.inst.registry.id) : s.inst.registry.Covers slot.index :=
  hs.table slot (List.mem_of_getElem? (getElem?_of_slot? rfl hslot)) hissuer

lemma moved (hs : s.SlotsInRange) {m : Move α ρ} {r : Except Failure (Answer Version α)}
    (hm : s.Moved m r s') (hcrossed : s.Crossed (s.crossing m) s') : s'.SlotsInRange where
  hasEntry index hindex := hcrossed.hasEntry (hs.hasEntry index (hindex.congr hm.capacity_eq.symm))
  table slot hslot hissuer := by
    rw [hm.registry_id] at hissuer
    refine Registry.Covers.congr ?_ hm.capacity_eq
    rcases hm.mem_table hslot with hold | hregister | ⟨-, hforeign⟩
    · exact hs.table slot hold hissuer
    · exact Registry.covers_of_register hregister
    · exact absurd (hforeign.symm.trans hissuer) hs.stranger
  visits v hv := by
    refine Registry.Covers.congr ?_ hm.capacity_eq
    rcases hm.mem_visits hv with hold | ⟨hissuer, -, k, hslot⟩
    · exact hs.visits v hold
    · exact hs.covers_of_slot? hslot hissuer
  stranger := by
    rw [hm.stranger_id, hm.registry_id]
    exact hs.stranger

lemma staged (hs : s.SlotsInRange) {t : Instance Versioned Version α ρ} {c c' : Control Version α ρ}
    {actions : History Versioned Version Version α ρ}
    (hstaged : Instance.Staged s.inst c actions t c') : SlotsInRange { s with inst := t } := by
  obtain ⟨-, hid, hcapacity, -⟩ := hstaged.progress.frame
  exact ⟨fun index hindex => hstaged.hasEntry (hs.hasEntry index (hindex.congr hcapacity.symm)),
    fun slot hslot hissuer => (hs.table slot hslot (hissuer.trans hid)).congr hcapacity,
    fun v hv => (hs.visits v hv).congr hcapacity, hid.symm ▸ hs.stranger⟩

lemma start (style : Style) (kind : IndicatorKind) (c : Config) (init : Copies α) :
    SlotsInRange
      (.ofInstance (.ofStyle style kind c init) : Session Versioned Version Version α ρ) := by
  refine ⟨fun index hindex v => ?_, nofun, nofun, Nat.succ_ne_self _⟩
  have hreaders :
    ((Instance.ofStyle style kind c init : Instance Versioned Version α ρ).gate.readers
      v) = .ofConfig kind c := by
    cases style <;> cases v <;> rfl
  have hcovers : ∀ n, kind.slotCapacity c = some n → index < n := by
    intro n hn
    cases style with
    | exclusive => exact hindex n ((Registry.capacity_ofCapacity 0 _).trans hn)
    | combining =>
      have hmax : n = c.maxThreads := by cases kind <;> cases hn <;> rfl
      exact hindex n (hmax ▸ Registry.capacity_ofCapacity 0 (some c.maxThreads))
  exact hreaders ▸ Indicator.hasEntry_ofConfig hcovers

end Session.SlotsInRange

/-! ## Reported events -/

/-- The event does not report a slot beyond the end of an array. -/
def Event.InBounds (e : Event) : Prop :=
  e ≠ .misused .slotBeyondCapacity

lemma Event.inBounds_misused {m : Misuse} (h : m ≠ .slotBeyondCapacity) :
    Event.InBounds (.misused m) := by
  intro heq
  cases heq
  exact h rfl

lemma Event.inBounds_slotRegistered (index : Nat) : Event.InBounds (.slotRegistered index) := by
  intro heq
  cases heq

namespace Instance

variable {s t : Instance Versioned Version α ρ} {slot : Slot}

lemma dismiss_inBounds (h : s.gate.HasEntry slot.index) (v : Version) :
    s.Reports Event.InBounds (s.dismiss slot v).2 := by
  have hanswer := h.depart v
  rcases s.dismiss_cases slot v with
    ⟨events, gate, hdepart, hdismiss⟩ | ⟨m, gate, hdepart, hdismiss⟩
  · rw [hdepart] at hanswer
    have hevents : events = [] := by simpa using hanswer
    rw [hdismiss, hevents]
    exact .of_log_eq rfl
  · rw [hdepart] at hanswer
    have hm : m = .unmatchedDeparture := by simpa using hanswer
    rw [hdismiss, hm]
    exact .of_log_cons (Event.inBounds_misused (by decide)) rfl

lemma arrive_of_hasEntry (hissuer : slot.issuer = s.registry.id) (h : s.gate.HasEntry slot.index) :
    ∃ gate, Gate.arrive s.gate slot.index = .ok (s.gate.current, gate) ∧
      s.arrive slot = (.ok s.gate.current, { s with gate }) := by
  obtain ⟨gate, hgate⟩ := h.arrive
  exact ⟨gate, hgate, by rw [arrive, if_pos hissuer, hgate]⟩

/-- An arrival with a slot of the instance finds its entry. -/
lemma arrive_inBounds (h : slot.issuer = s.registry.id → s.gate.HasEntry slot.index) :
    s.Reports Event.InBounds (s.arrive slot).2 := by
  by_cases hissuer : slot.issuer = s.registry.id
  · obtain ⟨gate, -, harrive⟩ := arrive_of_hasEntry hissuer (h hissuer)
    rw [harrive]
    exact .of_log_eq rfl
  · rw [arrive, if_neg hissuer]
    exact .of_log_cons (Event.inBounds_misused (by decide)) rfl

lemma depart_inBounds (h : slot.issuer = s.registry.id → s.gate.HasEntry slot.index) (v : Version) :
    s.Reports Event.InBounds (s.depart slot v).2 := by
  rw [depart]
  split
  · next hissuer => exact dismiss_inBounds (h hissuer) v
  · exact .of_log_cons (Event.inBounds_misused (by decide)) rfl

lemma enter_inBounds (h : slot.issuer = s.registry.id → s.gate.HasEntry slot.index) :
    s.Reports Event.InBounds (s.enter slot).2 := by
  have harrive := arrive_inBounds h
  rw [enter]
  split <;> next heq => rw [heq] at harrive; exact harrive

lemma register_inBounds (s : Instance Versioned Version α ρ) :
    s.Reports Event.InBounds s.register.2 := by
  rw [register]
  split
  · exact .of_log_cons (Event.inBounds_slotRegistered _) rfl
  · exact .of_log_eq rfl

lemma mutate_inBounds (s : Instance Versioned Version α ρ) (slot : Slot) (r : Request α ρ) :
    s.Reports Event.InBounds (s.mutate slot r) := by
  rw [mutate]
  split
  · exact .of_log_eq rfl
  · split
    · exact .of_log_eq rfl
    · exact .of_log_cons (Event.inBounds_misused (by decide)) rfl

lemma read_inBounds (h : s.gate.HasEntry slot.index) :
    s.Reports Event.InBounds (s.read slot).2 := by
  by_cases hissuer : slot.issuer = s.registry.id
  · obtain ⟨gate, hgate, harrive⟩ := arrive_of_hasEntry hissuer h
    have henter : s.enter slot = (.ok ⟨slot, s.gate.current, gate.side⟩, { s with gate }) := by
      rw [enter, harrive]
      rfl
    rw [read_of_enter henter]
    exact dismiss_inBounds (s := { s with gate }) (h.of_arrive hgate) _
  · have hread :
        s.read slot = (.error (.misuse .foreignSlot), s.report (.misused .foreignSlot)) := by
      rw [read, enter, arrive, if_neg hissuer]
      rfl
    rw [hread]
    exact .of_log_cons (Event.inBounds_misused (by decide)) rfl

/-- A read within an application finds its entry, as it has a slot of the registry. -/
lemma looked_inBounds (h : ∀ index, s.registry.Covers index → s.gate.HasEntry index)
    (r : Request α ρ) : s.Reports Event.InBounds (s.looked r) := by
  have hvisit : s.Reports Event.InBounds s.readAnew.2 := by
    rw [readAnew, if_pos (show Gate.slotted Versioned = true from rfl), register]
    rcases hregister : s.registry.register with e | ⟨slot, registry⟩
    · exact .of_log_eq rfl
    · have hfound : s.gate.HasEntry slot.index := h _ (Registry.covers_of_register hregister)
      refine Reports.trans (.of_log_cons (Event.inBounds_slotRegistered slot.index) rfl)
        (t := { s with registry }.report (.slotRegistered slot.index)) ?_
      exact read_inBounds (s := { s with registry }.report (.slotRegistered slot.index)) hfound
  rw [looked_eq]
  split
  · exact hvisit
  · exact .of_log_eq rfl

lemma pass_inBounds (h : ∀ index, s.registry.Covers index → s.gate.HasEntry index) {side : Side}
    {n : Nat} {x : Nat × Request α ρ} {r : Except Fault Unit} (hpass : s.pass side n [x] = (r, t)) :
    s.Reports Event.InBounds t := by
  obtain ⟨copies, cells, rfl⟩ := pass_looked hpass
  exact looked_inBounds h x.2

lemma Staged.inBounds (h : ∀ index, s.registry.Covers index → s.gate.HasEntry index)
    {c c' : Control Version α ρ} {actions : History Versioned Version Version α ρ}
    (hstaged : Staged s c actions t c') : s.Reports Event.InBounds t := by
  cases hstaged with
  | quiet | elect | turn | shift => exact .of_log_eq rfl
  | apply hpass => exact pass_inBounds h hpass
  | giveUp hpass =>
    refine (pass_inBounds h hpass).trans ((abandon_reports _ _ _).mono ?_)
    rintro e (rfl | rfl) <;> nofun
  | clear => exact .of_log_cons (e := .readersDrained _) nofun rfl
  | complete =>
    refine (complete_reports _ _ _).mono ?_
    rintro e (rfl | rfl)
    · nofun
    · cases s.style <;> nofun
  | surplus hcleared => cases hcleared

end Instance

namespace Session.SlotsInRange

variable {s : Session Versioned Version Version α ρ} {k : Nat} {slot : Slot}

lemma hasEntry_of_slot? (hs : s.SlotsInRange) (hslot : s.slot? k = some slot)
    (hissuer : slot.issuer = s.inst.registry.id) : s.inst.gate.HasEntry slot.index :=
  hs.hasEntry _ (hs.covers_of_slot? hslot hissuer)

/-- No move reports a slot beyond the end of an array. -/
lemma act_inBounds (hs : s.SlotsInRange) (m : Move α ρ) :
    s.inst.Reports Event.InBounds (s.act m).2.inst := by
  have hregister := s.inst.register_inBounds
  have hslotted : Gate.slotted Versioned = true := rfl
  cases m with
  | look | text | next => exact .of_log_eq rfl
  | register =>
    rw [act, if_pos hslotted]
    split <;> next h => rw [h] at hregister; exact hregister
  | churn =>
    rw [act, if_pos hslotted]
    split <;> next h => rw [h] at hregister; exact hregister
  | foreign =>
    rw [act, if_pos hslotted]
    split
    · exact .of_log_cons (Event.inBounds_slotRegistered _) rfl
    · exact .of_log_eq rfl
  | slot k =>
    rw [act, if_pos hslotted]
    split <;> exact .of_log_eq rfl
  | drop k =>
    rw [act, if_pos hslotted]
    split
    · exact .of_log_eq rfl
    · split
      · exact .of_log_eq rfl
      · refine .of_log_eq ?_
        simp only
        split <;> rfl
  | arrive k =>
    -- in the remaining cases something is looked up at the index of a slot, which has an entry
    rw [act]
    split
    · exact .of_log_eq rfl
    · exact .of_log_eq rfl
    · next slot _ hslot => exact Instance.arrive_inBounds (hs.hasEntry_of_slot? hslot)
  | depart k ticket =>
    rw [act]
    split
    · exact .of_log_eq rfl
    · exact .of_log_eq rfl
    · next slot _ hslot => exact Instance.depart_inBounds (hs.hasEntry_of_slot? hslot) _
  | enter k =>
    rw [act]
    split
    · exact .of_log_eq rfl
    · next slot hslot =>
      have henter := Instance.enter_inBounds (hs.hasEntry_of_slot? hslot)
      split <;> next h => rw [h] at henter; exact henter
  | leave gaveUp =>
    rw [act]
    split
    · exact .of_log_eq rfl
    · next v visits hvisits =>
      have hv : v ∈ s.visits := hvisits ▸ List.mem_cons_self
      exact Instance.dismiss_inBounds (hs.hasEntry _ (hs.visits v hv)) _
  | lock =>
    rw [act]
    split
    · exact .of_log_eq rfl
    · split <;> exact .of_log_eq rfl
  | unlock =>
    rw [act]
    split <;> exact .of_log_eq rfl
  | tryLock =>
    rw [act]
    split <;> exact .of_log_eq rfl
  | mutate k mutation observed =>
    rw [act]
    split
    · exact .of_log_eq rfl
    · simp only
      split
      · exact .of_log_eq rfl
      · exact Instance.mutate_inBounds _ _ _

end Session.SlotsInRange

/-- For a slot of the instance every lookup succeeds: its claim, its entries in both
read-indicators, and the cell for its requests. A query begins, an arrival is accepted, and a
departure may only be refused as unmatched. -/
structure Session.FindsEntries (s : Session Versioned Version Version α ρ) (k : Nat) (slot : Slot) :
    Prop where
  claim : s.inst.registry.Covers slot.index
  hasEntry : s.inst.gate.HasEntry slot.index
  cell : s.inst.style = .combining → slot.index < s.inst.cells.length
  enter : ∃ a, (s.act (.enter k)).1 = .ok (.copy a)
  arrive : s.inst.style = .exclusive → ∃ v, (s.act (.arrive k)).1 = .ok (.ticket v)
  depart : s.inst.style = .exclusive → ∀ n, (s.act (.depart k n)).1 = .ok .done ∨
    (s.act (.depart k n)).1 = .error (.fault (.misuse .unmatchedDeparture) none)

lemma Session.SlotsInRange.findsEntries {s : Session Versioned Version Version α ρ}
    (hs : s.SlotsInRange)
    (hroom : s.EnoughCells) {k : Nat} {slot : Slot} (hslot : s.slot? k = some slot)
    (hissuer : slot.issuer = s.inst.registry.id) : s.FindsEntries k slot := by
  have hentry := hs.hasEntry_of_slot? hslot hissuer
  obtain ⟨gate, -, harrive⟩ := Instance.arrive_of_hasEntry hissuer hentry
  refine ⟨hs.covers_of_slot? hslot hissuer, hentry, fun hstyle => ?_, ?_, fun hstyle => ?_,
    fun hstyle n => ?_⟩
  · exact hroom.table hstyle slot (List.mem_of_getElem? (getElem?_of_slot? rfl hslot))
      hissuer
  · simp only [act, hslot, Instance.enter, harrive]
    exact ⟨_, rfl⟩
  · simp only [act, hstyle, hslot, call, harrive]
    exact ⟨_, rfl⟩
  · simp only [act, hstyle, hslot, call, Instance.depart, if_pos hissuer]
    have hanswer := hentry.depart (Gate.ticket Versioned n)
    rcases s.inst.dismiss_cases slot (Gate.ticket Versioned n) with
      ⟨events, gate, hdepart, hdismiss⟩ | ⟨m, gate, hdepart, hdismiss⟩
    · rw [hdismiss]
      exact .inl rfl
    · rw [hdepart] at hanswer
      have hm : m = .unmatchedDeparture := by simpa using hanswer
      rw [hdismiss, hm]
      exact .inr rfl

/-! ## At every point -/

section

variable (style : Style) (kind : IndicatorKind) (c : Config) (init : Copies α)
  (ticks : List (Tick α ρ))

/-- `SlotsInRange` holds at every point of every schedule, and no event has reported otherwise. -/
theorem slotsInRange_after :
    let p := (Point.start (.ofInstance (.ofStyle style kind c init) :
      Session Versioned Version Version α ρ)).after ticks
    p.session.SlotsInRange ∧ ∀ e ∈ p.inst.log, e.InBounds := by
  set s : Session Versioned Version Version α ρ := .ofInstance (.ofStyle style kind c init)
  have hnew : ∀ {t u : Instance Versioned Version α ρ}, t.Reports Event.InBounds u →
      (∀ e ∈ t.log, e.InBounds) → ∀ e ∈ u.log, e.InBounds := by
    rintro t u ⟨events, hlog, hevents⟩ hold
    rw [hlog]
    exact List.forall_mem_append.2 ⟨hevents, hold⟩
  refine Point.stage_after (P := fun s _ _ => s.SlotsInRange ∧ ∀ e ∈ s.inst.log, e.InBounds)
    (fun {s h c m r s'} _ hact hm ⟨hs, hlog⟩ => ?_)
    (fun hstaged ⟨hs, hlog⟩ => ⟨hs.staged hstaged, hnew (hstaged.inBounds hs.hasEntry) hlog⟩)
    (fun ⟨hs, _⟩ => ⟨⟨hs.hasEntry, hs.table, hs.visits, hs.stranger⟩, nofun⟩) ?_ ?_
  · have hcrossed := s.crossed_act m
    have hreports := hs.act_inBounds m
    rw [hact] at hcrossed hreports
    exact ⟨hs.moved hm hcrossed, hnew hreports hlog⟩
  · exact Session.exclusive_ofStyle style kind c init
  · refine ⟨.start style kind c init, ?_⟩
    cases style <;> nofun

lemma queued_ofStyle :
    let p := (Point.start (.ofInstance (.ofStyle style kind c init) :
      Session Versioned Version Version α ρ)).after ticks
    Queued p.session p.history p.task? := by
  obtain ⟨registry, cells, hstart, hroom⟩ :=
    Session.exists_enoughCells_ofStyle (ρ := ρ) style kind c init
  rw [hstart]
  exact queued_after hroom ticks

end

/-- Lookups by slots are in range. At every point of every schedule a slot of another registry is
rejected, with a report and no other effect; for a slot of the instance every lookup succeeds, and
no slot is ever reported to be beyond the end of an array; and under the combining style each cell
is used by its own slot only, whichever slot had it before. Every script is such a schedule. -/
theorem slot_lookups_in_range (style : Style) (kind : IndicatorKind) (c : Config)
    (init : Copies α) :
    let start : Session Versioned Version Version α ρ := .ofInstance (.ofStyle style kind c init)
    (∀ ticks, let p := (Point.start start).after ticks
      (∀ k slot, p.session.slot? k = some slot → slot.issuer ≠ p.inst.registry.id →
        p.session.RejectsForeign k) ∧
      (∀ k slot, p.session.slot? k = some slot → slot.issuer = p.inst.registry.id →
        p.session.FindsEntries k slot) ∧
      (∀ v ∈ p.session.visits, p.inst.gate.HasEntry v.slot.index) ∧
      (∀ w ∈ p.inst.writers, w.cell < p.inst.cells.length) ∧
      .misused .slotBeyondCapacity ∉ p.inst.log ∧
      (style = .combining → p.session.Occupied p.history ∧
        ∀ k slot, p.session.slot? k = some slot → slot.issuer = p.inst.registry.id →
          p.session.Private p.history k slot)) ∧
    (∀ script, ∃ ticks, start.IsScheduleOf script ticks) ∧
    (Fault.misuse .foreignSlot).message =
      "misuse: slot used with an instance that did not issue it" := by
  intro start
  have hexclusive : start.Exclusive .resting := Session.exclusive_ofStyle style kind c init
  refine ⟨?_, Session.exists_isScheduleOf hexclusive (Instance.still_ofStyle style kind c init),
    rfl⟩
  intro ticks p
  obtain ⟨hinRange, hlog⟩ := slotsInRange_after style kind c init ticks
  have hqueued := queued_ofStyle style kind c init ticks
  refine ⟨fun k slot hslot hforeign => Session.rejectsForeign hqueued.cellInv hslot hforeign,
    fun k slot hslot hissuer => hinRange.findsEntries hqueued.room hslot hissuer,
    fun v hv => hinRange.hasEntry _ (hinRange.visits v hv),
      fun w hw => hqueued.cellInv.lt_length hw,
    fun hmem => hlog _ hmem rfl, ?_⟩
  rintro rfl
  obtain ⟨hq, hl, ht⟩ := cellOwners_after (γ := Versioned) rfl init (.ofConfig kind c) c.maxThreads
    c.wait ticks
  have hstyle : p.inst.style = .combining :=
    Point.style_after (p := Point.start start) hexclusive ticks
  exact ⟨ht.occupied hq.cellInv,
    fun k slot hslot hissuer => ht.isPrivate rfl hstyle hl hq hslot hissuer⟩

/-- A writer was at the second cell and its slot was released; another slot has the entry now, the
first cell has a pending request, and there is a slot of another registry. -/
def handedOn : List (Tick Nat Nat) :=
  let count : Mutation Nat Nat := .ofFunction fun n => (n + 1, n)
  [.caller .register, .caller .register, .caller .foreign, .caller (.mutate 1 count false),
    .writer, .writer, .writer, .writer, .writer, .writer, .writer, .writer, .writer,
    .caller (.drop 1), .caller .register, .caller (.mutate 0 count false)]

theorem slot_lookups_in_range_handed_on :
    let c : Config := { maxThreads := 2, counterBuckets := 1, wait := .yield }
    let p := (Point.start (.ofInstance (.ofStyle .combining .watched c ⟨5, 5⟩))).after handedOn
    p.session.RejectsForeign 2 ∧ p.session.FindsEntries 3 ⟨0, 1⟩ ∧
      (∀ w ∈ p.inst.writers, ¬ p.history.StartedAt w.id 3) ∧
      p.session.Private p.history 3 ⟨0, 1⟩ ∧
      (∃ w ∈ p.inst.writers, p.history.StartedAt w.id 0) ∧
      p.session.Private p.history 0 ⟨0, 0⟩ := by
  obtain ⟨hforeign, hfinds, -, -, -, hprivate⟩ := (slot_lookups_in_range .combining .watched
    { maxThreads := 2, counterBuckets := 1, wait := .yield } (⟨5, 5⟩ : Copies Nat) (ρ := Nat)).1
    handedOn
  have hprivate := (hprivate rfl).2
  exact ⟨hforeign 2 ⟨1, 0⟩ (by decide +kernel) (by decide +kernel),
    hfinds 3 ⟨0, 1⟩ (by decide +kernel) (by decide +kernel), by decide +kernel,
    hprivate 3 ⟨0, 1⟩ (by decide +kernel) (by decide +kernel), by decide +kernel,
    hprivate 0 ⟨0, 0⟩ (by decide +kernel) (by decide +kernel)⟩

end TwinCopy
