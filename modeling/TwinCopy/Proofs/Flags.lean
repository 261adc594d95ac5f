import TwinCopy.Proofs.SlotsTaken
import TwinCopy.Proofs.Undisturbed

/-!
# Flags do not count

A read-indicator with a flag for each slot does not distinguish two queries with the same slot from
one: the first of them to end lowers the flag for both. Then a writer does not wait for the other
one and changes its copy, and its departure is refused (`doubled_reader_disturbed`).

A query is *doubled* while another one has the same slot and the same version. As long as no query
is doubled, the raised flags are those of the queries under way, and no reader is disturbed
(`flagged_readers_undisturbed`). Queries may still be nested to any depth, with different slots, or
with the same slot at both versions.
-/

namespace TwinCopy

variable {α ρ : Type}

/-! ## Raised flags -/

namespace Indicator

/-- Of `n` flags those of the given slots are raised. -/
def Shows : Indicator → Nat → List Nat → Prop
  | flagged f, n, slots | watched f, n, slots =>
      f.reading = (List.range n).map fun slot => decide (slot ∈ slots)
  | single _, _, _ | paired _, _, _ | hashed _, _, _ => False

variable {i : Indicator} {n slot : Nat} {slots : List Nat}

/-- Setting the flag of a slot adds it to the raised ones or removes it. -/
lemma set_shown (up : Bool) {slots slots' : List Nat} (hslot : up = decide (slot ∈ slots'))
    (hothers : ∀ other, other ≠ slot → (other ∈ slots ↔ other ∈ slots')) :
    ((List.range n).map fun slot => decide (slot ∈ slots)).set slot up =
      (List.range n).map fun slot => decide (slot ∈ slots') := by
  refine List.ext_getElem (by simp) fun j hj hj' => ?_
  rw [List.getElem_set]
  split
  · next h => simpa [← h] using hslot
  · next h => simpa using hothers j (Ne.symm h)

lemma shows_ofConfig {kind : IndicatorKind} (hkind : ¬ kind.Counting) (c : Config) :
    (ofConfig kind c).Shows c.maxThreads [] := by
  cases kind with
  | single | paired | hashed => exact absurd trivial hkind
  | flagged | watched =>
    refine List.ext_getElem (by simp [SlotFlags.ofCount]) fun j hj hj' => ?_
    simp [SlotFlags.ofCount]

/-- An arrival raises the flag of its slot. -/
lemma Shows.arrive (h : i.Shows n slots) (hslot : slot < n) :
    ∃ i', i.arrive slot = .ok i' ∧ i'.Shows n (slot :: slots) := by
  cases i with
  | single | paired | hashed => exact h.elim
  | flagged f | watched f =>
    have hlength : slot < f.reading.length := by
      rw [show f.reading = _ from h]
      simpa using hslot
    refine ⟨_, by simp only [Indicator.arrive, SlotFlags.arrive, hlength, if_true]; rfl, ?_⟩
    rw [Shows, show f.reading = _ from h]
    exact set_shown true (by simp) fun other hne => by simp [hne]

/-- A departure lowers the flag of its slot, and is refused if it is not raised. -/
lemma Shows.depart (h : i.Shows n slots) (hslot : slot < n) :
    ∃ i', i.depart slot =
        (if slot ∈ slots then .ok () else .error .unmatchedDeparture, i') ∧
      i'.Shows n (slots.filter (· ≠ slot)) := by
  cases i with
  | single | paired | hashed => exact h.elim
  | flagged f | watched f =>
    have hflag : f.reading[slot]? = some (decide (slot ∈ slots)) := by
      rw [show f.reading = _ from h]
      simp [hslot]
    refine ⟨_, by simp only [Indicator.depart, SlotFlags.depart, hflag, decide_eq_true_eq]; rfl, ?_⟩
    rw [Shows, show f.reading = _ from h]
    exact set_shown false (by simp) fun other hne => by simp [hne]

/-- A read-indicator is empty if no flag is raised. -/
lemma Shows.isEmpty_iff (h : i.Shows n slots) (hslots : ∀ slot ∈ slots, slot < n) :
    i.isEmpty = true ↔ slots = [] := by
  have hall : ∀ f : SlotFlags,
      f.reading = ((List.range n).map fun slot => decide (slot ∈ slots)) →
      (f.allDown = true ↔ slots = []) := by
    intro f hf
    simp only [SlotFlags.allDown, hf, List.all_eq_true, List.mem_map, List.mem_range,
      List.eq_nil_iff_forall_not_mem]
    constructor
    · intro hdown slot hslot
      simpa [hslot] using hdown _ ⟨slot, hslots slot hslot, rfl⟩
    · rintro hnone up ⟨slot, -, rfl⟩
      simpa using hnone slot
  cases i with
  | single | paired | hashed => exact h.elim
  | flagged f => exact hall f h
  | watched f =>
    rw [isEmpty, ← SlotFlags.allDown_eq_not_anyUp]
    exact hall f h

end Indicator

namespace Versioned

/-- The raised flags of both read-indicators are those of the readers, with a separate flag for each
reader. -/
structure ReadersFlagged (g : Versioned) (readers : List (Slot × Version)) (n : Nat) : Prop where
  shows : ∀ v, (g.readers v).Shows n (among readers v)
  below : ∀ r ∈ readers, r.1.index < n
  single : ∀ v, (among readers v).Nodup

variable {g : Versioned} {readers : List (Slot × Version)} {n : Nat}

lemma readersFlagged_ofConfig {kind : IndicatorKind} (hkind : ¬ kind.Counting) (c : Config) :
    (ofConfig kind c).ReadersFlagged [] c.maxThreads := by
  refine ⟨fun v => ?_, nofun, fun _ => .nil⟩
  have hreaders : (ofConfig kind c).readers v = .ofConfig kind c := by cases v <;> rfl
  rw [hreaders]
  exact Indicator.shows_ofConfig hkind c

lemma lt_of_mem_among (h : ∀ r ∈ readers, r.1.index < n) {v : Version} {slot : Nat}
    (hslot : slot ∈ among readers v) : slot < n := by
  obtain ⟨r, hr, rfl⟩ := List.mem_map.1 hslot
  exact h r (List.mem_filter.1 hr).1

/-- A reader is admitted if its flag at the current version is not raised. -/
lemma ReadersFlagged.arrive {slot : Slot} (h : g.ReadersFlagged readers n) (hslot : slot.index < n)
    (hdown : slot.index ∉ among readers g.current) :
    ∃ g', Gate.arrive g slot.index = .ok (g.current, g') ∧
      g'.ReadersFlagged ((slot, g.current) :: readers) n := by
  obtain ⟨i, harrive, hshows⟩ := (h.shows g.current).arrive hslot
  have hgate : Gate.arrive g slot.index = .ok (g.current, g.setReaders g.current i) := by
    change g.arrive slot.index = _
    rw [Versioned.arrive, harrive]
  refine ⟨_, hgate, fun v => ?_, List.forall_mem_cons.2 ⟨hslot, h.below⟩, fun v => ?_⟩
  · by_cases hv : v = g.current
    · subst hv
      rw [readers_setReaders_same, among_cons_same]
      exact hshows
    · rw [readers_setReaders_of_ne _ _ hv, among_cons_of_ne _ _ (Ne.symm hv)]
      exact h.shows v
  · by_cases hv : v = g.current
    · subst hv
      rw [among_cons_same]
      exact List.nodup_cons.2 ⟨hdown, h.single _⟩
    · rw [among_cons_of_ne _ _ (Ne.symm hv)]
      exact h.single v

/-- A reader with a flag may depart, which lowers the flag. -/
lemma ReadersFlagged.depart {slot : Slot} {v : Version}
    (h : g.ReadersFlagged ((slot, v) :: readers) n) :
    ∃ g', Gate.depart g slot.index v = (.ok [], g') ∧ g'.ReadersFlagged readers n := by
  obtain ⟨hslot, hbelow⟩ := List.forall_mem_cons.1 h.below
  have hshows := h.shows v
  have hsingle := h.single v
  rw [among_cons_same] at hshows hsingle
  obtain ⟨i, hdepart, hshows'⟩ := hshows.depart hslot
  rw [if_pos List.mem_cons_self] at hdepart
  have hgate : Gate.depart g slot.index v = (.ok [], g.setReaders v i) := by
    change g.depart slot.index v = _
    rw [Versioned.depart, hdepart]
  obtain ⟨hdown, hsingle⟩ := List.nodup_cons.1 hsingle
  have hrest : (slot.index :: among readers v).filter (· ≠ slot.index) = among readers v := by
    rw [List.filter_cons_of_neg (by simp), List.filter_eq_self]
    exact fun other hother => by simpa using ne_of_mem_of_not_mem hother hdown
  refine ⟨_, hgate, fun w => ?_, hbelow, fun w => ?_⟩
  · by_cases hw : w = v
    · subst hw
      rw [readers_setReaders_same, ← hrest]
      exact hshows'
    · have hother := h.shows w
      rw [among_cons_of_ne _ _ (Ne.symm hw)] at hother
      rw [readers_setReaders_of_ne _ _ hw]
      exact hother
  · by_cases hw : w = v
    · exact hw ▸ hsingle
    · have hother := h.single w
      rwa [among_cons_of_ne _ _ (Ne.symm hw)] at hother

/-- A departure lowers the flag of the slot, so that a second departure is refused. -/
lemma ReadersFlagged.depart_depart {slot : Nat} {v : Version} {entered : Versioned}
    (h : g.ReadersFlagged readers n) (hslot : slot < n)
    (harrive : Gate.arrive g slot = .ok (v, entered)) :
    (Gate.depart (Gate.depart entered slot v).2 slot v).1 = .error .unmatchedDeparture := by
  obtain rfl : v = g.current := ticket_of_arrive harrive
  obtain ⟨i, hi, hraised⟩ := (h.shows g.current).arrive hslot
  have hentered : g.arrive slot = .ok (g.current, g.setReaders g.current i) := by
    rw [Versioned.arrive, hi]
  obtain ⟨-, rfl⟩ := Prod.mk.inj (Except.ok.inj (harrive.symm.trans hentered))
  obtain ⟨j, hj, hlowered⟩ := hraised.depart hslot
  have hleft : (Gate.depart (g.setReaders g.current i) slot g.current).2.readers g.current = j := by
    change (Versioned.depart _ slot g.current).2.readers g.current = j
    rw [Versioned.depart, readers_setReaders_same, hj, if_pos List.mem_cons_self]
    exact readers_setReaders_same _ _ _
  obtain ⟨k, hk, -⟩ := hlowered.depart hslot
  change (Versioned.depart _ slot g.current).1 = _
  rw [Versioned.depart, hleft, hk, if_neg (by simp)]

lemma ReadersFlagged.perm {others : List (Slot × Version)} (h : g.ReadersFlagged readers n)
    (hperm : readers.Perm others) : g.ReadersFlagged others n := by
  refine ⟨fun v => ?_, fun r hr => h.below r (hperm.mem_iff.2 hr),
    fun v => (perm_among hperm v).nodup_iff.1 (h.single v)⟩
  have hmem : (fun slot => decide (slot ∈ among readers v)) = fun slot =>
      decide (slot ∈ among others v) := by
    funext slot
    exact decide_eq_decide.2 (perm_among hperm v).mem_iff
  have hshows := h.shows v
  revert hshows
  cases g.readers v <;> simp only [Indicator.Shows, hmem, imp_self]

lemma ReadersFlagged.congr {g' : Versioned} (h : g.ReadersFlagged readers n)
    (hreaders : g'.readers = g.readers) : g'.ReadersFlagged readers n :=
  ⟨hreaders ▸ h.shows, h.below, h.single⟩

/-- If no flag of the other version is raised, all readers are at the current one. -/
lemma ReadersFlagged.eq_current (h : g.ReadersFlagged readers n) (hclean : g.Clean)
    {r : Slot × Version} (hr : r ∈ readers) : r.2 = g.current :=
  eq_of_among_next
    (((h.shows _).isEmpty_iff fun _ => lt_of_mem_among h.below).1 hclean) hr

end Versioned

/-! ## Queries that are not doubled -/

/-- The slots and versions of the queries under way. -/
def Session.places (s : Session Versioned Version Version α ρ) : List (Slot × Version) :=
  s.visits.map fun v => (v.slot, v.ticket)

/-- A query that begins by this action has not the same slot and version as another one under
way. -/
def Action.Single : Action Versioned Version Version α ρ → Prop
  | .moved s m =>
      match s.crossing m with
      | .entered v => (v.slot, v.ticket) ∉ s.places
      | _ => True
  | _ => True

instance : (d : Action Versioned Version Version α ρ) → Decidable d.Single
  | .moved s m =>
      match h : s.crossing m with
      | .entered v => decidable_of_iff ((v.slot, v.ticket) ∉ s.places) (by rw [Action.Single, h])
      | .absent | .arrived .. | .departed .. | .left _ => isTrue (by rw [Action.Single, h]; trivial)
  | .emptied .. | .took _ | .applied .. | .turned _ | .completed _ | .abandoned _ => isTrue trivial

/-- A raw arrival or departure, outside of a query. -/
def Tick.raw : Tick α ρ → Bool
  | .caller (.arrive _) | .caller (.depart ..) => true
  | _ => false

/-- A move that is not raw has the crossing of a query, if any. -/
lemma Session.crossing_of_not_raw {γ κ δ : Type} [Gate γ κ δ] (s : Session γ κ δ α ρ) {m : Move α ρ}
    (hraw : Tick.raw (.caller m) = false) : s.crossing m = .absent ∨
      (∃ v, s.crossing m = .entered v) ∨ ∃ v, s.crossing m = .left v := by
  cases m with
  | arrive k => cases hraw
  | depart k n => cases hraw
  | enter k =>
    simp only [crossing]
    split
    · split
      · exact .inr (.inl ⟨_, rfl⟩)
      · exact .inl rfl
    · exact .inl rfl
  | leave gaveUp =>
    rcases hvisits : s.visits with _ | ⟨v, visits⟩
    · exact .inl (by rw [crossing, hvisits]; rfl)
    · exact .inr (.inr ⟨v, crossing_leave hvisits⟩)
  | _ => exact .inl rfl

/-- The raised flags are those of the queries under way, which have slots that are taken, and no
query is at a copy that a writer may change. -/
structure FlagsInv (s : Session Versioned Version Version α ρ)
    (h : History Versioned Version Version α ρ) (c : Control Version α ρ) (n : Nat) : Prop
    extends TargetFree s h c where
  slotsTaken : s.SlotsTaken n
  readersFlagged : s.inst.gate.ReadersFlagged s.places n

namespace FlagsInv

variable {s s' : Session Versioned Version Version α ρ} {t : Instance Versioned Version α ρ}
  {h actions : History Versioned Version Version α ρ} {c c' : Control Version α ρ} {n : Nat}

lemma vacancySound (hs : FlagsInv s h c n) : s.inst.gate.VacancySound s.visits :=
  fun hclean v hv => hs.readersFlagged.eq_current hclean (r := (v.slot, v.ticket))
    (List.mem_map_of_mem hv)

/-- A slot that is not taken has no flag raised. -/
lemma notMem_among (hs : FlagsInv s h c n) {index : Nat}
    (hfree : ¬ s.inst.registry.Taken index) (v : Version) : index ∉ among s.places v := by
  intro hmem
  obtain ⟨r, hr, rfl⟩ := List.mem_map.1 hmem
  obtain ⟨w, hw, rfl⟩ := List.mem_map.1 (List.mem_filter.1 hr).1
  exact hfree (hs.slotsTaken.visit_taken hw)

/-- A newly claimed slot may arrive and depart, which leaves the flags unchanged. -/
lemma exists_visit (hs : FlagsInv s h c n) {slot : Slot} {registry : Registry}
    (hregister : s.inst.registry.register = .ok (slot, registry)) :
    ∃ entered left, Gate.arrive s.inst.gate slot.index = .ok (s.inst.gate.current, entered) ∧
      Gate.depart entered slot.index s.inst.gate.current = (.ok [], left) ∧
      left.ReadersFlagged s.places n := by
  have hcapacity := hs.slotsTaken.capacity
  have hlt := (Registry.register_spec hregister).2.2.2 n hcapacity
  have hfree := (Registry.register_bounded hcapacity hregister).1
  obtain ⟨entered, harrive, hentered⟩ := hs.readersFlagged.arrive hlt (hs.notMem_among hfree _)
  obtain ⟨left, hdepart, hleft⟩ := hentered.depart
  exact ⟨entered, left, harrive, hdepart, hleft⟩

lemma readsSucceed (hs : FlagsInv s h c n) : s.inst.ReadsSucceed := by
  refine Instance.readsSucceed_of_register fun slot registry hregister => ?_
  obtain ⟨entered, left, harrive, hdepart, -⟩ := hs.exists_visit hregister
  exact ⟨_, entered, _, left, harrive, hdepart⟩

/-- A read within an application leaves the flags unchanged. -/
lemma look (hs : FlagsInv s h c n) {r : Request α ρ} {gate : Versioned} {registry : Registry}
    {note : Writer α → Writer α} (hlook : s.inst.Look r gate registry note) :
    gate.ReadersFlagged s.places n := by
  rcases hlook.gate with rfl | ⟨-, slot, ticket, entered, hslot, harrive, rfl⟩
  · exact hs.readersFlagged
  · obtain ⟨registry', hregister⟩ := Instance.register_of_lookSlot? hslot rfl
    obtain ⟨entered', left, harrive', hdepart, hleft⟩ := hs.exists_visit hregister
    rw [harrive] at harrive'
    cases harrive'
    rw [hdepart]
    exact hleft

lemma readersFlagged_staged (hs : FlagsInv s h c n)
    (hstaged : Instance.Staged s.inst c actions t c') :
    t.gate.ReadersFlagged s.places n := by
  cases hstaged with
  | quiet | elect | clear => exact hs.readersFlagged
  | turn | shift => exact hs.readersFlagged.congr rfl
  | apply hpass =>
    obtain ⟨registry, note, hlook⟩ := Instance.pass_look hpass
    exact hs.look hlook
  | giveUp hpass =>
    obtain ⟨registry, note, hlook⟩ := Instance.pass_look hpass
    rw [Instance.gate_abandon]
    exact hs.look hlook
  | complete =>
    rw [Instance.gate_complete]
    exact hs.readersFlagged
  | surplus hcleared => cases hcleared

lemma staged (hstaged : Instance.Staged s.inst c actions t c') (hs : FlagsInv s h c n) :
    FlagsInv { s with inst := t } (actions ++ h) c' n :=
  ⟨hs.toTargetFree.staged hstaged hs.vacancySound, hs.slotsTaken.staged hstaged,
    hs.readersFlagged_staged hstaged⟩

/-- A query that begins without being doubled raises a flag of its own. -/
lemma readersFlagged_entered (hs : FlagsInv s h c n) (hl : s'.SlotsTaken n) {v : Visit Version}
    (harrive : Gate.arrive s.inst.gate v.slot.index = .ok (v.ticket, s'.inst.gate))
    (hvisits : s'.visits = v :: s.visits) (hsingle : (v.slot, v.ticket) ∉ s.places) :
    s'.inst.gate.ReadersFlagged s'.places n := by
  have hmem : v ∈ s'.visits := hvisits ▸ List.mem_cons_self
  have hlt := (hl.visit_taken hmem).lt_capacity hl.capacity
  have hcurrent : v.ticket = s.inst.gate.current := Versioned.ticket_of_arrive harrive
  have hdown : v.slot.index ∉ among s.places s.inst.gate.current := by
    intro hup
    obtain ⟨r, hr, hindex⟩ := List.mem_map.1 hup
    obtain ⟨hr, hticket⟩ := List.mem_filter.1 hr
    obtain ⟨w, hw, rfl⟩ := List.mem_map.1 hr
    have hslot : w.slot = v.slot :=
      hl.slot_eq (hvisits ▸ List.mem_cons_of_mem _ hw) hmem hindex
    have hticket : w.ticket = v.ticket := (of_decide_eq_true hticket).trans hcurrent.symm
    exact hsingle (List.mem_map.2 ⟨w, hw, by rw [hslot, hticket]⟩)
  obtain ⟨g', harrive', hreadersFlagged⟩ := hs.readersFlagged.arrive hlt hdown
  obtain ⟨-, rfl⟩ := Prod.mk.inj (Except.ok.inj (harrive.symm.trans harrive'))
  rw [Session.places, hvisits, List.map_cons, hcurrent]
  exact hreadersFlagged

lemma moved {m : Move α ρ} {r : Except Failure (Answer Version α)} (hact : s.act m = (r, s'))
    (hm : s.Moved m r s') (hraw : Tick.raw (.caller m) = false)
    (hsingle : Action.Single (.moved s m)) (hs : FlagsInv s h c n) :
    FlagsInv s' (.moved s m :: h) c n := by
  have hslotsTaken : s'.SlotsTaken n := hs.slotsTaken.moved rfl hm
  refine ⟨hs.toTargetFree.moved hact hm, hslotsTaken, ?_⟩
  have hcrossed := s.crossed_act m
  rw [hact] at hcrossed
  rcases s.crossing_of_not_raw hraw with hx | ⟨v, hx⟩ | ⟨v, hx⟩
  · obtain ⟨hgate, hvisits⟩ := hx ▸ hcrossed
    rw [Session.places, hvisits, hgate]
    exact hs.readersFlagged
  · rw [hx] at hcrossed
    obtain _ | _ | _ | ⟨harrive, hside, hvisits⟩ := hcrossed
    refine hs.readersFlagged_entered hslotsTaken harrive hvisits ?_
    simpa only [Action.Single, hx] using hsingle
  · rw [hx] at hcrossed
    obtain _ | _ | _ | _ | ⟨hgate, hvisits⟩ := hcrossed
    have hreadersFlagged := hs.readersFlagged
    rw [Session.places, hvisits, List.map_cons] at hreadersFlagged
    obtain ⟨g', hdepart, hreadersFlagged'⟩ := hreadersFlagged.depart
    rw [hgate, hdepart]
    exact hreadersFlagged'

/-- If a query begins doubled, its end lowers the flag of the other one, whose departure is then
refused. -/
lemma leave_doubled (hs : FlagsInv s h c n) {k : Nat} {v w : Visit Version}
    (hentered : s.crossing (.enter k) = .entered v) (hslot : w.slot = v.slot)
    (hticket : w.ticket = v.ticket) (gaveUp : Bool) :
    (((s.act (.enter k)).2.act (.leave gaveUp)).2.inst.leave w).1 =
      .error (.misuse .unmatchedDeparture) := by
  have hcrossed := s.crossed_act (.enter k)
  have hslotsTaken : (s.act (.enter k)).2.SlotsTaken n :=
    hs.slotsTaken.moved rfl (s.moved_act (.enter k))
  rw [hentered] at hcrossed
  obtain _ | _ | _ | ⟨harrive, hside, hvisits⟩ := hcrossed
  have hlt : v.slot.index < n :=
    (hslotsTaken.visit_taken (hvisits ▸ List.mem_cons_self)).lt_capacity hslotsTaken.capacity
  have hleft := (s.act (.enter k)).2.crossed_act (.leave gaveUp)
  rw [Session.crossing_leave hvisits] at hleft
  obtain _ | _ | _ | _ | ⟨hgate, -⟩ := hleft
  have hrefused := hs.readersFlagged.depart_depart hlt harrive
  rw [← hgate, ← hslot, ← hticket] at hrefused
  rcases ((s.act (.enter k)).2.act (.leave gaveUp)).2.inst.dismiss_cases w.slot w.ticket with
    ⟨events, gate, hdepart, -⟩ | ⟨m, gate, hdepart, hdismiss⟩
  · rw [hdepart] at hrefused
    cases hrefused
  · rw [hdepart] at hrefused
    cases hrefused
    rw [Instance.leave, hdismiss]

/-- A query whose flag is raised may depart. -/
lemma leave_ok {p : Point Versioned Version Version α ρ}
    (hs : FlagsInv p.session p.history p.stage n) {v : Visit Version} (hv : v ∈ p.session.visits) :
    (p.inst.leave v).1 = .ok () := by
  have hplace : (v.slot, v.ticket) ∈ p.session.places := List.mem_map_of_mem hv
  obtain ⟨left, hdepart, -⟩ := (hs.readersFlagged.perm (List.perm_cons_erase hplace)).depart
  simp only [Instance.leave, Instance.dismiss, Point.inst, hdepart]

end FlagsInv

/-! ## At every point -/

lemma flagsInv_start {kind : IndicatorKind} (hkind : ¬ kind.Counting) (style : Style) (c : Config)
    (init : Copies α) :
    FlagsInv (.ofInstance (.ofStyle style kind c init)) []
      (Point.start (.ofInstance (.ofStyle style kind c init)) :
        Point Versioned Version Version α ρ).stage c.maxThreads := by
  have hgate := Instance.gate_ofStyle (ρ := ρ) style kind c init
  have hstage : (Point.start (.ofInstance (.ofStyle style kind c init)) :
      Point Versioned Version Version α ρ).stage = .resting :=
    Instance.stage_resting (Instance.round_ofStyle style kind c init)
  have hcapacity : (Instance.ofStyle style kind c init :
      Instance Versioned Version α ρ).registry.capacity = some c.maxThreads := by
    cases style with
    | exclusive =>
      rw [Instance.ofStyle, Instance.classic, Instance.fresh, Registry.capacity_ofCapacity]
      cases kind <;> first | rfl | exact absurd trivial hkind
    | combining => simp [Instance.ofStyle, Instance.combining, Instance.fresh, Registry.bounded,
        Registry.capacity]
  have hreadersFlagged : (Versioned.ofConfig kind c).ReadersFlagged [] c.maxThreads :=
    Versioned.readersFlagged_ofConfig hkind c
  rw [hstage]
  refine ⟨⟨?_, fun _ hv => absurd hv List.not_mem_nil, rfl⟩, .of_capacity _ hcapacity, ?_⟩
  · rw [Session.ofInstance, hgate]
    exact ((hreadersFlagged.shows _).isEmpty_iff (by simp [among])).2 rfl
  · rw [Session.ofInstance, hgate]
    exact hreadersFlagged

/-- As long as no query is doubled, the raised flags are those of the queries under way. -/
lemma flagsInv_after {kind : IndicatorKind} (hkind : ¬ kind.Counting) (style : Style) (c : Config)
    (init : Copies α) {ticks : List (Tick α ρ)} (hraw : ∀ t ∈ ticks, t.raw = false) :
    let p := (Point.start (.ofInstance (.ofStyle style kind c init))).after ticks
    (∀ d ∈ p.history, d.Single) → FlagsInv p.session p.history p.stage c.maxThreads ∧
      p.history.Looked Instance.ReadsSucceed := by
  refine Point.stage_after
    (P := fun s h c' => (∀ d ∈ h, d.Single) →
      FlagsInv s h c' c.maxThreads ∧ h.Looked Instance.ReadsSucceed)
    (fun hmem hact hm hP hsingle => ?_) (fun hstaged hP hsingle => ?_) (fun hP hsingle => ?_) ?_
    fun _ => ⟨flagsInv_start hkind style c init, .nil⟩
  · obtain ⟨hd, hsingle⟩ := List.forall_mem_cons.1 hsingle
    obtain ⟨hs, hu⟩ := hP hsingle
    exact ⟨hs.moved hact hm (hraw _ hmem) hd, hu.cons (by simp)⟩
  · obtain ⟨hs, hu⟩ := hP fun d hd => hsingle d (List.mem_append_right _ hd)
    exact ⟨hs.staged hstaged, hu.staged hstaged fun _ _ _ _ _ _ => hs.readsSucceed⟩
  · obtain ⟨-, hsingle⟩ := List.forall_mem_cons.1 hsingle
    obtain ⟨hs, hu⟩ := hP hsingle
    exact ⟨⟨⟨hs.fits, hs.sided, hs.opened⟩, hs.slotsTaken.emptied, hs.readersFlagged⟩,
      hu.cons (by simp)⟩
  · exact Session.exclusive_ofStyle style kind c init

/-- Over flags writers never change a copy given to a reader as long as no query is doubled: at
every point of every schedule without raw arrivals and departures, no reader is disturbed before a
query begins doubled. A doubled query leaves the other one without a flag. Every script without raw
moves is such a schedule. -/
theorem flagged_readers_undisturbed {kind : IndicatorKind} (hkind : ¬ kind.Counting) (style : Style)
    (c : Config) (init : Copies α) :
    let start : Session Versioned Version Version α ρ := .ofInstance (.ofStyle style kind c init)
    (∀ ticks, (∀ t ∈ ticks, t.raw = false) →
      let p := (Point.start start).after ticks
      (∀ d ∈ p.history, d.Single) →
        Undisturbed p ∧
          ∀ k v, p.session.crossing (.enter k) = .entered v →
            ∀ w ∈ p.session.visits, w.slot = v.slot → w.ticket = v.ticket → ∀ gaveUp,
              let q := (p.next (.caller (.enter k))).next (.caller (.leave gaveUp))
              (q.inst.leave w).1 = .error (.misuse .unmatchedDeparture)) ∧
      ∀ script, ∃ ticks, start.IsScheduleOf script ticks := by
  intro start
  have hexclusive : start.Exclusive .resting := Session.exclusive_ofStyle style kind c init
  refine ⟨fun ticks hraw hsingle => ?_,
    Session.exists_isScheduleOf hexclusive (Instance.still_ofStyle style kind c init)⟩
  obtain ⟨hs, hu⟩ := flagsInv_after hkind style c init hraw hsingle
  refine ⟨?_, fun k v hentered w _ hslot hticket => hs.leave_doubled hentered hslot hticket⟩
  exact hs.toTargetFree.undisturbed (Point.exclusive_after hexclusive ticks) hs.vacancySound
    (fun v hv => hs.leave_ok hv) hu

/-- A query begins before a writer turns the side, and another one with the same slot while the
writer waits for the first; a third one has another slot. -/
def nestedAcrossVersions : List (Tick Nat Nat) :=
  [.caller .register, .caller .register, .caller (.enter 0),
    .caller (.mutate 1 (.ofFunction fun n => (n + 1, n)) true), .writer, .writer, .writer, .writer,
    .writer, .caller (.enter 0), .caller (.enter 1)]

theorem flagged_readers_undisturbed_nested :
    let c : Config := { maxThreads := 3, counterBuckets := 2, wait := .yield }
    let p := (Point.start (.ofInstance (.ofStyle .combining .flagged c ⟨5, 5⟩))).after
      nestedAcrossVersions
    ¬ IndicatorKind.flagged.Counting ∧ (∀ t ∈ nestedAcrossVersions, t.raw = false) ∧
      (∀ d ∈ p.history, d.Single) ∧ Undisturbed p ∧ p.history.opened = [6, 6, 5] := by
  have hkind : ¬ IndicatorKind.flagged.Counting := id
  refine ⟨hkind, by decide, by decide +kernel, ?_, by decide +kernel⟩
  exact ((flagged_readers_undisturbed hkind .combining _ ⟨5, 5⟩).1 nestedAcrossVersions (by decide)
    (by decide +kernel)).1

/-- If one of two queries with the same slot and version ends, the writer does not wait for the
other one: it changes the copy given to it, and the departure of that query is reported as
misuse. -/
theorem doubled_reader_disturbed :
    let c : Config := { maxThreads := 1, counterBuckets := 1, wait := .yield }
    let start : Session Versioned Version Version Nat Nat :=
      .ofInstance (.ofStyle .exclusive .flagged c ⟨5, 5⟩)
    let s := start.performAll [.register, .enter 0, .enter 0, .leave false]
    let t := (s.perform (.mutate 0 (.ofFunction fun n => (n + 1, n)) false)).2
    s.visits.map s.inst.given = [5] ∧ t.visits.map t.inst.given = [6] ∧
      (t.perform (.leave false)).1 = .error (.fault (.misuse .unmatchedDeparture) none) := by
  decide +kernel

end TwinCopy
