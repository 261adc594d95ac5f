import TwinCopy.Proofs.Counting
import TwinCopy.Proofs.Crossings
import TwinCopy.Proofs.Quiescence
import TwinCopy.Session.Setup

/-!
# Two versions of readers

A gate of two read-indicators admits readers to the current version only. The other version is empty
when a writer turns the side, and stays empty until the writer makes it current; from then on the
writer waits for the readers of the version that was current before. `Fits` is the condition on the
gate at each stage of a round. It holds for every kind of read-indicator and all schedules.

For counting read-indicators, `Tallies` states that they count exactly the readers inside, each at
the version of its ticket.
-/

namespace TwinCopy

lemma SlotFlags.allDown_depart {f : SlotFlags} (h : f.allDown = true) (slot : Nat) :
    (f.depart slot).2.allDown = true := by
  simp only [allDown, List.all_eq_true] at h
  unfold depart
  split
  · simpa [allDown] using h
  · simp only [allDown, List.all_eq_true]
    intro up hup
    rcases List.mem_or_eq_of_mem_set hup with hup | rfl
    · exact h up hup
    · rfl

namespace Indicator

/-- A departure from an empty read-indicator leaves it empty. -/
lemma isEmpty_depart {i : Indicator} (h : i.isEmpty = true) (slot : Nat) :
    (i.depart slot).2.isEmpty = true := by
  cases i with
  | single c =>
    have hzero : c.readers = 0 := by simpa [isEmpty, SingleCounter.isEmpty] using h
    rw [depart, SingleCounter.depart_of_readers_eq_zero hzero]
    exact h
  | paired c =>
    have hequal : c.egress = c.ingress := by simpa [isEmpty, PairedCounters.isEmpty] using h
    rw [depart, PairedCounters.depart_of_ingress_le (hequal ▸ UInt64.le_refl _)]
    exact h
  | hashed c =>
    simp only [isEmpty, HashedCounters.isEmpty, List.all_eq_true, beq_iff_eq] at h
    simp only [depart, HashedCounters.depart]
    split
    · simpa [isEmpty, HashedCounters.isEmpty, modify_sub_add] using h
    · next hne =>
      -- all counters are zero, so one at this bucket would be too: there is none
      have hnone : c.buckets[c.bucket slot]? = none := by
        rcases hcount : c.buckets[c.bucket slot]? with _ | count
        · rfl
        · rw [hcount, h count (List.mem_of_getElem? hcount)] at hne
          exact absurd rfl hne
      rw [List.getElem?_eq_none_iff] at hnone
      simpa [isEmpty, HashedCounters.isEmpty, List.modify_eq_self hnone] using h
  | flagged f => exact SlotFlags.allDown_depart h slot
  | watched f =>
    have hall : ∀ f : SlotFlags, (watched f).isEmpty = f.allDown := fun f =>
      f.allDown_eq_not_anyUp.symm
    rw [hall] at h
    exact (hall _).trans (SlotFlags.allDown_depart h slot)

end Indicator

/-- A fresh instance with a gate of two read-indicators and this style. -/
def Instance.ofStyle {α ρ : Type} (style : Style) (kind : IndicatorKind) (c : Config)
    (init : Copies α) : Instance Versioned Version α ρ :=
  match style with
  | .exclusive => classic kind c init
  | .combining => combining kind c init

section

variable {α ρ : Type} (style : Style) (kind : IndicatorKind) (c : Config) (init : Copies α)

lemma Instance.gate_ofStyle :
    (ofStyle style kind c init : Instance Versioned Version α ρ).gate = .ofConfig kind c := by
  cases style <;> rfl

lemma Instance.round_ofStyle :
    (ofStyle style kind c init : Instance Versioned Version α ρ).round = none := by
  cases style <;> rfl

lemma Instance.still_ofStyle :
    (ofStyle style kind c init : Instance Versioned Version α ρ).still = true := by
  cases style <;> rfl

lemma Session.exclusive_ofStyle :
    (ofInstance (.ofStyle style kind c init) : Session Versioned Version Version α ρ).Exclusive
      .resting := by
  cases style <;> exact exclusive_fresh _ _ _ _ _ _

end

namespace Versioned

@[simp] lemma readers_setReaders_same (g : Versioned) (v : Version) (i : Indicator) :
    (g.setReaders v i).readers v = i := by
  cases v <;> rfl

lemma readers_setReaders_of_ne (g : Versioned) {v w : Version} (i : Indicator) (h : w ≠ v) :
    (g.setReaders v i).readers w = g.readers w := by
  cases v <;> cases w <;> first | rfl | exact absurd rfl h

@[simp] lemma side_setReaders (g : Versioned) (v : Version) (i : Indicator) :
    (g.setReaders v i).side = g.side := by
  cases v <;> rfl

@[simp] lemma current_setReaders (g : Versioned) (v : Version) (i : Indicator) :
    (g.setReaders v i).current = g.current := by
  cases v <;> rfl

/-- The version that is not current has no reader. -/
def Clean (g : Versioned) : Prop :=
  (g.readers g.current.next).isEmpty = true

lemma clean_ofConfig (kind : IndicatorKind) (c : Config) : (ofConfig kind c).Clean := by
  change (Indicator.ofConfig kind c).isEmpty = true
  cases kind with
  | single | paired => rfl
  | hashed => simp [Indicator.ofConfig, Indicator.ofSize, Indicator.isEmpty, HashedCounters.isEmpty,
      HashedCounters.ofCount]
  | flagged => simp [Indicator.ofConfig, Indicator.ofSize, Indicator.isEmpty, SlotFlags.allDown,
      SlotFlags.ofCount]
  | watched => simp [Indicator.ofConfig, Indicator.ofSize, Indicator.isEmpty, SlotFlags.anyUp,
      SlotFlags.ofCount]

/-- What arrivals and departures preserve: the side, the current version, and that the other version
has no reader. -/
structure SameVersions (g g' : Versioned) : Prop where
  side : g'.side = g.side
  current : g'.current = g.current
  clean : g.Clean → g'.Clean

lemma SameVersions.refl (g : Versioned) : g.SameVersions g :=
  ⟨rfl, rfl, id⟩

lemma SameVersions.trans {g g' g'' : Versioned} (h : g.SameVersions g') (h' : g'.SameVersions g'') :
    g.SameVersions g'' :=
  ⟨h'.side.trans h.side, h'.current.trans h.current, fun hg => h'.clean (h.clean hg)⟩

lemma next_ne (v : Version) : v.next ≠ v := by
  cases v <;> nofun

/-- There are only two versions. -/
lemma eq_next_of_ne {v w : Version} (h : v ≠ w) : w = v.next := by
  cases v <;> cases w <;> first | rfl | exact absurd rfl h

/-- An arrival at the gate is one at the read-indicator of the current version. -/
lemma of_arrive {g g' : Versioned} {slot : Nat} {v : Version}
    (h : Gate.arrive g slot = .ok (v, g')) :
    ∃ i, (g.readers g.current).arrive slot = .ok i ∧ v = g.current ∧
      g' = g.setReaders g.current i := by
  change g.arrive slot = _ at h
  unfold arrive at h
  split at h
  · next i hi =>
    cases h
    exact ⟨i, hi, rfl, rfl⟩
  · cases h

lemma sameVersions_arrive {g g' : Versioned} {slot : Nat} {v : Version}
    (h : Gate.arrive g slot = .ok (v, g')) : g.SameVersions g' := by
  obtain ⟨i, -, -, rfl⟩ := of_arrive h
  refine ⟨side_setReaders _ _ _, current_setReaders _ _ _, fun hclean => ?_⟩
  rw [Clean, current_setReaders, readers_setReaders_of_ne _ _ (next_ne _)]
  exact hclean

/-- The ticket of an arrival is the current version. -/
lemma ticket_of_arrive {g g' : Versioned} {slot : Nat} {v : Version}
    (h : Gate.arrive g slot = .ok (v, g')) : v = g.current := by
  obtain ⟨-, -, hticket, -⟩ := of_arrive h
  exact hticket

/-- A departure from the gate is one from the read-indicator of its version. -/
lemma depart_state (g : Versioned) (slot : Nat) (v : Version) :
    (Gate.depart g slot v).2 = g.setReaders v ((g.readers v).depart slot).2 := by
  change (g.depart slot v).2 = _
  unfold depart
  split
  · next h => rw [h]
  · next h => rw [h]

lemma sameVersions_depart (g : Versioned) (slot : Nat) (v : Version) :
    g.SameVersions (Gate.depart g slot v).2 := by
  rw [depart_state]
  refine ⟨side_setReaders _ _ _, current_setReaders _ _ _, fun hclean => ?_⟩
  rw [Clean, current_setReaders]
  by_cases hv : g.current.next = v
  · rw [hv, readers_setReaders_same]
    exact Indicator.isEmpty_depart (hv ▸ hclean) slot
  · rw [readers_setReaders_of_ne _ _ hv]
    exact hclean

lemma sameVersions_visited {g entered left : Versioned} {slot : Nat} {v : Version}
    (h : Instance.Visited g slot entered left v) : g.SameVersions left := by
  obtain ⟨harrive, rfl⟩ := h
  exact (sameVersions_arrive harrive).trans (entered.sameVersions_depart slot v)

variable {α ρ : Type}

/-- The condition on the gate at each stage of a round. -/
def Fits (g : Versioned) : Control Version α ρ → Prop
  | .resting => g.Clean
  | .passing p _ _ old => g.Clean ∧ p.target old = g.side.opposite
  | .waiting ⟨_, old, .standby d⟩ => g.Clean ∧ old = g.side.opposite ∧ d = g.current
  | .waiting ⟨_, old, .clearing d⟩ => old = g.side.opposite ∧ d = g.current.next

lemma Fits.sameVersions {g g' : Versioned} {c : Control Version α ρ} (hf : g.Fits c)
    (h : g.SameVersions g') :
    g'.Fits c := by
  match c with
  | .resting => exact h.clean hf
  | .passing p done rest old => exact ⟨h.clean hf.1, h.side ▸ hf.2⟩
  | .waiting ⟨batch, old, .standby d⟩ =>
    exact ⟨h.clean hf.1, h.side ▸ hf.2.1, h.current ▸ hf.2.2⟩
  | .waiting ⟨batch, old, .clearing d⟩ => exact ⟨h.side ▸ hf.1, h.current ▸ hf.2⟩

end Versioned

variable {α ρ : Type}

namespace Instance

lemma Look.sameVersions {s : Instance Versioned Version α ρ} {r : Request α ρ} {gate : Versioned}
    {registry : Registry} {note : Writer α → Writer α} (h : s.Look r gate registry note) :
    s.gate.SameVersions gate := by
  rcases h.gate with rfl | ⟨-, slot, ticket, entered, -, hvisited⟩
  · exact .refl _
  · exact Versioned.sameVersions_visited hvisited

lemma Staged.fits {s t : Instance Versioned Version α ρ} {c c' : Control Version α ρ}
    {actions : History Versioned Version Version α ρ} (h : Staged s c actions t c')
    (hf : s.gate.Fits c) : t.gate.Fits c' := by
  cases h with
  | quiet => exact hf
  | elect => exact ⟨hf, rfl⟩
  | apply h =>
    obtain ⟨registry, note, hlook⟩ := pass_look h
    exact ⟨hlook.sameVersions.clean hf.1, hlook.sameVersions.side ▸ hf.2⟩
  | giveUp h =>
    obtain ⟨registry, note, hlook⟩ := pass_look h
    rw [gate_abandon]
    exact hlook.sameVersions.clean hf.1
  | @turn batch old =>
    have hside : old = s.gate.side := by simpa [Pass.target] using congrArg Side.opposite hf.2
    have hturned : (Gate.turn s.gate).2.side.opposite = s.gate.side := Side.opposite_opposite _
    exact ⟨hf.1, hside.trans hturned.symm, rfl⟩
  | @shift batch old d h =>
    obtain ⟨-, hside, rfl⟩ := hf
    exact ⟨hside, (Version.next_next _).symm⟩
  | @clear batch old d h =>
    obtain ⟨hside, rfl⟩ := hf
    exact ⟨Except.ok.inj h, hside⟩
  | complete =>
    rw [gate_complete]
    exact hf.1
  | surplus h => cases h

end Instance

lemma Session.Crossed.sameVersions {s s' : Session Versioned Version Version α ρ}
    {x : Crossing Version} (h : s.Crossed x s') : s.inst.gate.SameVersions s'.inst.gate := by
  cases h with
  | absent hgate =>
    rw [hgate]
    exact .refl _
  | arrived harrive => exact Versioned.sameVersions_arrive harrive
  | departed hgate =>
    rw [hgate]
    exact Versioned.sameVersions_depart _ _ _
  | entered harrive => exact Versioned.sameVersions_arrive harrive
  | left hgate =>
    rw [hgate]
    exact Versioned.sameVersions_depart _ _ _

/-- At every point of every schedule the gate fits the stage of the round. -/
theorem Point.fits_after {p : Point Versioned Version Version α ρ}
    (hp : p.session.Exclusive p.control) (hstart : p.inst.gate.Fits p.stage)
    (ticks : List (Tick α ρ)) : (p.after ticks).inst.gate.Fits (p.after ticks).stage :=
  stage_after (P := fun s _ c => s.inst.gate.Fits c)
    (fun {s h c m r s'} _ hact _ hf => by
      have hcrossed := (s.crossed_act m).sameVersions
      rw [hact] at hcrossed
      exact hf.sameVersions hcrossed)
    Instance.Staged.fits id hp hstart

/-! ## Readers counted by version -/

/-- The indices of the slots of the readers with a ticket. -/
def among (readers : List (Slot × Version)) (v : Version) : List Nat :=
  (readers.filter (·.2 = v)).map (·.1.index)

@[simp] lemma among_cons_same (readers : List (Slot × Version)) (slot : Slot) (v : Version) :
    among ((slot, v) :: readers) v = slot.index :: among readers v := by
  simp [among]

lemma among_cons_of_ne (readers : List (Slot × Version)) (slot : Slot) {v w : Version}
    (h : v ≠ w) : among ((slot, v) :: readers) w = among readers w := by
  simp [among, h]

lemma eq_of_among_next {readers : List (Slot × Version)} {v : Version}
    (h : among readers v.next = []) {r : Slot × Version} (hr : r ∈ readers) : r.2 = v := by
  rw [among, List.map_eq_nil_iff, List.filter_eq_nil_iff] at h
  have hne : r.2 ≠ v.next := by simpa using h r hr
  revert hne
  cases r.2 <;> cases v <;> simp [Version.next]

lemma perm_among {readers others : List (Slot × Version)} (h : readers.Perm others) (v : Version) :
    (among readers v).Perm (among others v) :=
  (h.filter _).map _

namespace Versioned

/-- Both read-indicators count exactly the readers inside, after so many arrivals. -/
def Tallies (g : Versioned) (readers : List (Slot × Version)) (arrivals : Nat) : Prop :=
  ∀ v, (g.readers v).Holds (among readers v) arrivals

variable {g : Versioned} {readers : List (Slot × Version)} {arrivals : Nat}

lemma tallies_ofConfig {kind : IndicatorKind} (hkind : kind.Counting) (c : Config) :
    (ofConfig kind c).Tallies [] 0 := by
  intro v
  have hreaders : (ofConfig kind c).readers v = .ofConfig kind c := by cases v <;> rfl
  rw [hreaders]
  exact Indicator.holds_ofConfig hkind c

lemma Tallies.perm {others : List (Slot × Version)} (h : g.Tallies readers arrivals)
    (hperm : readers.Perm others) : g.Tallies others arrivals :=
  fun v => (h v).perm (perm_among hperm v)

/-- An arrival is admitted and counted. -/
lemma Tallies.arrive (h : g.Tallies readers arrivals) (hn : arrivals + 1 < 2 ^ 64) (slot : Slot) :
    ∃ g', Gate.arrive g slot.index = .ok (g.current, g') ∧
      g'.Tallies ((slot, g.current) :: readers) (arrivals + 1) := by
  obtain ⟨i, harrive, -, hholds⟩ := (h g.current).arrive hn slot.index
  have hgate : Gate.arrive g slot.index = .ok (g.current, g.setReaders g.current i) := by
    change g.arrive slot.index = _
    rw [Versioned.arrive, harrive]
  refine ⟨_, hgate, fun v => ?_⟩
  by_cases hv : v = g.current
  · subst hv
    rw [readers_setReaders_same, among_cons_same]
    exact hholds
  · rw [readers_setReaders_of_ne _ _ hv, among_cons_of_ne _ _ (Ne.symm hv)]
    exact (h v).mono (Nat.le_succ _)

/-- The departure of a counted reader is admitted and counted. -/
lemma Tallies.depart {slot : Slot} {v : Version} (h : g.Tallies ((slot, v) :: readers) arrivals)
    (hn : arrivals < 2 ^ 64) :
    ∃ g', Gate.depart g slot.index v = (.ok [], g') ∧ g'.Tallies readers arrivals := by
  have hv := h v
  rw [among_cons_same] at hv
  obtain ⟨i, hdepart, -, hholds⟩ := hv.depart hn rfl
  have hgate : Gate.depart g slot.index v = (.ok [], g.setReaders v i) := by
    change g.depart slot.index v = _
    rw [Versioned.depart, hdepart]
  refine ⟨_, hgate, fun w => ?_⟩
  by_cases hw : w = v
  · subst hw
    rw [readers_setReaders_same]
    exact hholds
  · have hother := h w
    rw [among_cons_of_ne _ _ (Ne.symm hw)] at hother
    rw [readers_setReaders_of_ne _ _ hw]
    exact hother

/-- An arrival and the departure that matches it leave the same readers. -/
lemma Tallies.visited {slot : Nat} {v : Version} {entered left : Versioned}
    (h : g.Tallies readers arrivals) (hn : arrivals + 1 < 2 ^ 64)
    (hvisited : Instance.Visited g slot entered left v) : left.Tallies readers (arrivals + 1) := by
  obtain ⟨harrive, rfl⟩ := hvisited
  obtain ⟨g', harrive', htallies⟩ := h.arrive hn ⟨0, slot⟩
  rw [harrive] at harrive'
  cases harrive'
  obtain ⟨g'', hdepart, htallies'⟩ := htallies.depart hn
  rw [hdepart]
  exact htallies'

/-- If the other version has no reader, all readers are at the current one. -/
lemma Tallies.ticket_eq (h : g.Tallies readers arrivals) (hclean : g.Clean) {r : Slot × Version}
    (hr : r ∈ readers) : r.2 = g.current :=
  eq_of_among_next ((h g.current.next).isEmpty_iff.1 hclean) hr

end Versioned

end TwinCopy
