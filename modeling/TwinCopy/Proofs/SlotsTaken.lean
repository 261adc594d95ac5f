import TwinCopy.Proofs.Stages

/-!
# Slots in use

A bounded registry gives each entry to one holder at a time. `SlotsTaken` is the invariant of a
session that follows: the slots of the instance in its table are distinct and their entries taken,
and every query under way has one of them. Hence a slot that is newly claimed is not one that a
query uses.
-/

namespace TwinCopy

variable {γ κ δ α ρ : Type}

/-- A slot is determined by its registry and its entry. -/
lemma Slot.eq_of_index {a b : Slot} (hissuer : a.issuer = b.issuer) (hindex : a.index = b.index) :
    a = b := by
  cases a
  cases b
  cases hissuer
  cases hindex
  rfl

namespace Registry

/-- A bounded registry has this entry claimed. -/
def Taken (r : Registry) (index : Nat) : Prop :=
  ∃ claimed, r.claims = .bounded claimed ∧ claimed[index]? = some true

variable {r r' : Registry} {n : Nat}

lemma exists_claims (hr : r.capacity = some n) :
    ∃ claimed, r = ⟨r.id, .bounded claimed⟩ ∧ claimed.length = n := by
  obtain ⟨id, claimed | next⟩ := r
  · exact ⟨claimed, rfl, Option.some.inj hr⟩
  · cases hr

lemma Taken.lt_capacity {index : Nat} (h : r.Taken index) (hr : r.capacity = some n) :
    index < n := by
  obtain ⟨claimed, hclaims, htaken⟩ := h
  simp only [capacity, hclaims, Option.some.injEq] at hr
  obtain ⟨hlt, -⟩ := List.getElem?_eq_some_iff.1 htaken
  exact hr ▸ hlt

/-- Releasing an entry leaves the other ones taken. -/
lemma Taken.release {i j : Nat} (h : r.Taken i) (hne : j ≠ i) : (r.release j).Taken i := by
  obtain ⟨claimed, hclaims, htaken⟩ := h
  refine ⟨claimed.set j false, by simp only [Registry.release, hclaims], ?_⟩
  rw [List.getElem?_set_ne hne]
  exact htaken

/-- A claimed entry was free and is then taken, and releasing it undoes the claim. -/
lemma register_bounded {slot : Slot} (hr : r.capacity = some n)
    (h : r.register = .ok (slot, r')) :
    ¬ r.Taken slot.index ∧ r'.Taken slot.index ∧ (∀ i, r.Taken i → r'.Taken i) ∧
      r'.release slot.index = r := by
  obtain ⟨claimed, hclaims, -⟩ := exists_claims hr
  rw [hclaims] at h
  rcases hfree : claimed.findIdx? (! ·) with _ | i
  · simp [register, hfree] at h
  · simp only [register, hfree, Except.ok.injEq, Prod.mk.injEq] at h
    obtain ⟨rfl, rfl⟩ := h
    obtain ⟨hlt, hdown, -⟩ := List.findIdx?_eq_some_iff_getElem.1 hfree
    have hentry : claimed[i]? = some false := by simpa [hlt] using hdown
    refine ⟨?_, ⟨_, rfl, by simp [hlt]⟩, fun j hj => ?_, ?_⟩
    · rintro ⟨claimed', hclaims', htaken⟩
      rw [hclaims] at hclaims'
      cases hclaims'
      simp [hentry] at htaken
    · obtain ⟨claimed', hclaims', htaken⟩ := hj
      rw [hclaims] at hclaims'
      cases hclaims'
      refine ⟨_, rfl, ?_⟩
      rw [List.getElem?_set]
      split
      · rfl
      · exact htaken
    · rw [hclaims]
      obtain ⟨hlt, hentry⟩ := List.getElem?_eq_some_iff.1 hentry
      simp only [Registry.release, List.set_set, mk.injEq, Claims.bounded.injEq, true_and]
      rw [← hentry, List.set_getElem_self]

/-- A claim and release restores a bounded registry. -/
lemma Churned.eq (h : r.Churned r') (hr : r.capacity = some n) : r' = r := by
  rcases h with h | ⟨slot, claimed, hregister, rfl⟩
  · exact h
  · exact (register_bounded hr hregister).2.2.2

end Registry

/-- A step of the leading writer leaves a bounded registry unchanged. -/
lemma Instance.Staged.registry_eq [Gate γ κ δ] {s t : Instance γ δ α ρ} {c c' : Control δ α ρ}
    {actions : History γ κ δ α ρ} {n : Nat} (h : Staged s c actions t c')
    (hcapacity : s.registry.capacity = some n) : t.registry = s.registry := by
  cases h with
  | quiet | elect | turn | shift | clear => rfl
  | apply h =>
    obtain ⟨output, gate, registry, log, note, -, rfl, hlook⟩ := pass_ok h
    exact hlook.registry.eq hcapacity
  | @giveUp s' p done rest old x f h =>
    obtain ⟨message, gate, registry, log, note, -, -, rfl, hlook⟩ := pass_error h
    obtain ⟨cells, writers, log', finished, hend⟩ := abandon_frame _ (done ++ x :: rest) f
    rw [hend]
    exact hlook.registry.eq hcapacity
  | @complete batch old =>
    obtain ⟨cells, writers, log, finished, hend⟩ := s.complete_frame batch old
    rw [hend]
  | @surplus batch old d m h =>
    obtain ⟨cells, writers, log, finished, hend⟩ :=
      abandon_frame (s.report (.misused m)) batch (.misuse m)
    rw [hend]
    rfl

namespace Session

/-- The slots of the instance in the table are distinct and taken, and each query under way has one
of them. -/
structure SlotsTaken (s : Session γ κ δ α ρ) (n : Nat) : Prop where
  capacity : s.inst.registry.capacity = some n
  stranger : s.stranger.id ≠ s.inst.registry.id
  distinct : ∀ (i j : Nat) (slot : Slot), s.table[i]? = some (some slot) →
    s.table[j]? = some (some slot) →
    slot.issuer = s.inst.registry.id → i = j
  taken : ∀ (i : Nat) (slot : Slot), s.table[i]? = some (some slot) →
    slot.issuer = s.inst.registry.id →
    s.inst.registry.Taken slot.index
  visits : ∀ v ∈ s.visits, v.slot.issuer = s.inst.registry.id ∧
    ∃ i : Nat, s.table[i]? = some (some v.slot)

namespace SlotsTaken

variable {s s' : Session γ κ δ α ρ} {n : Nat}

lemma visit_taken (hl : s.SlotsTaken n) {v : Visit κ} (hv : v ∈ s.visits) :
    s.inst.registry.Taken v.slot.index := by
  obtain ⟨hissuer, i, hi⟩ := hl.visits v hv
  exact hl.taken i v.slot hi hissuer

/-- Queries with the same entry have the same slot. -/
lemma slot_eq (hl : s.SlotsTaken n) {v w : Visit κ} (hv : v ∈ s.visits) (hw : w ∈ s.visits)
    (h : v.slot.index = w.slot.index) : v.slot = w.slot :=
  Slot.eq_of_index ((hl.visits v hv).1.trans (hl.visits w hw).1.symm) h

lemma of_capacity (inst : Instance γ δ α ρ) (h : inst.registry.capacity = some n) :
    (ofInstance inst : Session γ κ δ α ρ).SlotsTaken n where
  capacity := h
  stranger := Nat.succ_ne_self _
  distinct := by simp [ofInstance]
  taken := by simp [ofInstance]
  visits := nofun

lemma emptied (hl : s.SlotsTaken n) :
    SlotsTaken { s with inst := { s.inst with finished := [], log := [] } } n :=
  ⟨hl.capacity, hl.stranger, hl.distinct, hl.taken, hl.visits⟩

variable [Gate γ κ δ]

/-- A slot in the table stays taken, and a newly claimed one was not taken. -/
lemma taken_moved (hl : s.SlotsTaken n) (hslotted : Gate.slotted γ = true) {m : Move α ρ}
    {r : Except Failure (Answer κ α)} (hm : s.Moved m r s') {i : Nat} {slot : Slot}
    (hold : s.table[i]? = some (some slot)) (hstill : s'.table[i]? = some (some slot))
    (hissuer : slot.issuer = s.inst.registry.id) : s'.inst.registry.Taken slot.index := by
  have htaken := hl.taken i slot hold hissuer
  cases hm with
  | registered hregister =>
    exact (Registry.register_bounded hl.capacity hregister).2.2.1 _ htaken
  | churned hregister =>
    simp only [(Registry.register_bounded hl.capacity hregister).2.2.2]
    exact htaken
  | @dropped k other hother huse hown =>
    refine htaken.release fun hindex => (of_getElem?_vacated hstill).1 ?_
    have hsame : other = slot := Slot.eq_of_index (hown.trans hissuer.symm) hindex
    exact hl.distinct i k slot hold (hsame ▸ getElem?_of_slot? hslotted hother) hissuer
  | _ => exact htaken

/-- A move preserves `SlotsTaken`. -/
lemma moved (hl : s.SlotsTaken n) (hslotted : Gate.slotted γ = true) {m : Move α ρ}
    {r : Except Failure (Answer κ α)} (hm : s.Moved m r s') : s'.SlotsTaken n where
  capacity := hm.capacity_eq.trans hl.capacity
  stranger := by
    rw [hm.stranger_id, hm.registry_id]
    exact hl.stranger
  distinct i j slot hi hj hissuer := by
    rw [hm.registry_id] at hissuer
    -- the entry of a new slot was free, so the slot is at one place only
    have hnew : ∀ {k : Nat}, s.table[k]? = some (some slot) →
        ¬(s.inst.registry.register = .ok (slot, s'.inst.registry) ∨
          m = .foreign ∧ slot.issuer = s.stranger.id) := by
      rintro k hk (hregister | ⟨-, hforeign⟩)
      · exact (Registry.register_bounded hl.capacity hregister).1 (hl.taken k slot hk hissuer)
      · exact hl.stranger (hforeign.symm.trans hissuer)
    rcases hm.getElem?_table hi with hold | ⟨hplace, hclaimed⟩
    · rcases hm.getElem?_table hj with hold' | ⟨-, hclaimed⟩
      · exact hl.distinct i j slot hold hold' hissuer
      · exact absurd hclaimed (hnew hold)
    · rcases hm.getElem?_table hj with hold' | ⟨hplace', -⟩
      · exact absurd hclaimed (hnew hold')
      · exact hplace.trans hplace'.symm
  taken i slot hi hissuer := by
    rw [hm.registry_id] at hissuer
    rcases hm.getElem?_table hi with hold | ⟨-, hregister | ⟨-, hforeign⟩⟩
    · exact hl.taken_moved hslotted hm hold hi hissuer
    · exact (Registry.register_bounded hl.capacity hregister).2.1
    · exact absurd (hforeign.symm.trans hissuer) hl.stranger
  visits v hv := by
    rw [hm.registry_id]
    rcases hm.mem_visits hv with hold | ⟨hissuer, htable, k, hslot⟩
    · obtain ⟨hissuer, i, hi⟩ := hl.visits v hold
      have huse : s.inUse v.slot = true := by
        rw [inUse, Bool.or_eq_true]
        exact .inl (List.any_eq_true.2 ⟨v, hold, beq_self_eq_true _⟩)
      exact ⟨hissuer, i, hm.getElem?_kept hslotted hi hissuer huse⟩
    · exact ⟨hissuer, k, htable ▸ getElem?_of_slot? hslotted hslot⟩

/-- A step of the leading writer preserves `SlotsTaken`. -/
lemma staged (hl : s.SlotsTaken n) {t : Instance γ δ α ρ} {c c' : Control δ α ρ}
    {actions : History γ κ δ α ρ} (hstaged : Instance.Staged s.inst c actions t c') :
    SlotsTaken { s with inst := t } n := by
  have hregistry := hstaged.registry_eq hl.capacity
  exact ⟨hregistry ▸ hl.capacity, hregistry ▸ hl.stranger, hregistry ▸ hl.distinct,
    hregistry ▸ hl.taken, hregistry ▸ hl.visits⟩

end SlotsTaken

end Session

end TwinCopy
