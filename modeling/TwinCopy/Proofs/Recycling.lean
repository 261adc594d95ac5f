import Mathlib.Data.List.Induction
import Mathlib.Data.List.Nodup
import Mathlib.Data.List.Perm.Subperm
import Mathlib.Data.List.ReduceOption
import TwinCopy.Proofs.SlotsTaken
import TwinCopy.Slot.Script

/-!
# Recycling of slots

A bounded registry hands out the least free place, and a place is free as soon as its slot is
released. `RegistryInv` states that the claims of a registry are those of the live slots, each of
which has a place of its own; every operation of a script preserves it. An unbounded registry
numbers its slots instead, and never uses a number twice.
-/

namespace TwinCopy

namespace Registry

variable {r r' : Registry} {n i j : Nat} {slot : Slot}

/-- A bounded registry hands out the least free place, and fails if there is none. -/
lemma register_cases (hr : r.capacity = some n) :
    (∃ i r', r.register = .ok (⟨r.id, i⟩, r') ∧ i < n ∧ ¬ r.Taken i ∧ ∀ j < i, r.Taken j) ∨
      r.register = .error (.slotsExhausted n) ∧ ∀ j < n, r.Taken j := by
  obtain ⟨claimed, hclaims, hlength⟩ := exists_claims hr
  rcases hfree : claimed.findIdx? (! ·) with _ | i
  · right
    constructor
    · rw [hclaims]
      simp [register, hfree, hlength]
    · intro j hj
      refine ⟨claimed, by rw [hclaims], ?_⟩
      have hup := List.findIdx?_eq_none_iff.1 hfree claimed[j] (List.getElem_mem (hlength ▸ hj))
      simpa [hlength ▸ hj] using hup
  · left
    obtain ⟨hlt, hdown, hbefore⟩ := List.findIdx?_eq_some_iff_getElem.1 hfree
    have hregister : r.register = .ok (⟨r.id, i⟩, ⟨r.id, .bounded (claimed.set i true)⟩) := by
      rw [hclaims]
      simp [register, hfree]
    refine ⟨i, _, hregister, hlength ▸ hlt, (register_bounded hr hregister).1, ?_⟩
    intro j hj
    refine ⟨claimed, by rw [hclaims], ?_⟩
    have hup := hbefore j hj
    have hlt' : j < claimed.length := Nat.lt_trans hj hlt
    simpa [hlt'] using hup

/-- Releasing a place frees this place and no other. -/
lemma taken_release : (r.release i).Taken j ↔ j ≠ i ∧ r.Taken j := by
  constructor
  · rintro ⟨claimed, hclaims, htaken⟩
    obtain ⟨id, before | next⟩ := r
    · simp only [release, Claims.bounded.injEq] at hclaims
      rw [← hclaims, List.getElem?_set] at htaken
      split at htaken
      · split at htaken <;> cases htaken
      · next hne => exact ⟨Ne.symm hne, before, rfl, htaken⟩
    · cases hclaims
  · rintro ⟨hne, htaken⟩
    exact htaken.release (Ne.symm hne)

/-- Registering takes one more place. -/
lemma taken_register (hr : r.capacity = some n) (h : r.register = .ok (slot, r')) :
    r'.Taken j ↔ j = slot.index ∨ r.Taken j := by
  obtain ⟨-, hnew, hregistryInv, hback⟩ := register_bounded hr h
  constructor
  · intro htaken
    by_cases hj : j = slot.index
    · exact .inl hj
    · rw [← hback]
      exact .inr (taken_release.2 ⟨hj, htaken⟩)
  · rintro (rfl | htaken)
    · exact hnew
    · exact hregistryInv j htaken

end Registry

namespace SlotDesk

/-- The slots in the table. -/
def live (d : SlotDesk) : List Slot :=
  d.table.reduceOption

/-- Their places. -/
def places (d : SlotDesk) : List Nat :=
  d.live.map Slot.index

/-- The state after a script. -/
def after (d : SlotDesk) (operations : List SlotOperation) : SlotDesk :=
  operations.foldl (fun d o => (d.act o).2) d

variable {d : SlotDesk} {n : Nat}

lemma after_concat (d : SlotDesk) (operations : List SlotOperation) (o : SlotOperation) :
    d.after (operations ++ [o]) = ((d.after operations).act o).2 := by
  simp only [after, List.foldl_append, List.foldl_cons, List.foldl_nil]

lemma places_append (r : Registry) (table : List (Option Slot)) (slot : Slot) :
    places ⟨r, table ++ [some slot]⟩ = places ⟨r, table⟩ ++ [slot.index] := by
  simp only [places, live, ← List.concat_eq_append, List.reduceOption_concat_of_some]
  rw [List.concat_eq_append, List.map_append, List.map_singleton, List.concat_eq_append]

/-- The place of a slot in the table is one of these, and no longer if the slot is removed. -/
lemma places_perm_of_slot? {k : Nat} {slot : Slot} (h : d.slot? k = some slot) (r : Registry) :
    d.places.Perm (slot.index :: places ⟨r, d.table.set k none⟩) := by
  obtain ⟨hk, hslot⟩ : ∃ hk : k < d.table.length, d.table[k] = some slot := by
    rw [slot?, Option.join_eq_some_iff, List.getElem?_eq_some_iff] at h
    exact h
  have htable : d.table = d.table.take k ++ some slot :: d.table.drop (k + 1) := by
    rw [← hslot, List.getElem_cons_drop, List.take_append_drop]
  have hset : d.table.set k none = d.table.take k ++ none :: d.table.drop (k + 1) :=
    List.set_eq_take_append_cons_drop.trans (if_pos hk)
  simp only [places, live]
  rw [hset, congrArg List.reduceOption htable]
  simp only [List.reduceOption_append, List.reduceOption_cons_of_some,
    List.reduceOption_cons_of_none, List.map_append, List.map_cons]
  exact List.perm_middle

/-! ## A bounded registry -/

/-- The places taken are those of the live slots, each of which has a place of its own. -/
structure RegistryInv (d : SlotDesk) (n : Nat) : Prop where
  capacity : d.registry.capacity = some n
  taken : ∀ i, d.registry.Taken i ↔ i ∈ d.places
  distinct : d.places.Nodup

lemma registryInv_ofRegistry (id n : Nat) : (ofRegistry (.bounded id n)).RegistryInv n where
  capacity := Registry.capacity_ofCapacity id (some n)
  taken i := by
    constructor
    · rintro ⟨claimed, hclaims, htaken⟩
      simp only [ofRegistry, Registry.bounded, Claims.bounded.injEq] at hclaims
      simp [← hclaims, List.getElem?_replicate] at htaken
    · intro h
      cases h
  distinct := List.nodup_nil

namespace RegistryInv

lemma lt_of_mem (h : d.RegistryInv n) {i : Nat} (hi : i ∈ d.places) : i < n :=
  ((h.taken i).2 hi).lt_capacity h.capacity

lemma registered (h : d.RegistryInv n) {slot : Slot} {registry : Registry}
    (hregister : d.registry.register = .ok (slot, registry)) :
    RegistryInv ⟨registry, d.table ++ [some slot]⟩ n := by
  have hfree : slot.index ∉ d.places :=
    mt (h.taken _).2 (Registry.register_bounded h.capacity hregister).1
  refine ⟨(Registry.register_spec hregister).2.2.1.trans h.capacity, fun i => ?_, ?_⟩
  · rw [Registry.taken_register h.capacity hregister, h.taken, places_append, List.mem_append,
      List.mem_singleton]
    exact or_comm
  · rw [places_append]
    exact h.distinct.append (List.nodup_singleton _) (List.disjoint_singleton.2 hfree)

lemma dropped (h : d.RegistryInv n) {k : Nat} {slot : Slot} (hslot : d.slot? k = some slot) :
    RegistryInv ⟨d.registry.release slot.index, d.table.set k none⟩ n := by
  have hperm := places_perm_of_slot? hslot (d.registry.release slot.index)
  obtain ⟨hfree, hdistinct⟩ := List.nodup_cons.1 (hperm.nodup_iff.1 h.distinct)
  refine ⟨(Registry.capacity_release _ _).trans h.capacity, fun i => ?_, hdistinct⟩
  rw [Registry.taken_release, h.taken, hperm.mem_iff, List.mem_cons]
  constructor
  · rintro ⟨hne, rfl | hi⟩
    · exact absurd rfl hne
    · exact hi
  · intro hi
    exact ⟨ne_of_mem_of_not_mem hi hfree, .inr hi⟩

/-- Claiming and releasing a slot restores the registry, so the same place is handed out each
time. -/
lemma churn_succ (h : d.RegistryInv n) {slot : Slot} {registry : Registry}
    (hregister : d.registry.register = .ok (slot, registry)) (m : Nat) (last : SlotAnswer) :
    churn d.registry (m + 1) last = (.ok (.index slot.index), d.registry) := by
  have hback := (Registry.register_bounded h.capacity hregister).2.2.2
  induction m generalizing last with
  | zero => simp only [churn, hregister, hback]
  | succ m ih =>
    rw [churn]
    simp only [hregister, hback]
    exact ih _

/-- Slots that are claimed and released at once leave the state unchanged. -/
lemma act_churn (h : d.RegistryInv n) (m : Nat) : (d.act (.churn m)).2 = d := by
  have hregistry : (churn d.registry m .done).2 = d.registry := by
    cases m with
    | zero => rfl
    | succ m =>
      rcases Registry.register_cases h.capacity with ⟨i, r', hregister, -⟩ | ⟨hregister, -⟩
      · rw [h.churn_succ hregister]
      · rw [churn, hregister]
  simp only [act, Prod.map_snd, hregistry]

lemma act (h : d.RegistryInv n) (o : SlotOperation) : (d.act o).2.RegistryInv n := by
  cases o with
  | register =>
    rw [SlotDesk.act]
    split
    · next hregister => exact h.registered hregister
    · exact h
  | churn m =>
    rw [h.act_churn]
    exact h
  | drop k =>
    rw [SlotDesk.act]
    split
    · next hslot => exact h.dropped hslot
    · exact h
  | slot k =>
    rw [SlotDesk.act]
    split <;> exact h
  | capacity | text => exact h

/-- There is room for a slot exactly if there is a free place. -/
lemma length_lt_iff (h : d.RegistryInv n) : d.live.length < n ↔ ∃ i < n, ¬ d.registry.Taken i := by
  have hlength : d.live.length = d.places.length := by rw [places, List.length_map]
  rw [hlength]
  constructor
  · intro hroom
    by_contra hfull
    have hall : List.range n ⊆ d.places := by
      intro i hi
      by_contra hfree
      exact hfull ⟨i, List.mem_range.1 hi, mt (h.taken i).1 hfree⟩
    have hle := (List.nodup_range.subperm hall).length_le
    rw [List.length_range] at hle
    omega
  · rintro ⟨i, hi, hfree⟩
    have hnodup : (i :: d.places).Nodup :=
      List.nodup_cons.2 ⟨mt (h.taken i).2 hfree, h.distinct⟩
    have hbelow : i :: d.places ⊆ List.range n := by
      intro j hj
      rw [List.mem_range]
      rcases List.mem_cons.1 hj with rfl | hj
      · exact hi
      · exact h.lt_of_mem hj
    have hle := (hnodup.subperm hbelow).length_le
    rw [List.length_cons, List.length_range] at hle
    omega

end RegistryInv

/-- `RegistryInv` holds after every script. -/
lemma registryInv_after (id n : Nat) (operations : List SlotOperation) :
    ((ofRegistry (.bounded id n)).after operations).RegistryInv n := by
  induction operations using List.reverseRecOn with
  | nil => exact registryInv_ofRegistry id n
  | append_singleton operations o ih =>
    rw [after_concat]
    exact ih.act o

lemma act_register {slot : Slot} {registry : Registry}
    (h : d.registry.register = .ok (slot, registry)) :
    d.act .register = (.ok (.index slot.index), ⟨registry, d.table ++ [some slot]⟩) := by
  rw [act, h]

/-- The slot handed out last can be dropped at the end of the table. -/
lemma act_drop_last (r : Registry) (table : List (Option Slot)) (slot : Slot) :
    act ⟨r, table ++ [some slot]⟩ (.drop table.length) =
      (.ok .done, ⟨r.release slot.index, table ++ [none]⟩) := by
  have hslot : slot? ⟨r, table ++ [some slot]⟩ table.length = some slot := by simp [slot?]
  rw [act, hslot]
  simp

namespace RegistryInv

/-- The places of the live slots are the raised flags of the registry. -/
lemma exists_claimed (h : d.RegistryInv n) : ∃ claimed, d.registry.claims = .bounded claimed ∧
    claimed.length = n ∧ ∀ i : Nat, claimed[i]? = some true ↔ i ∈ d.places := by
  obtain ⟨claimed, hclaims, hlength⟩ := Registry.exists_claims h.capacity
  refine ⟨claimed, by rw [hclaims], hlength, fun i => ?_⟩
  rw [← h.taken, hclaims]
  constructor
  · intro hflag
    exact ⟨claimed, rfl, hflag⟩
  · rintro ⟨claimed', hclaims', hflag⟩
    cases hclaims'
    exact hflag

/-- With room left, registering hands out the least free place, and releasing it restores the
registry. -/
lemma register_of_lt (h : d.RegistryInv n) (hroom : d.live.length < n) :
    ∃ i registry, i < n ∧ i ∉ d.places ∧ (∀ j < i, j ∈ d.places) ∧
      d.act .register = (.ok (.index i), ⟨registry, d.table ++ [some ⟨d.registry.id, i⟩]⟩) ∧
      (d.act .register).2.act (.drop d.table.length) =
        (.ok .done, ⟨d.registry, d.table ++ [none]⟩) ∧
      ∀ m, d.act (.churn (m + 1)) = (.ok (.index i), d) := by
  obtain ⟨i', hi', hfree'⟩ := h.length_lt_iff.1 hroom
  rcases Registry.register_cases h.capacity with
    ⟨i, registry, hregister, hi, hfree, hbefore⟩ | ⟨-, hfull⟩
  · have hback := (Registry.register_bounded h.capacity hregister).2.2.2
    refine ⟨i, registry, hi, mt (h.taken i).2 hfree, fun j hj => (h.taken j).1 (hbefore j hj),
      act_register hregister, ?_, fun m => ?_⟩
    · rw [act_register hregister, act_drop_last, hback]
    · refine Prod.ext ?_ (h.act_churn _)
      rw [SlotDesk.act, h.churn_succ hregister]
      rfl
  · exact absurd (hfull i' hi') hfree'

/-- With all places taken, registering is refused. -/
lemma register_of_le (h : d.RegistryInv n) (hfull : n ≤ d.live.length) :
    d.act .register = (.error (.error (.slotsExhausted n)), d) ∧
      ∀ m, d.act (.churn (m + 1)) = (.error (.error (.slotsExhausted n)), d) := by
  have hnone : ∀ j < n, d.registry.Taken j := by
    intro j hj
    by_contra hfree
    exact absurd (h.length_lt_iff.2 ⟨j, hj, hfree⟩) (Nat.not_lt.2 hfull)
  rcases Registry.register_cases h.capacity with ⟨i, registry, -, hi, hfree, -⟩ | ⟨hregister, -⟩
  · exact absurd (hnone i hi) hfree
  · constructor
    · rw [SlotDesk.act, hregister]
    · intro m
      refine Prod.ext ?_ (h.act_churn _)
      rw [SlotDesk.act, churn, hregister]
      rfl

end RegistryInv

/-! ## An unbounded registry -/

/-- The number of slots that a script asks for. -/
def registrations : List SlotOperation → Nat
  | [] => 0
  | .register :: rest => 1 + registrations rest
  | .churn m :: rest => m + registrations rest
  | _ :: rest => registrations rest

/-- The number of slots handed out. -/
def Numbered (r : Registry) (m : Nat) : Prop :=
  r.claims = .unbounded (UInt64.ofNat m)

lemma registrations_concat (operations : List SlotOperation) (o : SlotOperation) :
    registrations (operations ++ [o]) = registrations operations + registrations [o] := by
  induction operations with
  | nil => simp [registrations]
  | cons head rest ih => cases head <;> simp [registrations, ih, Nat.add_assoc]

lemma Numbered.register {r : Registry} {m : Nat} (h : Numbered r m) :
    ∃ r', r.register = .ok (⟨r.id, m % 2 ^ 64⟩, r') ∧ Numbered r' (m + 1) := by
  obtain ⟨id, claims⟩ := r
  cases show claims = _ from h
  refine ⟨⟨id, .unbounded (UInt64.ofNat m + 1)⟩, ?_, ?_⟩
  · simp only [Registry.register, UInt64.toNat_ofNat']
  · rw [Numbered, UInt64.ofNat_add]
    rfl

/-- Releasing a slot changes nothing. -/
lemma Numbered.release {r : Registry} {m : Nat} (h : Numbered r m) (index : Nat) :
    r.release index = r := by
  rw [Registry.release, show r.claims = _ from h]

lemma Numbered.churn {r : Registry} {m : Nat} (h : Numbered r m) (k : Nat) (last : SlotAnswer) :
    Numbered (SlotDesk.churn r k last).2 (m + k) ∧
      (SlotDesk.churn r k last).1 =
        .ok (if k = 0 then last else .index ((m + k - 1) % 2 ^ 64)) := by
  induction k generalizing r m last with
  | zero => exact ⟨h, rfl⟩
  | succ k ih =>
    obtain ⟨r', hregister, hnumbered⟩ := h.register
    obtain ⟨hclaims, hanswer⟩ := ih hnumbered (.index (m % 2 ^ 64))
    have hchurn : SlotDesk.churn r (k + 1) last = SlotDesk.churn r' k (.index (m % 2 ^ 64)) := by
      rw [SlotDesk.churn, hregister]
      simp only [hnumbered.release]
    rw [hchurn]
    constructor
    · rw [Nat.add_right_comm] at hclaims
      exact hclaims
    · rw [hanswer, if_neg (Nat.succ_ne_zero k), Nat.add_right_comm m 1 k]
      by_cases hk : k = 0
      · subst hk
        rfl
      · rw [if_neg hk]
        rfl

/-- An unbounded registry counts the slots handed out, whatever was released. -/
lemma numbered_after (id : Nat) (operations : List SlotOperation) :
    Numbered ((ofRegistry (.unbounded id)).after operations).registry
      (registrations operations) := by
  induction operations using List.reverseRecOn with
  | nil => rfl
  | append_singleton operations o ih =>
    rw [after_concat, registrations_concat]
    generalize (ofRegistry (.unbounded id)).after operations = d at ih ⊢
    cases o with
    | register =>
      obtain ⟨r', hregister, hnumbered⟩ := ih.register
      rw [act_register hregister]
      exact hnumbered
    | churn k => exact (ih.churn k .done).1
    | drop k =>
      rw [act]
      split
      · exact (ih.release _).symm ▸ ih
      · exact ih
    | slot k =>
      rw [act]
      split <;> exact ih
    | capacity | text => exact ih

/-! ## All registries -/

/-- Slots are handed out and released without a trace.

At any time the live slots of a bounded registry have places of their own, and these are the places
claimed. Registering hands out the least free place, and releasing it restores the registry, so
slots that are released at once all get the same one. If no place is free, registering is refused
without a change. An unbounded registry numbers its slots, whatever is released. -/
theorem slots_recycled (id : Nat) (operations : List SlotOperation) :
    (∀ n, let d := (ofRegistry (.bounded id n)).after operations
      d.places.Nodup ∧ (∀ i ∈ d.places, i < n) ∧
      (∃ claimed, d.registry.claims = .bounded claimed ∧ claimed.length = n ∧
        ∀ i : Nat, claimed[i]? = some true ↔ i ∈ d.places) ∧
      (d.live.length < n → ∃ i registry, i < n ∧ i ∉ d.places ∧ (∀ j < i, j ∈ d.places) ∧
        d.act .register = (.ok (.index i), ⟨registry, d.table ++ [some ⟨d.registry.id, i⟩]⟩) ∧
        (d.act .register).2.act (.drop d.table.length) =
          (.ok .done, ⟨d.registry, d.table ++ [none]⟩) ∧
        ∀ m, d.act (.churn (m + 1)) = (.ok (.index i), d)) ∧
      (n ≤ d.live.length →
        d.act .register = (.error (.error (.slotsExhausted n)), d) ∧
        ∀ m, d.act (.churn (m + 1)) = (.error (.error (.slotsExhausted n)), d))) ∧
    (let d := (ofRegistry (.unbounded id)).after operations
      let earlier := registrations operations
      (earlier < 2 ^ 64 → (d.act .register).1 = .ok (.index earlier)) ∧
      ∀ m, earlier + m < 2 ^ 64 →
        (d.act (.churn (m + 1))).1 = .ok (.index (earlier + m))) := by
  constructor
  · intro n d
    have hregistryInv : d.RegistryInv n := registryInv_after id n operations
    exact ⟨hregistryInv.distinct, fun i hi => hregistryInv.lt_of_mem hi,
      hregistryInv.exists_claimed, hregistryInv.register_of_lt, hregistryInv.register_of_le⟩
  · intro d earlier
    have hnumbered : Numbered d.registry earlier := numbered_after id operations
    constructor
    · intro hlt
      obtain ⟨r', hregister, -⟩ := hnumbered.register
      rw [act_register hregister, Nat.mod_eq_of_lt hlt]
    · intro m hlt
      have hanswer := (hnumbered.churn (m + 1) .done).2
      rw [if_neg (Nat.succ_ne_zero m), ← Nat.add_assoc, Nat.add_sub_cancel,
        Nat.mod_eq_of_lt hlt] at hanswer
      rw [act]
      exact hanswer

/-- Of three slots the first was released and is in use again, so the next one is the third, two
more are too many, and an unbounded registry is at its fourth. -/
theorem slots_recycled_after_drop :
    let operations := [.register, .register, .drop 0, .register]
    let three := (ofRegistry (.bounded 0 3)).after operations
    let two := (ofRegistry (.bounded 0 2)).after operations
    let free := (ofRegistry (.unbounded 0)).after operations
    (∃ i < 3, i ∉ three.places ∧ (three.act .register).1 = .ok (.index i)) ∧
      two.act .register = (.error (.error (.slotsExhausted 2)), two) ∧
      (free.act .register).1 = .ok (.index 3) ∧ (free.act (.churn 5)).1 = .ok (.index 7) := by
  intro operations three two free
  obtain ⟨hbounded, hregister, hchurn⟩ := slots_recycled 0 operations
  obtain ⟨i, registry, hi, hfree, -, hact, -⟩ := (hbounded 3).2.2.2.1 (by decide)
  refine ⟨⟨i, hi, hfree, congrArg Prod.fst hact⟩, ?_, hregister (by decide), hchurn 4 (by decide)⟩
  exact ((hbounded 2).2.2.2.2 (by decide)).1

end SlotDesk

end TwinCopy
