import TwinCopy.Proofs.Frame
import TwinCopy.Session

/-!
# The effect of a move

A move of a session is refused, or only looks at something, or has one of a dozen effects. `Moved`
lists them with their conditions. Invariants of sessions are proved by cases on it, or from the
lemmas on `Moved` at the end of this file: which components no move changes, where the slots of the
table and the queries under way come from, and that a slot in use keeps its place.
-/

namespace TwinCopy

variable {γ κ δ α ρ : Type} [Gate γ κ δ]

namespace Session

/-- The moves that do not change the session. -/
def isLook : Move α ρ → Bool
  | .look | .text | .next | .slot _ | .tryLock => true
  | _ => false

/-- A writer is admitted at this cell: under the exclusive style if no writer is inside, under the
combining style if the cell is that of a slot of the instance and has no writer. -/
def Admits (s : Session γ κ δ α ρ) (k i : Nat) : Prop :=
  (s.inst.style = .exclusive ∧ s.inst.writers = [] ∧ i = 0) ∨
    (s.inst.style = .combining ∧ ∃ slot, s.slot? k = some slot ∧
      slot.issuer = s.inst.registry.id ∧ slot.index = i ∧ ∀ w ∈ s.inst.writers, w.cell ≠ i)

/-- The effect of a move on a session, with its answer: the graph of `act`. -/
inductive Moved (s : Session γ κ δ α ρ) :
    Move α ρ → Except Failure (Answer κ α) → Session γ κ δ α ρ → Prop where
  | refused (m : Move α ρ) (f : Failure) {log : List Event}
      (hlog : log = s.inst.log ∨ ∃ e, s.inst.Rejects e ∧ log = .misused e :: s.inst.log) :
      Moved s m (.error f) { s with inst := { s.inst with log } }
  | looked {m : Move α ρ} (r : Except Failure (Answer κ α)) (h : isLook m = true) : Moved s m r s
  | registered {slot : Slot} {registry : Registry}
      (h : s.inst.registry.register = .ok (slot, registry)) :
      Moved s .register (.ok (.index slot.index))
        { s with
          inst := { s.inst with registry, log := .slotRegistered slot.index :: s.inst.log }
          table := s.table ++ [some slot] }
  | churned {slot : Slot} {registry : Registry}
      (h : s.inst.registry.register = .ok (slot, registry)) :
      Moved s .churn (.ok (.index slot.index))
        { s with
          inst :=
            { s.inst with
              registry := registry.release slot.index
              log := .slotRegistered slot.index :: s.inst.log } }
  | foreignRegistered {slot : Slot} {stranger : Registry}
    (h : s.stranger.register = .ok (slot, stranger)) :
      Moved s .foreign (.ok (.index slot.index))
        { s with
          stranger
          table := s.table ++ [some slot]
          inst := { s.inst with log := .slotRegistered slot.index :: s.inst.log } }
  | dropped {k : Nat} {slot : Slot} (hslot : s.slot? k = some slot) (huse : s.inUse slot = false)
      (hissuer : slot.issuer = s.inst.registry.id) :
      Moved s (.drop k) (.ok .done)
        { s with
          table := s.table.set k none
          inst := { s.inst with registry := s.inst.registry.release slot.index } }
  | droppedForeign {k : Nat} {slot : Slot} (hslot : s.slot? k = some slot)
      (hissuer : slot.issuer ≠ s.inst.registry.id) :
      Moved s (.drop k) (.ok .done)
        { s with table := s.table.set k none, stranger := s.stranger.release slot.index }
  | arrived {k : Nat} {slot : Slot} {ticket : κ} {gate : γ} (hstyle : s.inst.style = .exclusive)
      (hslot : s.slot? k = some slot) (hissuer : slot.issuer = s.inst.registry.id)
      (harrive : Gate.arrive s.inst.gate slot.index = .ok (ticket, gate)) :
      Moved s (.arrive k) (.ok (.ticket ticket)) { s with inst := { s.inst with gate } }
  | departed {k n : Nat} {slot : Slot} {events : List Event} {gate : γ}
      (hstyle : s.inst.style = .exclusive) (hslot : s.slot? k = some slot)
      (hissuer : slot.issuer = s.inst.registry.id)
      (hdepart : Gate.depart s.inst.gate slot.index (Gate.ticket γ n) = (.ok events, gate)) :
      Moved s (.depart k n) (.ok .done)
        { s with inst := { s.inst with gate, log := events.reverse ++ s.inst.log } }
  | departFailed {k n : Nat} {slot : Slot} {m : Misuse} {gate : γ}
      (hstyle : s.inst.style = .exclusive) (hslot : s.slot? k = some slot)
      (hissuer : slot.issuer = s.inst.registry.id)
      (hdepart : Gate.depart s.inst.gate slot.index (Gate.ticket γ n) = (.error m, gate)) :
      Moved s (.depart k n) (.error (.fault (.misuse m) none))
        { s with inst := { s.inst with gate, log := .misused m :: s.inst.log } }
  | entered {k : Nat} {slot : Slot} {ticket : κ} {gate : γ} (hslot : s.slot? k = some slot)
      (hissuer : slot.issuer = s.inst.registry.id)
      (harrive : Gate.arrive s.inst.gate slot.index = .ok (ticket, gate)) :
      Moved s (.enter k) (.ok (.copy (s.inst.copies.get (Gate.side gate))))
        { s with
          inst := { s.inst with gate }
          visits := ⟨slot, ticket, Gate.side gate⟩ :: s.visits }
  | left {gaveUp : Bool} {v : Visit κ} {visits : List (Visit κ)} {events : List Event} {gate : γ}
      {r : Except Failure (Answer κ α)} (hvisits : s.visits = v :: visits)
      (hdepart : Gate.depart s.inst.gate v.slot.index v.ticket = (.ok events, gate))
      (hr : r = if gaveUp then .error (.fault (.raised "reader failed") none)
        else .ok (.copy (s.inst.given v))) :
      Moved s (.leave gaveUp) r
        { s with inst := { s.inst with gate, log := events.reverse ++ s.inst.log }, visits }
  | leaveFailed {gaveUp : Bool} {v : Visit κ} {visits : List (Visit κ)} {m : Misuse} {gate : γ}
      {f : Failure} (hvisits : s.visits = v :: visits)
      (hdepart : Gate.depart s.inst.gate v.slot.index v.ticket = (.error m, gate)) :
      Moved s (.leave gaveUp) (.error f)
        { s with inst := { s.inst with gate, log := .misused m :: s.inst.log }, visits }
  | noQueryLeft (gaveUp : Bool) (hvisits : s.visits = []) : Moved s (.leave gaveUp) (.ok .done) s
  | locked (hguarded : s.guarded = false) (hwriters : s.inst.writers = [])
      (hstyle : s.inst.style = .exclusive) (hlock : s.inst.lock.locked = false) :
      Moved s .lock (.ok .done)
        { s with
          inst := { s.inst with lock := { s.inst.lock with locked := true } }
          guarded := true }
  | unlocked (hguarded : s.guarded = true) :
      Moved s .unlock (.ok .done)
        { s with
          inst := { s.inst with lock := s.inst.lock.release.2 }
          guarded := false }
  | published {k i : Nat} {mutation : Mutation α ρ} {observed : Bool} (h : s.Admits k i) :
      Moved s (.mutate k mutation observed) (.ok (.writer s.started))
        { s with
          inst := s.inst.publish i ⟨s.started, mutation, observed⟩
          started := s.started + 1 }
  | turnedAway {k : Nat} {mutation : Mutation α ρ} {observed : Bool} {slot : Slot}
      (hstyle : s.inst.style = .combining) (hslot : s.slot? k = some slot)
      (hissuer : slot.issuer ≠ s.inst.registry.id) :
      Moved s (.mutate k mutation observed) (.ok (.writer s.started))
        { s with
          inst := (s.inst.report (.misused .foreignSlot)).finish
            ⟨s.started, slot.index, observed, []⟩ (.error (.misuse .foreignSlot))
          started := s.started + 1 }

variable (s : Session γ κ δ α ρ)

lemma moved_register : Moved s .register (s.act .register).1 (s.act .register).2 := by
  simp only [act, Instance.register]
  split
  · rcases h : s.inst.registry.register with e | ⟨slot, registry⟩
    · exact .refused _ _ (.inl rfl)
    · exact .registered h
  · exact .refused _ _ (.inl rfl)

lemma moved_churn : Moved s .churn (s.act .churn).1 (s.act .churn).2 := by
  simp only [act, Instance.register]
  split
  · rcases h : s.inst.registry.register with e | ⟨slot, registry⟩
    · exact .refused _ _ (.inl rfl)
    · exact .churned h
  · exact .refused _ _ (.inl rfl)

lemma moved_foreign : Moved s .foreign (s.act .foreign).1 (s.act .foreign).2 := by
  simp only [act]
  split
  · rcases h : s.stranger.register with e | ⟨slot, stranger⟩
    · exact .refused _ _ (.inl rfl)
    · exact .foreignRegistered h
  · exact .refused _ _ (.inl rfl)

omit s in
/-- A slot that is not in use is released to its registry. -/
lemma drop_of_slot? {s : Session γ κ δ α ρ} (hslotted : Gate.slotted γ = true) {k : Nat}
    {slot : Slot} (hslot : s.slot? k = some slot) :
    s.act (.drop k) = if s.inUse slot then s.refuse .slotBusy
      else
        (.ok .done,
          if slot.issuer = s.inst.registry.id then
            { s with table := s.table.set k none, inst := s.inst.release slot }
          else { s with
            table := s.table.set k none, stranger := s.stranger.release slot.index }) := by
  simp only [act, hslotted, hslot, if_true]

lemma moved_drop (k : Nat) : Moved s (.drop k) (s.act (.drop k)).1 (s.act (.drop k)).2 := by
  by_cases hslotted : Gate.slotted γ = true
  · rcases hslot : s.slot? k with _ | slot
    · simp only [act, hslotted, hslot, if_true]
      exact .refused _ _ (.inl rfl)
    · rw [drop_of_slot? hslotted hslot]
      split
      · exact .refused _ _ (.inl rfl)
      · next huse =>
        by_cases hissuer : slot.issuer = s.inst.registry.id
        · rw [if_pos hissuer]
          exact .dropped hslot (Bool.eq_false_iff.2 huse) hissuer
        · rw [if_neg hissuer]
          exact .droppedForeign hslot hissuer
  · simp only [act, hslotted]
    exact .refused _ _ (.inl rfl)

lemma moved_arrive (k : Nat) : Moved s (.arrive k) (s.act (.arrive k)).1 (s.act (.arrive k)).2 := by
  simp only [act]
  rcases hstyle : s.inst.style with _ | _
  · rcases hslot : s.slot? k with _ | slot
    · exact .refused _ _ (.inl rfl)
    · rcases s.inst.arrive_cases slot with ⟨e, hrejects, h⟩ | ⟨ticket, gate, hissuer, harrive, h⟩
      · simp only [call, h]
        exact .refused _ _ (.inr ⟨e, hrejects, rfl⟩)
      · simp only [call, h]
        exact .arrived hstyle hslot hissuer harrive
  · exact .refused _ _ (.inl rfl)

lemma moved_depart (k n : Nat) :
    Moved s (.depart k n) (s.act (.depart k n)).1 (s.act (.depart k n)).2 := by
  simp only [act]
  rcases hstyle : s.inst.style with _ | _
  · rcases hslot : s.slot? k with _ | slot
    · exact .refused _ _ (.inl rfl)
    · by_cases hissuer : slot.issuer = s.inst.registry.id
      · simp only [call, Instance.depart, hissuer, if_true]
        rcases s.inst.dismiss_cases slot (Gate.ticket γ n) with
          ⟨events, gate, hdepart, h⟩ | ⟨m, gate, hdepart, h⟩
        · simp only [h]
          exact .departed hstyle hslot hissuer hdepart
        · simp only [h]
          exact .departFailed hstyle hslot hissuer hdepart
      · simp only [call, Instance.depart, hissuer, if_false]
        exact .refused _ _ (.inr ⟨.foreignSlot, .inl rfl, rfl⟩)
  · exact .refused _ _ (.inl rfl)

lemma moved_enter (k : Nat) : Moved s (.enter k) (s.act (.enter k)).1 (s.act (.enter k)).2 := by
  simp only [act]
  rcases hslot : s.slot? k with _ | slot
  · exact .refused _ _ (.inl rfl)
  · rcases s.inst.enter_cases slot with ⟨e, hrejects, h⟩ | ⟨ticket, gate, hissuer, harrive, h⟩
    · simp only [h]
      exact .refused _ _ (.inr ⟨e, hrejects, rfl⟩)
    · simp only [h]
      exact .entered hslot hissuer harrive

lemma moved_leave (gaveUp : Bool) :
    Moved s (.leave gaveUp) (s.act (.leave gaveUp)).1 (s.act (.leave gaveUp)).2 := by
  simp only [act, Instance.leave]
  rcases hvisits : s.visits with _ | ⟨v, visits⟩
  · exact .noQueryLeft gaveUp hvisits
  · -- the departure is made also when a query ends in a fault
    rcases s.inst.dismiss_cases v.slot v.ticket with
      ⟨events, gate, hdepart, h⟩ | ⟨m, gate, hdepart, h⟩
    · simp only [h]
      exact .left hvisits hdepart (by cases gaveUp <;> rfl)
    · simp only [h]
      cases gaveUp
      · exact .leaveFailed hvisits hdepart
      · exact .leaveFailed hvisits hdepart

lemma moved_lock : Moved s .lock (s.act .lock).1 (s.act .lock).2 := by
  simp only [act]
  split
  · exact .refused _ _ (.inl rfl)
  · next hfree =>
    simp only [Bool.or_eq_true, Bool.not_eq_eq_eq_not, Bool.not_true, not_or, Bool.not_eq_true,
      Bool.not_eq_false, List.isEmpty_iff] at hfree
    split
    · exact .refused _ _ (.inl rfl)
    · exact .refused _ _ (.inl rfl)
    · next lock hstyle hlock =>
      rcases hlocked : s.inst.lock.locked with _ | _
      · have hacquire : s.inst.lock.tryAcquire = some { s.inst.lock with locked := true } := by
          simp [SpinLock.tryAcquire, hlocked]
        cases hlock.symm.trans hacquire
        exact .locked hfree.1 hfree.2 hstyle hlocked
      · rw [SpinLock.tryAcquire_eq_none_iff.2 hlocked] at hlock
        cases hlock

lemma moved_unlock : Moved s .unlock (s.act .unlock).1 (s.act .unlock).2 := by
  simp only [act]
  split
  · next hguarded => exact .unlocked hguarded
  · exact .refused _ _ (.inl rfl)

omit s in
/-- Under the exclusive style a writer is admitted if no writer is inside. -/
lemma mutate_of_style {s : Session γ κ δ α ρ} (hstyle : s.inst.style = .exclusive) (k : Nat)
    (mutation : Mutation α ρ) (observed : Bool) :
    s.act (.mutate k mutation observed) = if s.inst.writers.isEmpty then
        (.ok (.writer s.started),
          { s with
            inst := s.inst.publish 0 ⟨s.started, mutation, observed⟩
            started := s.started + 1 })
      else s.refuse .busy := by
  simp only [act, writerBusy, Instance.mutate]
  rw [hstyle]
  cases s.inst.writers.isEmpty <;> rfl

omit s in
/-- Under the combining style a writer is admitted if its slot has no request, and finishes at once
if the slot is of another registry. -/
lemma mutate_of_combining {s : Session γ κ δ α ρ} (hstyle : s.inst.style = .combining) {k : Nat}
    {slot : Slot} (hslot : s.slot? k = some slot) (mutation : Mutation α ρ) (observed : Bool) :
    s.act (.mutate k mutation observed) = if s.hasRequest slot then s.refuse .busy
      else
        (.ok (.writer s.started),
          { s with
            inst := if slot.issuer = s.inst.registry.id then
                s.inst.publish slot.index ⟨s.started, mutation, observed⟩
              else (s.inst.report (.misused .foreignSlot)).finish
                ⟨s.started, slot.index, observed, []⟩ (.error (.misuse .foreignSlot))
            started := s.started + 1 }) := by
  simp only [act, writerBusy, hstyle, hslot, Option.getD_some, Instance.mutate]
  rfl

lemma moved_mutate (k : Nat) (mutation : Mutation α ρ) (observed : Bool) :
    Moved s (.mutate k mutation observed) (s.act (.mutate k mutation observed)).1
      (s.act (.mutate k mutation observed)).2 := by
  rcases hstyle : s.inst.style with _ | _
  · rw [mutate_of_style hstyle]
    split
    · next hfree => exact .published (.inl ⟨hstyle, List.isEmpty_iff.1 hfree, rfl⟩)
    · exact .refused _ _ (.inl rfl)
  · rcases hslot : s.slot? k with _ | slot
    · simp only [act, hstyle, hslot]
      exact .refused _ _ (.inl rfl)
    · rw [mutate_of_combining hstyle hslot]
      split
      · exact .refused _ _ (.inl rfl)
      · next hfree =>
        by_cases hissuer : slot.issuer = s.inst.registry.id
        · have hcell : ∀ w ∈ s.inst.writers, w.cell ≠ slot.index := by
            simpa [hasRequest, hstyle, hissuer] using hfree
          rw [if_pos hissuer]
          exact .published (.inr ⟨hstyle, slot, hslot, hissuer, rfl, hcell⟩)
        · rw [if_neg hissuer]
          exact .turnedAway hstyle hslot hissuer

/-- Every move has one of the listed effects. -/
lemma moved_act (m : Move α ρ) : Moved s m (s.act m).1 (s.act m).2 := by
  cases m with
  | look | text | next => exact .looked _ rfl
  | slot k =>
    have hstate : (s.act (.slot k)).2 = s := by
      simp only [act]
      split
      · split <;> rfl
      · rfl
    rw [hstate]
    exact .looked _ rfl
  | tryLock =>
    have hstate : (s.act .tryLock).2 = s := by
      simp only [act]
      split <;> rfl
    rw [hstate]
    exact .looked _ rfl
  | register => exact s.moved_register
  | churn => exact s.moved_churn
  | foreign => exact s.moved_foreign
  | drop k => exact s.moved_drop k
  | arrive k => exact s.moved_arrive k
  | depart k n => exact s.moved_depart k n
  | enter k => exact s.moved_enter k
  | leave gaveUp => exact s.moved_leave gaveUp
  | lock => exact s.moved_lock
  | unlock => exact s.moved_unlock
  | mutate k mutation observed => exact s.moved_mutate k mutation observed

end Session

/-! ## The tables -/

/-- An entry of a table extended by a slot is an entry of the table or that slot. -/
lemma getElem?_concat_slot {table : List (Option Slot)} {i : Nat} {slot new : Slot}
    (h : (table ++ [some new])[i]? = some (some slot)) :
    table[i]? = some (some slot) ∨ i = table.length ∧ new = slot := by
  rcases Nat.lt_trichotomy i table.length with hi | rfl | hi
  · rw [List.getElem?_append_left hi] at h
    exact .inl h
  · exact .inr ⟨rfl, by simpa using h⟩
  · rw [List.getElem?_eq_none (by rw [List.length_append]; exact hi)] at h
    cases h

/-- An entry of a table with a place vacated is an entry at another place. -/
lemma of_getElem?_vacated {table : List (Option Slot)} {i k : Nat} {slot : Slot}
    (h : (table.set k none)[i]? = some (some slot)) : i ≠ k ∧ table[i]? = some (some slot) := by
  rw [List.getElem?_set] at h
  split at h
  · split at h <;> cases h
  · next hne => exact ⟨Ne.symm hne, h⟩

namespace Session

lemma getElem?_of_slot? {s : Session γ κ δ α ρ} (hslotted : Gate.slotted γ = true) {k : Nat}
    {slot : Slot} (h : s.slot? k = some slot) : s.table[k]? = some (some slot) := by
  rw [slot?, if_pos hslotted] at h
  rcases htable : s.table[k]? with _ | o
  · rw [htable] at h
    cases h
  · rw [htable] at h
    exact congrArg some h

namespace Moved

variable {s t : Session γ κ δ α ρ} {m : Move α ρ} {r : Except Failure (Answer κ α)}

/-- A move does not change the suspended round. -/
lemma round_eq (h : s.Moved m r t) : t.inst.round = s.inst.round := by
  cases h <;> rfl

/-- A move does not change the style. -/
lemma style_eq (h : s.Moved m r t) : t.inst.style = s.inst.style := by
  cases h <;> rfl

/-- A move does not change the number of cells. -/
lemma length_cells (h : s.Moved m r t) : t.inst.cells.length = s.inst.cells.length := by
  cases h with
  | published => exact List.length_modify _ _ _
  | _ => rfl

/-- A move does not change the identity of the registry. -/
lemma registry_id (h : s.Moved m r t) : t.inst.registry.id = s.inst.registry.id := by
  cases h with
  | registered hregister => exact (Registry.register_spec hregister).2.1
  | churned hregister =>
    exact (Registry.id_release _ _).trans (Registry.register_spec hregister).2.1
  | dropped => exact Registry.id_release _ _
  | _ => rfl

/-- A move does not change the capacity of the registry. -/
lemma capacity_eq (h : s.Moved m r t) : t.inst.registry.capacity = s.inst.registry.capacity := by
  cases h with
  | registered hregister => exact (Registry.register_spec hregister).2.2.1
  | churned hregister =>
    exact (Registry.capacity_release _ _).trans (Registry.register_spec hregister).2.2.1
  | dropped => exact Registry.capacity_release _ _
  | _ => rfl

/-- A move does not change the identity of the other registry. -/
lemma stranger_id (h : s.Moved m r t) : t.stranger.id = s.stranger.id := by
  cases h with
  | foreignRegistered hregister => exact (Registry.register_spec hregister).2.1
  | droppedForeign => exact Registry.id_release _ _
  | _ => rfl

/-- A slot of the table was there before the move, or was claimed by it from one of the two
registries and appended. -/
lemma getElem?_table (h : s.Moved m r t) {i : Nat} {slot : Slot}
    (hslot : t.table[i]? = some (some slot)) :
    s.table[i]? = some (some slot) ∨ i = s.table.length ∧
      (s.inst.registry.register = .ok (slot, t.inst.registry) ∨
        m = .foreign ∧ slot.issuer = s.stranger.id) := by
  cases h with
  | registered hregister =>
    rcases getElem?_concat_slot hslot with hold | ⟨hplace, rfl⟩
    · exact .inl hold
    · exact .inr ⟨hplace, .inl hregister⟩
  | foreignRegistered hregister =>
    rcases getElem?_concat_slot hslot with hold | ⟨hplace, rfl⟩
    · exact .inl hold
    · exact .inr ⟨hplace, .inr ⟨rfl, (Registry.register_spec hregister).1⟩⟩
  | dropped | droppedForeign => exact .inl (of_getElem?_vacated hslot).2
  | _ => exact .inl hslot

lemma mem_table (h : s.Moved m r t) {slot : Slot} (hslot : some slot ∈ t.table) :
    some slot ∈ s.table ∨ s.inst.registry.register = .ok (slot, t.inst.registry) ∨
      m = .foreign ∧ slot.issuer = s.stranger.id := by
  obtain ⟨i, hi⟩ := List.mem_iff_getElem?.1 hslot
  exact (h.getElem?_table hi).imp List.mem_of_getElem? And.right

/-- A slot in use keeps its place in the table. -/
lemma getElem?_kept (hslotted : Gate.slotted γ = true) (h : s.Moved m r t) {k : Nat} {slot : Slot}
    (hslot : s.table[k]? = some (some slot)) (hissuer : slot.issuer = s.inst.registry.id)
    (huse : s.inUse slot = true) : t.table[k]? = some (some slot) := by
  have hlt : k < s.table.length := (List.getElem?_eq_some_iff.1 hslot).1
  have hother : ∀ {j : Nat} {other : Slot}, s.slot? j = some other → other ≠ slot →
      (s.table.set j none)[k]? = some (some slot) := by
    intro j other hj hother
    have hne : j ≠ k := by
      rintro rfl
      have hsame := (getElem?_of_slot? hslotted hj).symm.trans hslot
      exact hother (Option.some.inj (Option.some.inj hsame))
    rw [List.getElem?_set_ne hne]
    exact hslot
  cases h with
  | registered | foreignRegistered => exact (List.getElem?_append_left hlt).trans hslot
  | dropped hj hfree =>
    refine hother hj ?_
    rintro rfl
    cases hfree.symm.trans huse
  | droppedForeign hj hforeign =>
    refine hother hj ?_
    rintro rfl
    exact hforeign hissuer
  | _ => exact hslot

/-- A query under way was so before the move, or was begun by it with a slot of the table. -/
lemma mem_visits (h : s.Moved m r t) {v : Visit κ} (hv : v ∈ t.visits) :
    v ∈ s.visits ∨ v.slot.issuer = s.inst.registry.id ∧ t.table = s.table ∧
      ∃ k, s.slot? k = some v.slot := by
  cases h with
  | entered hslot hissuer =>
    rcases List.mem_cons.1 hv with rfl | hv
    · exact .inr ⟨hissuer, rfl, _, hslot⟩
    · exact .inl hv
  | left hvisits | leaveFailed hvisits => exact .inl (hvisits ▸ List.mem_cons_of_mem _ hv)
  | _ => exact .inl hv

end Moved

end Session

end TwinCopy
