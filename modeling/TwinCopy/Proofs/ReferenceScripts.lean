import TwinCopy.Proofs.CellInvariant
import TwinCopy.Proofs.Crossings
import TwinCopy.Proofs.ReferenceSimulation

/-!
# Scripts behind the reference gate

`Session.RefSim` lifts the simulation of the reference gate to sessions whose callers hold the same
lock and the same queries and have started as many writers. Moves that are meaningful for both gates
(`Move.Common`) preserve it and have the same answers up to the names of tickets, and so have
scripts of such moves (`RefSim.steps`). Two sessions that simulate the same reference session agree
with each other (`RefSim.sameProgress`).
-/

namespace TwinCopy

variable {γ κ δ κ' α ρ : Type}

/-- The current version, where the gate shows one. -/
def GateView.current? : GateView → Option Version
  | .versions current .. | .packed current .. => some current
  | .ingress .. => none

/-- The moves that are meaningful for every gate, with slots at the given places of the table only.
The move `next` is included if the first argument allows it. -/
def Move.Common (next : Prop) (places : Nat → Prop) : Move α ρ → Prop
  | .look | .leave _ | .lock | .unlock | .mutate .. => True
  | .next => next
  | .arrive k | .depart k _ | .enter k => places k
  | .text | .register | .churn | .foreign | .slot _ | .drop _ | .tryLock => False

instance (next : Prop) [Decidable next] (places : Nat → Prop) [DecidablePred places] :
    DecidablePred (Move.Common next places : Move α ρ → Prop)
  | .look | .leave _ | .lock | .unlock | .mutate .. => inferInstanceAs (Decidable True)
  | .next => inferInstanceAs (Decidable next)
  | .arrive k | .depart k _ | .enter k => inferInstanceAs (Decidable (places k))
  | .text | .register | .churn | .foreign | .slot _ | .drop _ | .tryLock =>
      inferInstanceAs (Decidable False)

/-- The moves that claim slots, look them up or give them back. -/
def Move.SlotOnly : Move α ρ → Prop
  | .register | .churn | .foreign | .slot _ | .drop _ => True
  | .look | .text | .next | .arrive _ | .depart .. | .enter _ | .leave _ | .lock | .unlock
  | .tryLock | .mutate .. => False

lemma Answer.mapTicket_mapTicket (name : κ → κ') (ticket : Side → κ) (a : Answer Side α) :
    (a.mapTicket ticket).mapTicket name = a.mapTicket (name ∘ ticket) := by
  cases a <;> rfl

namespace Session

variable [Gate γ κ δ]

lemma next_of_style (s : Session γ κ δ α ρ) (hstyle : s.inst.style = .exclusive) :
    s.act .next = (.ok (.next s.inst.activeSide.opposite
      ((Gate.view s.inst.gate).current?.map Version.next)), s) := by
  simp only [act, hstyle]
  rcases Gate.view s.inst.gate <;> rfl

lemma arrive_of_style {s : Session γ κ δ α ρ} {k : Nat} {slot : Slot}
    (hstyle : s.inst.style = .exclusive) (hslot : s.slot? k = some slot) :
    s.act (.arrive k) = s.call (s.inst.arrive slot) .ticket := by
  simp only [act]
  rw [hstyle, hslot]

lemma depart_of_style {s : Session γ κ δ α ρ} {k : Nat} {slot : Slot}
    (hstyle : s.inst.style = .exclusive) (hslot : s.slot? k = some slot)
    (hissuer : slot.issuer = s.inst.registry.id) (n : Nat) :
    s.act (.depart k n) = s.call (s.inst.dismiss slot (Gate.ticket γ n)) fun _ => .done := by
  simp only [act]
  rw [hstyle, hslot]
  simp only [Instance.depart, if_pos hissuer]

lemma lock_of_style {s : Session γ κ δ α ρ} (hstyle : s.inst.style = .exclusive) :
    s.act .lock = if s.guarded || !s.inst.writers.isEmpty then s.refuse .busy
      else match s.inst.lock.tryAcquire with
        | none => s.refuse .busy
        | some lock => (.ok .done, { s with inst := { s.inst with lock }, guarded := true }) := by
  simp only [act]
  rw [hstyle]
  split
  · rfl
  · cases s.inst.lock.tryAcquire <;> rfl

/-- At the reference gate every query is admitted. -/
lemma enter_refGate (s : Session RefGate Side Side α ρ) (k : Nat) :
    s.act (.enter k) = (.ok (.copy (s.inst.copies.get s.inst.gate.side)),
      { s with
        inst := { s.inst with gate := s.inst.gate.arrive }
        visits := ⟨s.inst.commonSlot, s.inst.gate.side, s.inst.gate.side⟩ :: s.visits }) := by
  simp only [act, show s.slot? k = some s.inst.commonSlot from rfl, Instance.enter_refGate]
  rfl

/-- No schedule changes the style. -/
lemma Reaches.style_eq {allowed : Move α ρ → Prop} {s t : Session γ κ δ α ρ}
    (h : s.Reaches allowed t) (hs : s.Exclusive .resting) : t.inst.style = s.inst.style := by
  obtain ⟨ticks, history, -, hafter⟩ := h hs []
  have hstyle := Point.style_after (p := ⟨[], s, .resting⟩) hs ticks
  rwa [hafter] at hstyle

/-- The instances of two sessions are related by `Instance.RefSim`, and their callers hold the same.
Each of the given places of the table holds a slot of the instance, where readers need slots. -/
structure RefSim (ticket : Side → κ) (shown : GateView → GateView)
    (fits : RefGate → γ → Option δ → Prop) (places : Nat → Prop) (s : Session RefGate Side Side α ρ)
    (t : Session γ κ δ α ρ) : Prop where
  inst : s.inst.RefSim shown fits t.inst
  style : s.inst.style = .exclusive
  guarded : t.guarded = s.guarded
  started : t.started = s.started
  visits : t.visits.map (fun v => (v.ticket, v.side)) =
    s.visits.map fun v => (ticket v.ticket, v.side)
  places : Gate.slotted γ = true → ∀ k, places k → ∃ slot, t.table[k]?.join = some slot ∧
    slot.issuer = 0
  exclusive : s.Exclusive .resting

/-- The answers are the same up to the names of tickets, and the sessions are related. -/
structure RefAnswersAgree (ticket : Side → κ) (shown : GateView → GateView)
    (fits : RefGate → γ → Option δ → Prop) (places : Nat → Prop)
    (r : Except Failure (Answer Side α) × Session RefGate Side Side α ρ)
    (r' : Except Failure (Answer κ α) × Session γ κ δ α ρ) : Prop where
  answer : r'.1 = r.1.map (·.mapTicket ticket)
  refSim : RefSim ticket shown fits places r.2 r'.2

variable {ticket : Side → κ} {shown : GateView → GateView} {fine : List Passage → Prop}
  {fits : RefGate → γ → Option δ → Prop} {places : Nat → Prop} {next : Prop}
  {s : Session RefGate Side Side α ρ} {t : Session γ κ δ α ρ}

namespace RefSim

lemma slot?_eq (h : RefSim ticket shown fits places s t) {k : Nat} (hk : places k) :
    ∃ slot, t.slot? k = some slot ∧ slot.issuer = 0 := by
  by_cases hslotted : Gate.slotted γ = true
  · simp only [slot?, hslotted, if_true]
    exact h.places hslotted k hk
  · obtain ⟨d, hsim, -⟩ := h.inst
    obtain ⟨n, hregistry⟩ := hsim.registry
    exact ⟨t.inst.commonSlot, by simp [slot?, hslotted], by rw [Instance.commonSlot, hregistry]⟩

lemma style_eq (h : RefSim ticket shown fits places s t) : t.inst.style = .exclusive :=
  h.inst.eqOffGate.style.trans h.style

lemma issuer_eq (h : RefSim ticket shown fits places s t) : t.inst.registry.id = 0 := by
  obtain ⟨d, hsim, -⟩ := h.inst
  obtain ⟨n, hregistry⟩ := hsim.registry
  rw [hregistry]

/-- The proof obligations for the sessions after a move. -/
lemma of_act (h : RefSim ticket shown fits places s t) {m : Move α ρ}
    {r : Except Failure (Answer Side α)} {s' : Session RefGate Side Side α ρ}
    (hact : s.act m = (r, s')) {t' : Session γ κ δ α ρ}
    (hinst : s'.inst.RefSim shown fits t'.inst) (hguarded : t'.guarded = s'.guarded)
    (hstarted : t'.started = s'.started)
    (hvisits : t'.visits.map (fun v => (v.ticket, v.side)) =
      s'.visits.map fun v => (ticket v.ticket, v.side))
    (htable : t'.table = t.table) : RefSim ticket shown fits places s' t' where
  inst := hinst
  style := by
    have hstyle := (s.moved_act m).style_eq
    rw [hact] at hstyle
    exact hstyle.trans h.style
  guarded := hguarded
  started := hstarted
  visits := hvisits
  places := htable ▸ h.places
  exclusive := by
    have hexclusive := h.exclusive.act m
    rwa [hact] at hexclusive

/-! ## Moves -/

lemma act_next (M : SimulatesRef ticket shown fine fits)
    (hshown : ∀ v, (shown v).current? = v.current?)
    (h : RefSim ticket shown fits places s t) (hfine : fine s.inst.gate.log) :
    RefAnswersAgree ticket shown fits places (s.act .next) (t.act .next) := by
  obtain ⟨d, hsim, -⟩ := h.inst
  have hcurrent := congrArg GateView.current? (M.shown_eq hsim.gate hfine)
  rw [hshown, hshown] at hcurrent
  rw [next_of_style s h.style, next_of_style t h.style_eq, hsim.activeSide_eq M, hcurrent]
  exact ⟨rfl, h⟩

lemma act_arrive (M : SimulatesRef ticket shown fine fits) (h : RefSim ticket shown fits places s t)
    {k : Nat} (hk : places k) (hfine : fine (s.act (.arrive k)).2.inst.gate.log) :
    RefAnswersAgree ticket shown fits places (s.act (.arrive k)) (t.act (.arrive k)) := by
  obtain ⟨slot, hslot, hissuer⟩ := h.slot?_eq hk
  have hs : s.act (.arrive k) = (.ok (.ticket s.inst.gate.side),
      { s with inst := { s.inst with gate := s.inst.gate.arrive } }) := by
    rw [arrive_of_style h.style (show s.slot? k = some s.inst.commonSlot from rfl),
      Instance.arrive_refGate, call]
  obtain ⟨d, hsim, hrounds⟩ := h.inst
  rw [hs] at hfine
  obtain ⟨gate, harrive, hgone⟩ := hsim.arrive M hfine hissuer
  rw [hs, arrive_of_style h.style_eq hslot, harrive, call]
  exact ⟨rfl, h.of_act hs ⟨d, hgone, hrounds.congr rfl rfl rfl⟩ h.guarded h.started h.visits rfl⟩

lemma act_depart (M : SimulatesRef ticket shown fine fits) (h : RefSim ticket shown fits places s t)
    {k : Nat} (hk : places k) (n : Nat) (hfine : fine (s.act (.depart k n)).2.inst.gate.log) :
    RefAnswersAgree ticket shown fits places (s.act (.depart k n)) (t.act (.depart k n)) := by
  obtain ⟨slot, hslot, hissuer⟩ := h.slot?_eq hk
  have hs := depart_of_style h.style (show s.slot? k = some s.inst.commonSlot from rfl) rfl n
  rw [hs] at hfine
  obtain ⟨hresult, hinst⟩ := h.inst.dismiss M (Gate.ticket RefGate n) s.inst.commonSlot slot hfine
  rw [hs, depart_of_style h.style_eq hslot (hissuer.trans h.issuer_eq.symm) n, M.ticket_eq]
  refine ⟨?_, h.of_act hs hinst h.guarded h.started h.visits rfl⟩
  simp only [call, hresult]
  rcases (s.inst.dismiss s.inst.commonSlot (Gate.ticket RefGate n)).1 with f | ⟨⟨⟩⟩ <;> rfl

lemma act_enter (M : SimulatesRef ticket shown fine fits) (h : RefSim ticket shown fits places s t)
    {k : Nat} (hk : places k) (hfine : fine (s.act (.enter k)).2.inst.gate.log) :
    RefAnswersAgree ticket shown fits places (s.act (.enter k)) (t.act (.enter k)) := by
  obtain ⟨slot, hslot, hissuer⟩ := h.slot?_eq hk
  have hs := s.enter_refGate k
  obtain ⟨d, hsim, hrounds⟩ := h.inst
  rw [hs] at hfine
  obtain ⟨gate, henter, hgone⟩ := hsim.enter M hfine hissuer
  rw [hs]
  simp only [act, hslot, henter]
  refine ⟨?_, h.of_act hs ⟨d, hgone, hrounds.congr rfl rfl rfl⟩ h.guarded h.started ?_ rfl⟩
  · rw [Instance.given, hsim.eqOffGate.copies]
    rfl
  · simp only [List.map_cons, h.visits]

lemma act_leave (M : SimulatesRef ticket shown fine fits) (h : RefSim ticket shown fits places s t)
    (gaveUp : Bool) (hfine : fine (s.act (.leave gaveUp)).2.inst.gate.log) :
    RefAnswersAgree ticket shown fits places (s.act (.leave gaveUp)) (t.act (.leave gaveUp)) := by
  have hvisits := h.visits
  rcases hs : s.visits with _ | ⟨v, visits⟩
  · rw [hs, List.map_nil, List.map_eq_nil_iff] at hvisits
    simp only [act, hs, hvisits]
    exact ⟨rfl, h⟩
  · rw [hs, List.map_cons] at hvisits
    obtain ⟨v', visits', ht, hv, hrest⟩ := List.map_eq_cons_iff.1 hvisits
    obtain ⟨hticket, hside⟩ := Prod.mk.inj hv
    have hact : s.act (.leave gaveUp) = ((s.act (.leave gaveUp)).1,
        { s with inst := (s.inst.dismiss v.slot v.ticket).2, visits }) := by
      simp only [act, hs, Instance.leave]
    rw [hact] at hfine
    obtain ⟨hresult, hinst⟩ := h.inst.dismiss M v.ticket v.slot v'.slot hfine
    have hgiven : t.inst.given v' = s.inst.given v := by
      rw [Instance.given, Instance.given, h.inst.eqOffGate.copies, hside]
    have hnext : RefSim ticket shown fits places
        { s with inst := (s.inst.dismiss v.slot v.ticket).2, visits }
        { t with inst := (t.inst.dismiss v'.slot v'.ticket).2, visits := visits' } :=
      h.of_act hact (by rwa [hticket]) h.guarded h.started hrest rfl
    refine ⟨?_, ?_⟩
    · simp only [act, hs, ht, Instance.leave, hticket, hresult, hgiven]
      rcases (s.inst.dismiss v.slot v.ticket).1 with f | ⟨⟨⟩⟩ <;> cases gaveUp <;> rfl
    · rw [hact]
      simpa only [act, ht, Instance.leave] using hnext

lemma refuse (h : RefSim ticket shown fits places s t) (r : Refusal) :
    RefAnswersAgree ticket shown fits places (s.refuse r) (t.refuse r) :=
  ⟨rfl, h⟩

lemma act_lock (h : RefSim ticket shown fits places s t) :
    RefAnswersAgree ticket shown fits places (s.act .lock) (t.act .lock) := by
  have hs := lock_of_style h.style
  have ht := lock_of_style h.style_eq
  rw [h.guarded, h.inst.eqOffGate.writers_isEmpty, h.inst.eqOffGate.lock] at ht
  split at hs
  · next hbusy =>
    rw [if_pos hbusy] at ht
    rw [hs, ht]
    exact h.refuse .busy
  · next hbusy =>
    rw [if_neg hbusy] at ht
    rcases hlock : s.inst.lock.tryAcquire with _ | lock
    · rw [hlock] at hs ht
      rw [hs, ht]
      exact h.refuse .busy
    · rw [hlock] at hs ht
      rw [hs, ht]
      exact ⟨rfl, h.of_act hs (h.inst.relock lock) rfl h.started h.visits rfl⟩

lemma act_unlock (h : RefSim ticket shown fits places s t) :
    RefAnswersAgree ticket shown fits places (s.act .unlock) (t.act .unlock) := by
  rcases hguarded : s.guarded with _ | _
  · have hs : s.act .unlock = s.refuse .notLocked := by
      simp only [act, hguarded, Bool.false_eq_true, if_false]
    have ht : t.act .unlock = t.refuse .notLocked := by
      simp only [act, h.guarded, hguarded, Bool.false_eq_true, if_false]
    rw [hs, ht]
    exact h.refuse .notLocked
  · have hs : s.act .unlock = (.ok .done, { s with
        inst := { s.inst with lock := s.inst.lock.release.2 }, guarded := false }) := by
      simp only [act, hguarded, if_true]
    rw [hs]
    simp only [act, h.guarded, hguarded, if_true, h.inst.eqOffGate.lock]
    exact ⟨rfl, h.of_act hs (h.inst.relock _) rfl h.started h.visits rfl⟩

lemma act_mutate (h : RefSim ticket shown fits places s t) (k : Nat) (mutation : Mutation α ρ)
    (observed : Bool) :
    RefAnswersAgree ticket shown fits places (s.act (.mutate k mutation observed))
      (t.act (.mutate k mutation observed)) := by
  have hs := mutate_of_style h.style k mutation observed
  rw [mutate_of_style h.style_eq, h.inst.eqOffGate.writers_isEmpty, h.started]
  split at hs
  · next hfree =>
    rw [hs, if_pos hfree]
    exact ⟨rfl, h.of_act hs (h.inst.publish 0 _) h.guarded rfl h.visits rfl⟩
  · next hbusy =>
    rw [hs, if_neg hbusy]
    exact h.refuse .busy

/-- Every common move has the same answer, up to the names of tickets, and leads to related
sessions. -/
lemma act (M : SimulatesRef ticket shown fine fits)
    (hshown : next → ∀ v, (shown v).current? = v.current?)
    (h : RefSim ticket shown fits places s t) {m : Move α ρ} (hm : m.Common next places)
    (hfine : fine (s.act m).2.inst.gate.log) :
    RefAnswersAgree ticket shown fits places (s.act m) (t.act m) := by
  cases m with
  | look => exact ⟨rfl, h⟩
  | next => exact h.act_next M (hshown hm) hfine
  | arrive k => exact h.act_arrive M hm hfine
  | depart k n => exact h.act_depart M hm n hfine
  | enter k => exact h.act_enter M hm hfine
  | leave gaveUp => exact h.act_leave M gaveUp hfine
  | lock => exact h.act_lock
  | unlock => exact h.act_unlock
  | mutate k mutation observed => exact h.act_mutate k mutation observed
  | text | register | churn | foreign | slot | drop | tryLock => exact absurd hm id

/-- A common move, followed by the steps of the writers. -/
lemma perform (M : SimulatesRef ticket shown fine fits)
    (hshown : next → ∀ v, (shown v).current? = v.current?)
    (h : RefSim ticket shown fits places s t) {m : Move α ρ} (hm : m.Common next places)
    (hfine : fine (s.perform m).2.inst.gate.log) :
    RefAnswersAgree ticket shown fits places (s.perform m) (t.perform m) := by
  have hreaches : s.Reaches (fun _ => True) (s.perform m).2 := s.reaches_perform trivial
  have hcharge := (h.exclusive.act m).inCharge
  have hact := h.act M hshown hm (M.fine_of_suffix (Instance.leads_settle hcharge).suffix hfine)
  exact ⟨hact.answer,
    { hact.refSim with
      inst := hact.refSim.inst.settle M hcharge hfine
      style := (hreaches.style_eq h.exclusive).trans h.style
      exclusive := (hreaches.suffix h.exclusive).2 }⟩

lemma performAll (M : SimulatesRef ticket shown fine fits)
    (hshown : next → ∀ v, (shown v).current? = v.current?)
    (h : RefSim ticket shown fits places s t) {moves : List (Move α ρ)}
    (hmoves : ∀ m ∈ moves, m.Common next places) (hfine : fine (s.performAll moves).inst.gate.log) :
    RefSim ticket shown fits places (s.performAll moves) (t.performAll moves) := by
  induction moves generalizing s t with
  | nil => exact h
  | cons m moves ih =>
    obtain ⟨hm, hrest⟩ := List.forall_mem_cons.1 hmoves
    have hsuffix := suffix_performAll (suffix_perform h.exclusive m).2 moves
    exact ih (h.perform M hshown hm (M.fine_of_suffix hsuffix.1 hfine)).refSim hrest hfine

/-! ## Operations -/

/-- One read without operations of its own. -/
lemma readOnce (M : SimulatesRef ticket shown fine fits)
    (hshown : next → ∀ v, (shown v).current? = v.current?)
    (h : RefSim ticket shown fits places s t) {k : Nat} (hk : places k) (gaveUp : Bool)
    (hfine : fine (s.readOnce k gaveUp).2.inst.gate.log) :
    RefAnswersAgree ticket shown fits places (s.readOnce k gaveUp) (t.readOnce k gaveUp) := by
  have henter := h.perform (m := .enter k) M hshown hk
  have hexclusive := (suffix_perform h.exclusive (.enter k)).2
  unfold Session.readOnce at hfine ⊢
  rcases hs : s.perform (.enter k) with ⟨f | a, s'⟩ <;>
    rcases ht : t.perform (.enter k) with ⟨r', t'⟩ <;>
    simp only [hs, ht] at henter hexclusive hfine ⊢
  · obtain ⟨rfl, href⟩ := henter hfine
    exact ⟨rfl, href⟩
  · have hsuffix := suffix_perform hexclusive (.leave gaveUp)
    obtain ⟨rfl, href⟩ := henter (M.fine_of_suffix hsuffix.1 hfine)
    exact href.perform M hshown (m := .leave gaveUp) trivial hfine

/-- The simulation of one action carries over to its repetition. -/
lemma repeating (M : SimulatesRef ticket shown fine fits)
    {act : Session RefGate Side Side α ρ →
      Except Failure (Answer Side α) × Session RefGate Side Side α ρ}
    {act' : Session γ κ δ α ρ → Except Failure (Answer κ α) × Session γ κ δ α ρ}
    (hreaches : ∀ s, Reaches (fun _ => True) s (act s).2)
    (hact : ∀ {s t}, RefSim ticket shown fits places s t → fine (act s).2.inst.gate.log →
      RefAnswersAgree ticket shown fits places (act s) (act' t))
    (n done : Nat) (last : Answer Side α) (h : RefSim ticket shown fits places s t)
    (hfine : fine (Session.repeating act done n last s).2.inst.gate.log) :
    RefAnswersAgree ticket shown fits places (Session.repeating act done n last s)
      (Session.repeating act' done n (last.mapTicket ticket) t) := by
  induction n generalizing done last s t with
  | zero => exact ⟨rfl, h⟩
  | succ n ih =>
    have hsuffix := (hreaches s).suffix h.exclusive
    have hfirst := hact h
    unfold Session.repeating at hfine ⊢
    rcases hs : act s with ⟨f | a, s'⟩ <;> rcases ht : act' t with ⟨r', t'⟩ <;>
      simp only [hs, ht] at hsuffix hfirst hfine ⊢
    · have hfine' : fine s'.inst.gate.log := by cases f <;> exact hfine
      obtain ⟨rfl, href⟩ := hfirst hfine'
      cases f <;> exact ⟨rfl, href⟩
    · have hrest := (reaches_runRelation.repeating hreaches n (done + 1) a s').suffix hsuffix.2
      obtain ⟨rfl, href⟩ := hfirst (M.fine_of_suffix hrest.1 hfine)
      exact ih (done + 1) a href hfine

lemma repeatedly (M : SimulatesRef ticket shown fine fits)
    {act : Session RefGate Side Side α ρ →
      Except Failure (Answer Side α) × Session RefGate Side Side α ρ}
    {act' : Session γ κ δ α ρ → Except Failure (Answer κ α) × Session γ κ δ α ρ}
    (hreaches : ∀ s, Reaches (fun _ => True) s (act s).2)
    (hact : ∀ {s t}, RefSim ticket shown fits places s t → fine (act s).2.inst.gate.log →
      RefAnswersAgree ticket shown fits places (act s) (act' t))
    (n : Nat) (h : RefSim ticket shown fits places s t)
    (hfine : fine (s.repeatedly n act).2.inst.gate.log) :
    RefAnswersAgree ticket shown fits places (s.repeatedly n act) (t.repeatedly n act') := by
  unfold Session.repeatedly at hfine ⊢
  by_cases hn : n = 1
  · rw [if_pos hn] at hfine
    rw [if_pos hn, if_pos hn]
    exact hact h hfine
  · rw [if_neg hn] at hfine
    rw [if_neg hn, if_neg hn]
    exact repeating M hreaches hact n 0 .done h hfine

end RefSim

/-! ## Scripts -/

/-- Agreement of answers is preserved by functions that commute with the renaming of tickets. -/
lemma RefAnswersAgree.map {r : Except Failure (Answer Side α) × Session RefGate Side Side α ρ}
    {r' : Except Failure (Answer κ α) × Session γ κ δ α ρ}
    (h : RefAnswersAgree ticket shown fits places r r') {f : Answer Side α → Answer Side α}
    {f' : Answer κ α → Answer κ α} (hf : ∀ a, f' (a.mapTicket ticket) = (f a).mapTicket ticket) :
    RefAnswersAgree ticket shown fits places (r.1.map f, r.2) (r'.1.map f', r'.2) := by
  refine ⟨?_, h.refSim⟩
  rw [h.answer]
  rcases r.1 with e | a
  · rfl
  · exact congrArg _ (hf a)

lemma RefAnswersAgree.close {r : Except Failure (Answer Side α) × Session RefGate Side Side α ρ}
    {r' : Except Failure (Answer κ α) × Session γ κ δ α ρ} (M : SimulatesRef ticket shown fine fits)
    (h : RefAnswersAgree ticket shown fits places r r') (hfine : fine r.2.inst.gate.log)
    (name : κ → κ') (inner : Option (List (Step Side α ρ))) (inner' : Option (List (Step κ α ρ)))
    (hinner : inner'.map (Step.mapAll name shown) =
      inner.map (Step.mapAll (name ∘ ticket) shown)) :
    (r'.2.close r'.1 inner').1.map name shown =
        (r.2.close r.1 inner).1.map (name ∘ ticket) shown ∧
      RefSim ticket shown fits places (r.2.close r.1 inner).2 (r'.2.close r'.1 inner').2 := by
  obtain ⟨hanswer, href⟩ := h
  obtain ⟨d, hsim, hrounds⟩ := href.inst
  have hfinished := hsim.eqOffGate.finished
  refine ⟨?_, { href with
    inst := ⟨d, ⟨{ hsim.eqOffGate with finished := rfl }, hsim.gate, hsim.registry⟩,
      hrounds.congr rfl rfl rfl⟩
    exclusive := href.exclusive.congr rfl rfl rfl }⟩
  have hsame : r'.1.map (·.mapTicket name) = r.1.map (·.mapTicket (name ∘ ticket)) := by
    rw [hanswer]
    rcases r.1 with f | a
    · rfl
    · exact congrArg _ (a.mapTicket_mapTicket name ticket)
  cases inner <;> cases inner' <;>
    simp only [Option.map_none, Option.map_some, Option.some.injEq, reduceCtorEq] at hinner
  · simp only [Session.close, Step.map, hsame, hsim.view_eq M hfine,
      Finished.map_inOrder, hfinished]
  · simp only [Session.close, Step.map, hsame, hsim.view_eq M hfine,
      Finished.map_inOrder, hfinished, hinner]

variable (name : κ → κ')

mutual

lemma RefSim.step (M : SimulatesRef ticket shown fine fits)
    (hshown : next → ∀ v, (shown v).current? = v.current?)
    {s : Session RefGate Side Side α ρ} {t : Session γ κ δ α ρ}
    (h : RefSim ticket shown fits places s t) (o : Operation α ρ)
    (ho : ∀ m ∈ o.moves, m.Common next places) (hfine : fine (s.step o).2.inst.gate.log) :
    (t.step o).1.map name shown = (s.step o).1.map (name ∘ ticket) shown ∧
      RefSim ticket shown fits places (s.step o).2 (t.step o).2 := by
  match o with
  | .single m =>
    simp only [Session.step] at hfine ⊢
    have hm := ho m (by simp [Operation.moves])
    exact (h.perform M hshown hm hfine).close M hfine name none none rfl
  | .times n m =>
    have hm := ho m (by simp [Operation.moves])
    simp only [Session.step] at hfine ⊢
    exact (h.repeatedly M (fun s => s.reaches_perform trivial)
      (fun h hfine => h.perform M hshown hm hfine) n hfine).close M hfine name none none rfl
  | .churn n => exact absurd (ho .churn (by simp [Operation.moves])) id
  | .read k n gaveUp =>
    have hk : places k := ho (.enter k) (by simp [Operation.moves])
    simp only [Session.step] at hfine ⊢
    exact (h.repeatedly M (fun s => reaches_runRelation.readOnce s trivial trivial)
      (fun h hfine => h.readOnce M hshown hk gaveUp hfine) n hfine).close M hfine name none none rfl
  | .query k gaveUp body =>
    have hk : (Move.enter k : Move α ρ).Common next places := ho _ (by simp [Operation.moves])
    have hbody : ∀ m ∈ Operation.movesOfAll body, m.Common next places :=
      fun m hm => ho m (by simp [Operation.moves, hm])
    have henter := h.perform M hshown hk
    have hbegun := suffix_perform h.exclusive (.enter k)
    obtain ⟨before, s', hs⟩ : ∃ before s', s.perform (.enter k) = (.ok (.copy before), s') := by
      simp only [Session.perform, enter_refGate]
      exact ⟨_, _, rfl⟩
    rcases ht : t.perform (.enter k) with ⟨r', t'⟩
    simp only [Session.step, hs, ht] at henter hbegun hfine ⊢
    have hdone := suffix_steps hbegun.2 body
    have hleft := suffix_perform hdone.2 (.leave gaveUp)
    have hfine' : fine (s'.steps body).2.inst.gate.log := M.fine_of_suffix hleft.1 hfine
    obtain ⟨hanswer, href⟩ := henter (M.fine_of_suffix hdone.1 hfine')
    have hbefore : r' = .ok (.copy before) := hanswer
    subst hbefore
    -- the log at the end of the body is a suffix of the one after the query is left
    obtain ⟨hsteps, hend⟩ := RefSim.steps M hshown href body hbody hfine'
    have hleave := hend.perform (m := .leave gaveUp) M hshown trivial hfine
    refine (hleave.map fun a => ?_).close M hfine name (some (s'.steps body).1)
      (some (t'.steps body).1) (congrArg some hsteps)
    cases a <;> rfl
  | .refused r =>
    simp only [Session.step] at hfine ⊢
    exact (h.refuse r).close M hfine name none none rfl

lemma RefSim.steps (M : SimulatesRef ticket shown fine fits)
    (hshown : next → ∀ v, (shown v).current? = v.current?)
    {s : Session RefGate Side Side α ρ} {t : Session γ κ δ α ρ}
    (h : RefSim ticket shown fits places s t) (os : List (Operation α ρ))
    (hos : ∀ m ∈ Operation.movesOfAll os, m.Common next places)
    (hfine : fine (s.steps os).2.inst.gate.log) :
    Step.mapAll name shown (t.steps os).1 =
        Step.mapAll (name ∘ ticket) shown (s.steps os).1 ∧
      RefSim ticket shown fits places (s.steps os).2 (t.steps os).2 := by
  match os with
  | [] =>
    simp only [Session.steps, Step.mapAll]
    exact ⟨trivial, h⟩
  | o :: os =>
    simp only [Session.steps, Step.mapAll] at hfine ⊢
    have hrest := suffix_steps (suffix_step h.exclusive o).2 os
    obtain ⟨hstep, href⟩ := RefSim.step M hshown h o
      (fun m hm => hos m (by simp [Operation.movesOfAll, hm])) (M.fine_of_suffix hrest.1 hfine)
    obtain ⟨hsteps, hend⟩ := RefSim.steps M hshown href os
      (fun m hm => hos m (by simp [Operation.movesOfAll, hm])) hfine
    exact ⟨by rw [hstep, hsteps], hend⟩

end

/-! ## Comparing two simulations -/

/-- Two sessions, possibly with different types of gate, have the same active side, copies and lock,
the same writers inside, and a suspended round in both or in neither. -/
structure SameProgress {γ' κ' δ' : Type} [Gate γ' κ' δ'] (s : Session γ κ δ α ρ)
    (t : Session γ' κ' δ' α ρ) : Prop where
  side : t.inst.activeSide = s.inst.activeSide
  copies : t.inst.copies = s.inst.copies
  lock : t.inst.lock = s.inst.lock
  writers : t.inst.writers.map (·.id) = s.inst.writers.map (·.id)
  suspended : t.inst.round.isSome = s.inst.round.isSome

/-- Two sessions that simulate the same reference session agree with each other. -/
lemma RefSim.sameProgress {γ' κ' δ' : Type} [Gate γ' κ' δ'] {ticket' : Side → κ'}
    {shown' : GateView → GateView} {fine' : List Passage → Prop}
    {fits' : RefGate → γ' → Option δ' → Prop} {places' : Nat → Prop} {u : Session γ' κ' δ' α ρ}
    (M : SimulatesRef ticket shown fine fits) (M' : SimulatesRef ticket' shown' fine' fits')
    (h : RefSim ticket shown fits places s t) (h' : RefSim ticket' shown' fits' places' s u) :
    SameProgress t u := by
  obtain ⟨d, hsim, -⟩ := h.inst
  obtain ⟨d', hsim', -⟩ := h'.inst
  exact ⟨(hsim'.activeSide_eq M').trans (hsim.activeSide_eq M).symm,
    hsim'.eqOffGate.copies.trans hsim.eqOffGate.copies.symm,
    hsim'.eqOffGate.lock.trans hsim.eqOffGate.lock.symm,
    hsim'.eqOffGate.ids.trans hsim.eqOffGate.ids.symm,
    h'.inst.round_isSome.trans h.inst.round_isSome.symm⟩

/-- A script ends with the same copies, or with the same writers unfinished. -/
lemma RefSim.ending_eq (h : RefSim ticket shown fits places s t) : t.ending = s.ending := by
  rw [ending, ending, h.inst.eqOffGate.writers_isEmpty, h.inst.eqOffGate.copies,
    h.inst.eqOffGate.ids]

/-! ## The start -/

/-- Sessions of fresh instances are related if the gate is related to the fresh reference gate. -/
lemma refSim_fresh {init : Copies α} {gate : γ} (wait : WaitPolicy)
    (hgate : fits .fresh gate none) (hplaces : Gate.slotted γ = true → ∀ k, ¬ places k) :
    RefSim ticket shown fits places (.ofInstance (RefGate.freshInstance init wait))
      (.ofInstance (.fresh .exclusive init gate (.unbounded 0) 1 wait) : Session γ κ δ α ρ) where
  inst := ⟨none, ⟨⟨rfl, rfl, rfl, rfl, rfl, rfl, rfl, rfl⟩, hgate, 0, rfl⟩, .idle rfl rfl⟩
  style := rfl
  guarded := rfl
  started := rfl
  visits := rfl
  places hslotted k hk := absurd hk (hplaces hslotted k)
  exclusive := exclusive_fresh _ _ _ _ _ _

namespace RefSim

/-- Without places to respect, the relation does not depend on registry, log and table. -/
lemma withRegistry (h : RefSim ticket shown fits (fun _ => False) s t) {registry : Registry}
    (hregistry : ∃ next, registry = ⟨0, .unbounded next⟩) (log : List Event)
    (table : List (Option Slot)) (stranger : Registry) :
    RefSim ticket shown fits (fun _ => False) s
      { t with inst := { t.inst with registry, log }, table, stranger } := by
  obtain ⟨d, hsim, hrounds⟩ := h.inst
  exact { h with
    inst := ⟨d, ⟨{ hsim.eqOffGate with }, hsim.gate, hregistry⟩, hrounds.congr rfl rfl rfl⟩
    places := fun _ _ => False.elim }

lemma act_slotOnly (h : RefSim ticket shown fits (fun _ => False) s t) {m : Move α ρ}
    (hm : m.SlotOnly) : RefSim ticket shown fits (fun _ => False) s (t.act m).2 := by
  obtain ⟨next, hregistry⟩ : ∃ next, t.inst.registry = ⟨0, .unbounded next⟩ := by
    obtain ⟨d, hsim, -⟩ := h.inst
    exact hsim.registry
  have hregister : ∀ {slot : Slot} {registry : Registry},
      t.inst.registry.register = .ok (slot, registry) → registry = ⟨0, .unbounded (next + 1)⟩ := by
    intro slot registry hok
    rw [hregistry] at hok
    exact (Prod.mk.inj (Except.ok.inj hok)).2.symm
  have hmoved := t.moved_act m
  revert hmoved
  generalize (t.act m).1 = r
  generalize (t.act m).2 = t'
  intro hmoved
  cases hmoved with
  | refused => exact h.withRegistry ⟨next, hregistry⟩ _ _ _
  | looked => exact h
  | registered hok => exact h.withRegistry ⟨_, hregister hok⟩ _ _ _
  | churned hok => exact h.withRegistry ⟨next + 1, by rw [hregister hok]; rfl⟩ _ _ _
  | foreignRegistered => exact h.withRegistry ⟨next, hregistry⟩ _ _ _
  | dropped => exact h.withRegistry ⟨next, by rw [hregistry]; rfl⟩ _ _ _
  | droppedForeign => exact h.withRegistry ⟨next, hregistry⟩ _ _ _
  | _ => exact absurd hm id

/-- While no writer is inside, moves on slots preserve the relation to an unchanged reference
session. -/
lemma performAll_slotOnly (h : RefSim ticket shown fits (fun _ => False) s t)
    (hwriters : s.inst.writers = []) {moves : List (Move α ρ)} (hmoves : ∀ m ∈ moves, m.SlotOnly) :
    RefSim ticket shown fits (fun _ => False) s (t.performAll moves) := by
  induction moves generalizing t with
  | nil => exact h
  | cons m moves ih =>
    obtain ⟨hm, hrest⟩ := List.forall_mem_cons.1 hmoves
    have hact := h.act_slotOnly hm
    have habsent : (t.act m).2.inst.writers.isEmpty = true := by
      rw [hact.inst.eqOffGate.writers_isEmpty, hwriters]
      rfl
    have hperform : (t.perform m).2 = (t.act m).2 := by
      simp only [Session.perform, Instance.settle, habsent, if_true]
    rw [performAll_cons, hperform]
    exact ih hact hrest

/-- The places that hold a slot of the instance may be used. -/
lemma of_own (h : RefSim ticket shown fits places s t) :
    RefSim ticket shown fits (fun k => (t.own? k).isSome) s t := by
  refine { h with places := fun hslotted k hk => ?_ }
  obtain ⟨slot, hown⟩ := Option.isSome_iff_exists.1 hk
  obtain ⟨hslot, hissuer⟩ := Option.filter_eq_some_iff.1 hown
  rw [slot?, if_pos hslotted] at hslot
  exact ⟨slot, hslot, (of_decide_eq_true hissuer).trans h.issuer_eq⟩

end RefSim

end Session

end TwinCopy
