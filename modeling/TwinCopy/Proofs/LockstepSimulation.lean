import TwinCopy.Proofs.ReferenceScripts
import TwinCopy.Proofs.ScriptSimulation
import TwinCopy.Proofs.GateSimulation

/-!
# Lock-step simulation of sessions

`Session.LockstepSim` lifts `Instance.Sim` to sessions: the instances are related, and the callers
of both sessions hold the same slots, the same lock and the same queries. Moves preserve it and have
answers with the same projection. Reads and moves on slots do so whatever the styles of the two
instances are, the remaining moves if the styles are equal (section `Styled`). `SettledSim` is the
relation between two operations of a script, when the writers are done or wait, and
`SettledSim.scriptSim` makes it a simulation of scripts.
-/

namespace TwinCopy

/-- Views with the same projection are equal, or they show no version and their texts have the same
projection. -/
def Projection.Faithful (l : Projection) : Prop :=
  ∀ v v' : View, v'.mapGate l.gate = v.mapGate l.gate → v' = v ∨
    v.gate.current? = none ∧ v'.gate.current? = none ∧
      l.text (v'.wordText?.getD "") = l.text (v.wordText?.getD "")

lemma Projection.full_faithful : Projection.full.Faithful :=
  fun _ _ h => .inl h

namespace Session

open Instance

variable {γ κ δ γ' δ' α ρ : Type} [Gate γ κ δ] [Gate γ' κ δ']

/-- The instances of two sessions are related by `Instance.Sim`, and the sessions agree in all other
components. -/
structure LockstepSim (l : Projection) (Rel : γ → γ' → Option (Phase (δ × δ')) → Prop)
    (place : Nat → Nat) (s : Session γ κ δ α ρ) (t : Session γ' κ δ' α ρ) : Prop where
  inst : Sim l Rel place s.inst t.inst
  table : t.table = s.table
  stranger : t.stranger = s.stranger
  guarded : t.guarded = s.guarded
  visits : t.visits = s.visits
  started : t.started = s.started
  exclusive : s.Exclusive .resting

variable {l : Projection} {fine : γ' → Prop} {Rel : γ → γ' → Option (Phase (δ × δ')) → Prop}
  {place : Nat → Nat} {s : Session γ κ δ α ρ} {t : Session γ' κ δ' α ρ}

namespace LockstepSim

lemma slot?_eq (K : GateSim l fine Rel) (h : LockstepSim l Rel place s t) (k : Nat) :
    t.slot? k = s.slot? k := by
  rw [slot?, K.slotted_eq, h.table, Instance.commonSlot, h.inst.obsEq.registry]
  rfl

/-- The proof obligations for one move: the answers, the instances after it, and the components of
the sessions. -/
lemma of_act (h : LockstepSim l Rel place s t) {m : Move α ρ} {r r' : Except Failure (Answer κ α)}
    {s' : Session γ κ δ α ρ} {t' : Session γ' κ δ' α ρ} (hs : s.act m = (r, s'))
    (ht : t.act m = (r', t')) (hanswer : r'.map (·.project l) = r.map (·.project l))
    {p : Option (Phase (δ × δ'))} (hrounds : SameRound place s.inst t.inst p)
    (hinst : SimAt l Rel place s'.inst t'.inst p) (htable : t'.table = s'.table)
    (hstranger : t'.stranger = s'.stranger) (hguarded : t'.guarded = s'.guarded)
    (hvisits : t'.visits = s'.visits) (hstarted : t'.started = s'.started) :
    AnswersAgree l (LockstepSim l Rel place) (s.act m) (t.act m) := by
  have hround := (s.moved_act m).round_eq
  have hround' := (t.moved_act m).round_eq
  have hexclusive := h.exclusive.act m
  rw [hs] at hround hexclusive
  rw [ht] at hround'
  rw [hs, ht]
  exact ⟨hanswer, ⟨p, hinst, hrounds.congr hround hround'⟩, htable, hstranger, hguarded, hvisits,
    hstarted, hexclusive⟩

/-- Moves that change neither session. -/
lemma of_same (h : LockstepSim l Rel place s t) {m : Move α ρ} {r r' : Except Failure (Answer κ α)}
    (hs : s.act m = (r, s)) (ht : t.act m = (r', t))
    (hanswer : r'.map (·.project l) = r.map (·.project l)) :
    AnswersAgree l (LockstepSim l Rel place) (s.act m) (t.act m) := by
  rw [hs, ht]
  exact ⟨hanswer, h⟩

/-- Moves that call a function of the instance. -/
lemma of_call {β : Type} (h : LockstepSim l Rel place s t) {m : Move α ρ}
    {r : Except Fault β × Instance γ δ α ρ} {r' : Except Fault β × Instance γ' δ' α ρ}
    {answer : β → Answer κ α} (hs : s.act m = s.call r answer) (ht : t.act m = t.call r' answer)
    {p : Option (Phase (δ × δ'))} (hrounds : SameRound place s.inst t.inst p)
    (hcall : r'.1 = r.1 ∧ SimAt l Rel place r.2 r'.2 p) :
    AnswersAgree l (LockstepSim l Rel place) (s.act m) (t.act m) := by
  obtain ⟨hresult, hinst⟩ := hcall
  refine h.of_act hs ht ?_ hrounds hinst h.table h.stranger h.guarded h.visits h.started
  rw [hresult]

/-! ## Slots -/

/-- Moves that need slots are refused by both sessions where readers have none. -/
lemma of_unslotted (K : GateSim l fine Rel) (h : LockstepSim l Rel place s t) {m : Move α ρ}
    (hslotted : ¬ Gate.slotted γ = true)
    (hact : ∀ {γ δ : Type} [Gate γ κ δ] (u : Session γ κ δ α ρ), ¬ Gate.slotted γ = true →
      u.act m = u.refuse .unsupported) :
    AnswersAgree l (LockstepSim l Rel place) (s.act m) (t.act m) :=
  h.of_same (hact s hslotted) (hact t (by rwa [K.slotted_eq])) rfl

lemma act_register (K : GateSim l fine Rel) (h : LockstepSim l Rel place s t) :
    AnswersAgree l (LockstepSim l Rel place) (s.act .register) (t.act .register) := by
  by_cases hslotted : Gate.slotted γ = true
  · have hslotted' := K.slotted_eq.trans hslotted
    obtain ⟨p, hsim, hrounds⟩ := h.inst
    obtain ⟨hresult, hinst⟩ := hsim.register
    rcases hs : s.inst.register with ⟨e | slot, inst⟩ <;>
      rcases ht : t.inst.register with ⟨e' | slot', inst'⟩ <;>
      rw [hs, ht] at hresult hinst <;> cases hresult
    · have hact : s.act .register = (.error (.error e), { s with inst }) := by
        simp only [act, hslotted, hs, if_true]
      have hact' : t.act .register = (.error (.error e), { t with inst := inst' }) := by
        simp only [act, hslotted', ht, if_true]
      exact h.of_act hact hact' rfl hrounds hinst h.table h.stranger h.guarded h.visits h.started
    · have hact : s.act .register =
          (.ok (.index slot.index), { s with inst, table := s.table ++ [some slot] }) := by
        simp only [act, hslotted, hs, if_true]
      have hact' : t.act .register =
          (.ok (.index slot.index), { t with inst := inst', table := t.table ++ [some slot] }) := by
        simp only [act, hslotted', ht, if_true]
      exact h.of_act hact hact' rfl hrounds hinst (congrArg (· ++ _) h.table) h.stranger h.guarded
        h.visits h.started
  · exact h.of_unslotted K hslotted fun u hu => by simp only [act, hu]; rfl

lemma act_churn (K : GateSim l fine Rel) (h : LockstepSim l Rel place s t) :
    AnswersAgree l (LockstepSim l Rel place) (s.act .churn) (t.act .churn) := by
  by_cases hslotted : Gate.slotted γ = true
  · have hslotted' := K.slotted_eq.trans hslotted
    obtain ⟨p, hsim, hrounds⟩ := h.inst
    obtain ⟨hresult, hinst⟩ := hsim.register
    rcases hs : s.inst.register with ⟨e | slot, inst⟩ <;>
      rcases ht : t.inst.register with ⟨e' | slot', inst'⟩ <;>
      rw [hs, ht] at hresult hinst <;> cases hresult
    · have hact : s.act .churn = (.error (.error e), { s with inst }) := by
        simp only [act, hslotted, hs, if_true]
      have hact' : t.act .churn = (.error (.error e), { t with inst := inst' }) := by
        simp only [act, hslotted', ht, if_true]
      exact h.of_act hact hact' rfl hrounds hinst h.table h.stranger h.guarded h.visits h.started
    · have hact : s.act .churn =
          (.ok (.index slot.index), { s with inst := inst.release slot }) := by
        simp only [act, hslotted, hs, if_true]
      have hact' : t.act .churn =
          (.ok (.index slot.index), { t with inst := inst'.release slot }) := by
        simp only [act, hslotted', ht, if_true]
      exact h.of_act hact hact' rfl hrounds (hinst.release slot) h.table h.stranger
        h.guarded h.visits
        h.started
  · exact h.of_unslotted K hslotted fun u hu => by simp only [act, hu]; rfl

lemma act_foreign (K : GateSim l fine Rel) (h : LockstepSim l Rel place s t) :
    AnswersAgree l (LockstepSim l Rel place) (s.act .foreign) (t.act .foreign) := by
  by_cases hslotted : Gate.slotted γ = true
  · obtain ⟨p, hsim, hrounds⟩ := h.inst
    have hslotted' := K.slotted_eq.trans hslotted
    rcases hregister : s.stranger.register with e | ⟨slot, stranger⟩
    · have hs : s.act .foreign = (.error (.error e), s) := by
        simp only [act, hslotted, hregister, if_true]
      have ht : t.act .foreign = (.error (.error e), t) := by
        simp only [act, hslotted', h.stranger, hregister, if_true]
      exact h.of_same hs ht rfl
    · have hs : s.act .foreign = (.ok (.index slot.index), { s with
          stranger, table := s.table ++ [some slot],
          inst := s.inst.report (.slotRegistered slot.index) }) := by
        simp only [act, hslotted, hregister, if_true]
      have ht : t.act .foreign = (.ok (.index slot.index), { t with
          stranger, table := t.table ++ [some slot],
          inst := t.inst.report (.slotRegistered slot.index) }) := by
        simp only [act, hslotted', h.stranger, hregister, if_true]
      exact h.of_act hs ht rfl hrounds ⟨hsim.obsEq.report rfl, hsim.gate⟩
        (congrArg (· ++ _) h.table) rfl h.guarded h.visits h.started
  · exact h.of_unslotted K hslotted fun u hu => by simp only [act, hu]; rfl

lemma act_slot (K : GateSim l fine Rel) (h : LockstepSim l Rel place s t) (k : Nat) :
    AnswersAgree l (LockstepSim l Rel place) (s.act (.slot k)) (t.act (.slot k)) := by
  have hslot := h.slot?_eq K k
  simp only [act, K.slotted_eq, hslot]
  split
  · split
    · exact ⟨rfl, h⟩
    · exact ⟨rfl, h⟩
  · exact ⟨rfl, h⟩

/-- A slot is given back unless it is in use, and both sessions have to agree on that. -/
lemma act_drop (K : GateSim l fine Rel) (h : LockstepSim l Rel place s t) {k : Nat}
    (hrequest : ∀ slot, s.slot? k = some slot → t.hasRequest slot = s.hasRequest slot) :
    AnswersAgree l (LockstepSim l Rel place) (s.act (.drop k)) (t.act (.drop k)) := by
  obtain ⟨p, hsim, hrounds⟩ := h.inst
  have hid : t.inst.registry.id = s.inst.registry.id := by rw [hsim.obsEq.registry]
  by_cases hslotted : Gate.slotted γ = true
  · have hslotted' := K.slotted_eq.trans hslotted
    have hslot' := h.slot?_eq K k
    rcases hslot : s.slot? k with _ | slot <;> rw [hslot] at hslot'
    · exact h.of_same (by simp only [act, hslotted, hslot, if_true]; rfl)
        (by simp only [act, hslotted', hslot', if_true]; rfl) rfl
    · have huse : t.inUse slot = s.inUse slot := by
        rw [inUse, h.visits, hrequest slot hslot]
        rfl
      have hs := drop_of_slot? hslotted hslot
      have ht := drop_of_slot? hslotted' hslot'
      rw [huse, hid] at ht
      by_cases hused : s.inUse slot = true
      · rw [if_pos hused] at hs ht
        exact h.of_same hs ht rfl
      · rw [if_neg hused] at hs ht
        by_cases hissuer : slot.issuer = s.inst.registry.id
        · rw [if_pos hissuer] at hs ht
          exact h.of_act hs ht rfl hrounds (hsim.release slot)
            (congrArg (List.set · k none) h.table) h.stranger h.guarded h.visits h.started
        · rw [if_neg hissuer] at hs ht
          exact h.of_act hs ht rfl hrounds hsim (congrArg (List.set · k none) h.table)
            (congrArg (Registry.release · slot.index) h.stranger) h.guarded h.visits h.started
  · exact h.of_unslotted K hslotted fun u hu => by simp only [act, hu]; rfl

/-! ## Readers -/

lemma act_enter (K : GateSim l fine Rel) (h : LockstepSim l Rel place s t) {k : Nat}
    (hfine : fine (t.act (.enter k)).2.inst.gate) :
    AnswersAgree l (LockstepSim l Rel place) (s.act (.enter k)) (t.act (.enter k)) := by
  obtain ⟨p, hsim, hrounds⟩ := h.inst
  have hslot' := h.slot?_eq K k
  rcases hslot : s.slot? k with _ | slot <;> rw [hslot] at hslot'
  · exact h.of_same (by simp only [act, hslot]; rfl) (by simp only [act, hslot']; rfl) rfl
  · have hfine' : fine (t.inst.enter slot).2.gate := by
      rcases henter : t.inst.enter slot with ⟨f | v, inst⟩ <;>
        simpa only [act, hslot', henter] using hfine
    obtain ⟨hresult, hinst⟩ := hsim.enter K slot hfine'
    rcases hs : s.inst.enter slot with ⟨f | v, inst⟩ <;>
      rcases ht : t.inst.enter slot with ⟨f' | v', inst'⟩ <;>
      rw [hs, ht] at hresult hinst <;> cases hresult
    · have hact : s.act (.enter k) = (.error (.fault f none), { s with inst }) := by
        simp only [act, hslot, hs]
      have hact' : t.act (.enter k) = (.error (.fault f none), { t with inst := inst' }) := by
        simp only [act, hslot', ht]
      exact h.of_act hact hact' rfl hrounds hinst h.table h.stranger h.guarded h.visits h.started
    · have hact : s.act (.enter k) =
          (.ok (.copy (inst.given v)), { s with inst, visits := v :: s.visits }) := by
        simp only [act, hslot, hs]
      have hact' : t.act (.enter k) =
          (.ok (.copy (inst'.given v)), { t with inst := inst', visits := v :: t.visits }) := by
        simp only [act, hslot', ht]
      exact h.of_act hact hact' (by rw [hinst.given_eq]) hrounds hinst h.table h.stranger h.guarded
        (congrArg (v :: ·) h.visits) h.started

lemma act_leave (K : GateSim l fine Rel) (h : LockstepSim l Rel place s t) {gaveUp : Bool}
    (hfine : fine (t.act (.leave gaveUp)).2.inst.gate) :
    AnswersAgree l (LockstepSim l Rel place) (s.act (.leave gaveUp)) (t.act (.leave gaveUp)) := by
  obtain ⟨p, hsim, hrounds⟩ := h.inst
  have hvisits := h.visits
  rcases hvisit : s.visits with _ | ⟨v, visits⟩ <;> rw [hvisit] at hvisits
  · have hs : s.act (.leave gaveUp) = (.ok .done, s) := by simp only [act, hvisit]
    have ht : t.act (.leave gaveUp) = (.ok .done, t) := by simp only [act, hvisits]
    exact h.of_same hs ht rfl
  · have hs : s.act (.leave gaveUp) = ((s.act (.leave gaveUp)).1,
        { s with inst := (s.inst.leave v).2, visits }) := by
      simp only [act, hvisit]
    have ht : t.act (.leave gaveUp) = ((t.act (.leave gaveUp)).1,
        { t with inst := (t.inst.leave v).2, visits }) := by
      simp only [act, hvisits]
    rw [ht] at hfine
    obtain ⟨hresult, hinst⟩ := hsim.dismiss K v.slot v.ticket hfine
    have hleave : (t.inst.leave v).1 = (s.inst.leave v).1 := hresult
    have hanswer : (t.act (.leave gaveUp)).1 = (s.act (.leave gaveUp)).1 := by
      simp only [act, hvisit, hvisits, hleave, hsim.given_eq]
    exact h.of_act hs ht (by rw [hanswer]) hrounds hinst h.table h.stranger h.guarded rfl h.started

/-! ## The lock -/

lemma relock (h : LockstepSim l Rel place s t) {m : Move α ρ} {lock : SpinLock} {guarded : Bool}
    (hs : s.act m = (.ok .done, { s with inst := { s.inst with lock }, guarded }))
    (ht : t.act m = (.ok .done, { t with inst := { t.inst with lock }, guarded })) :
    AnswersAgree l (LockstepSim l Rel place) (s.act m) (t.act m) := by
  obtain ⟨p, hsim, hrounds⟩ := h.inst
  exact h.of_act hs ht rfl hrounds ⟨{ hsim.obsEq with lock := rfl }, hsim.gate⟩ h.table
    h.stranger rfl h.visits h.started

lemma act_unlock (h : LockstepSim l Rel place s t) :
    AnswersAgree l (LockstepSim l Rel place) (s.act .unlock) (t.act .unlock) := by
  have hguarded' := h.guarded
  rcases hguarded : s.guarded with _ | _ <;> rw [hguarded] at hguarded'
  · exact h.of_same (by simp only [act, hguarded]; rfl) (by simp only [act, hguarded']; rfl) rfl
  · exact h.relock (by simp only [act, hguarded]; rfl)
      (by simp only [act, hguarded', h.inst.obsEq.lock]; rfl)

/-! ## Writers -/

lemma act_publish (h : LockstepSim l Rel place s t) {m : Move α ρ} {i : Nat}
    {mutation : Mutation α ρ} {observed : Bool}
    (hs : s.act m = (.ok (.writer s.started), { s with
      inst := s.inst.publish i ⟨s.started, mutation, observed⟩, started := s.started + 1 }))
    (ht : t.act m = (.ok (.writer t.started), { t with
      inst := t.inst.publish (place i) ⟨t.started, mutation, observed⟩
      started := t.started + 1 })) :
    AnswersAgree l (LockstepSim l Rel place) (s.act m) (t.act m) := by
  obtain ⟨p, hsim, hrounds⟩ := h.inst
  rw [h.started] at ht
  exact h.of_act hs ht rfl hrounds ⟨hsim.obsEq.publish i _, hsim.gate⟩ h.table h.stranger
    h.guarded h.visits rfl

/-! ## What depends on the style -/

section Styled

variable (hstyle : t.inst.style = s.inst.style)

include hstyle

lemma hasRequest_eq (h : LockstepSim l Rel id s t) (slot : Slot) :
    t.hasRequest slot = s.hasRequest slot := by
  have hcells : t.inst.writers.map (·.cell) = s.inst.writers.map (·.cell) := by
    have hcells := congrArg (List.map fun w : Writer α => w.cell) h.inst.obsEq.writers
    rwa [List.map_map, List.map_map] at hcells
  have hany : ∀ ws : List (Writer α), ws.any (·.cell == slot.index) =
      (ws.map (·.cell)).any (· == slot.index) := by
    intro ws
    rw [List.any_map]
    rfl
  rw [hasRequest, hasRequest, hstyle, h.inst.obsEq.registry, hany, hany, hcells]

lemma act_text (K : GateSim l fine Rel) (hfaithful : l.Faithful) (h : LockstepSim l Rel id s t) :
    AnswersAgree l (LockstepSim l Rel id) (s.act .text) (t.act .text) := by
  obtain ⟨p, hsim, hrounds⟩ := h.inst
  suffices htext : l.text t.inst.text = l.text s.inst.text from
    h.of_same rfl rfl (congrArg (fun text => Except.ok (Answer.text text)) htext)
  rcases hfaithful s.inst.view t.inst.view (hsim.view_eq K) with hview | ⟨hnone, hnone', htext⟩
  · rw [Instance.text, Instance.text, hview, hstyle, hsim.obsEq.registry, hsim.obsEq.lock]
  · have hword : ∀ {γ δ : Type} [Gate γ κ δ] (u : Instance γ δ α ρ), u.view.gate.current? = none →
        u.text = u.view.wordText?.getD "" := by
      intro γ δ _ u hu
      unfold Instance.text
      rcases hgate : u.view.gate with _ | _ | _ <;> rw [hgate] at hu <;> cases hu
      simp only [hgate]
    rw [hword _ hnone, hword _ hnone', htext]

lemma act_next (K : GateSim l fine Rel) (hfaithful : l.Faithful) (h : LockstepSim l Rel id s t) :
    AnswersAgree l (LockstepSim l Rel id) (s.act .next) (t.act .next) := by
  obtain ⟨p, hsim, hrounds⟩ := h.inst
  have hside := hsim.activeSide_eq K
  suffices hanswer : (t.act .next).1 = (s.act .next).1 from
    h.of_same rfl rfl (congrArg (Except.map (·.project l)) hanswer)
  rcases hfaithful s.inst.view t.inst.view (hsim.view_eq K) with hview | ⟨hnone, hnone', -⟩
  · have hgate : Gate.view t.inst.gate = Gate.view s.inst.gate := congrArg View.gate hview
    simp only [act, hgate, hstyle, hside]
  · have hnext : ∀ {γ δ : Type} [Gate γ κ δ] (u : Session γ κ δ α ρ),
        (Gate.view u.inst.gate).current? = none →
          (u.act .next).1 = .ok (.next u.inst.activeSide.opposite none) := by
      intro γ δ _ u hu
      simp only [act]
      rcases hgate : Gate.view u.inst.gate with _ | _ | _ <;> rw [hgate] at hu <;> cases hu
    rw [hnext s hnone, hnext t hnone', hside]

lemma act_arrive (K : GateSim l fine Rel) (h : LockstepSim l Rel id s t) {k : Nat}
    (hfine : fine (t.act (.arrive k)).2.inst.gate) :
    AnswersAgree l (LockstepSim l Rel id) (s.act (.arrive k)) (t.act (.arrive k)) := by
  obtain ⟨p, hsim, hrounds⟩ := h.inst
  have hslot' := h.slot?_eq K k
  rcases hcombining : s.inst.style with _ | _ <;> rw [hcombining] at hstyle
  · rcases hslot : s.slot? k with _ | slot <;> rw [hslot] at hslot'
    · exact h.of_same (by simp only [act, hcombining, hslot]; rfl)
        (by simp only [act, hstyle, hslot']; rfl) rfl
    · have ht := arrive_of_style hstyle hslot'
      rw [ht] at hfine
      exact h.of_call (arrive_of_style hcombining hslot) ht hrounds (hsim.arrive K slot hfine)
  · exact h.of_same (by simp only [act, hcombining]; rfl) (by simp only [act, hstyle]; rfl) rfl

lemma act_depart (K : GateSim l fine Rel) (h : LockstepSim l Rel id s t) {k n : Nat}
    (hfine : fine (t.act (.depart k n)).2.inst.gate) :
    AnswersAgree l (LockstepSim l Rel id) (s.act (.depart k n)) (t.act (.depart k n)) := by
  obtain ⟨p, hsim, hrounds⟩ := h.inst
  have hslot' := h.slot?_eq K k
  rcases hcombining : s.inst.style with _ | _ <;> rw [hcombining] at hstyle
  · rcases hslot : s.slot? k with _ | slot <;> rw [hslot] at hslot'
    · exact h.of_same (by simp only [act, hcombining, hslot]; rfl)
        (by simp only [act, hstyle, hslot']; rfl) rfl
    · have hs :
          s.act (.depart k n) = s.call (s.inst.depart slot (Gate.ticket γ n)) fun _ => .done := by
        simp only [act, hcombining, hslot]
      have ht :
          t.act (.depart k n) = t.call (t.inst.depart slot (Gate.ticket γ n)) fun _ => .done := by
        simp only [act, hstyle, hslot', K.ticket_eq]
      rw [ht] at hfine
      exact h.of_call hs ht hrounds (hsim.depart K slot _ hfine)
  · exact h.of_same (by simp only [act, hcombining]; rfl) (by simp only [act, hstyle]; rfl) rfl

lemma act_lock (h : LockstepSim l Rel id s t) :
    AnswersAgree l (LockstepSim l Rel id) (s.act .lock) (t.act .lock) := by
  have hwriters := h.inst.obsEq.writers_isEmpty
  by_cases hbusy : (s.guarded || !s.inst.writers.isEmpty) = true
  · have hbusy' : (t.guarded || !t.inst.writers.isEmpty) = true := by rwa [h.guarded, hwriters]
    exact h.of_same (by simp only [act, hbusy, if_true]; rfl)
      (by simp only [act, hbusy', if_true]; rfl) rfl
  · have hbusy' : ¬ (t.guarded || !t.inst.writers.isEmpty) = true := by rwa [h.guarded, hwriters]
    rcases hcombining : s.inst.style with _ | _ <;> rw [hcombining] at hstyle
    · have hs := lock_of_style hcombining
      have ht := lock_of_style hstyle
      rw [if_neg hbusy] at hs
      rw [if_neg hbusy', h.inst.obsEq.lock] at ht
      rcases hlock : s.inst.lock.tryAcquire with _ | lock <;> rw [hlock] at hs ht
      · exact h.of_same hs ht rfl
      · exact h.relock hs ht
    · exact h.of_same (by simp only [act, hbusy, hcombining]; rfl)
        (by simp only [act, hbusy', hstyle]; rfl) rfl

lemma act_tryLock (K : GateSim l fine Rel) (h : LockstepSim l Rel id s t) :
    AnswersAgree l (LockstepSim l Rel id) (s.act .tryLock) (t.act .tryLock) := by
  have hanswer : (t.act .tryLock).1 = (s.act .tryLock).1 := by
    simp only [act, hstyle, K.slotted_eq, h.inst.obsEq.lock]
    split <;> rfl
  have hstate : ∀ {γ δ : Type} [Gate γ κ δ] (u : Session γ κ δ α ρ), (u.act .tryLock).2 = u := by
    intro γ δ _ u
    simp only [act]
    split <;> rfl
  exact h.of_same (Prod.ext rfl (hstate s)) (Prod.ext rfl (hstate t))
    (congrArg (Except.map (·.project l)) hanswer)

lemma act_mutate (K : GateSim l fine Rel) (h : LockstepSim l Rel id s t) (k : Nat)
    (mutation : Mutation α ρ) (observed : Bool) :
    AnswersAgree l (LockstepSim l Rel id) (s.act (.mutate k mutation observed))
      (t.act (.mutate k mutation observed)) := by
  rcases hcombining : s.inst.style with _ | _
  · have hs := mutate_of_style hcombining k mutation observed
    have ht := mutate_of_style (hstyle.trans hcombining) k mutation observed
    rw [h.inst.obsEq.writers_isEmpty] at ht
    by_cases hfree : s.inst.writers.isEmpty = true
    · rw [if_pos hfree] at hs ht
      exact h.act_publish hs ht
    · rw [if_neg hfree] at hs ht
      exact h.of_same hs ht rfl
  · have hcombining' := hstyle.trans hcombining
    have hslot' := h.slot?_eq K k
    rcases hslot : s.slot? k with _ | slot <;> rw [hslot] at hslot'
    · exact h.of_same (by simp only [act, hcombining, hslot]; rfl)
        (by simp only [act, hcombining', hslot']; rfl) rfl
    · have hs := mutate_of_combining hcombining hslot mutation observed
      have ht := mutate_of_combining hcombining' hslot' mutation observed
      have hid : t.inst.registry.id = s.inst.registry.id := by rw [h.inst.obsEq.registry]
      rw [h.hasRequest_eq hstyle, hid] at ht
      by_cases hbusy : s.hasRequest slot = true
      · rw [if_pos hbusy] at hs ht
        exact h.of_same hs ht rfl
      · rw [if_neg hbusy] at hs ht
        by_cases hissuer : slot.issuer = s.inst.registry.id
        · rw [if_pos hissuer] at hs ht
          exact h.act_publish hs ht
        · -- a writer with a foreign slot is finished at once
          rw [if_neg hissuer] at hs ht
          rw [h.started] at ht
          obtain ⟨p, hsim, hrounds⟩ := h.inst
          have hreported : ObsEq l id (s.inst.report (.misused .foreignSlot))
              (t.inst.report (.misused .foreignSlot)) := hsim.obsEq.report rfl
          set w : Writer α := ⟨s.started, slot.index, observed, []⟩
          have hw : w.mapGate l.gate = (w.mapGate l.gate).at id := rfl
          exact h.of_act hs ht rfl hrounds ⟨hreported.finish hw _, hsim.gate⟩ h.table h.stranger
            h.guarded h.visits rfl

/-- Every move has answers with the same projection and leads to related sessions. -/
lemma act (K : GateSim l fine Rel) (hfaithful : l.Faithful) (h : LockstepSim l Rel id s t)
    {m : Move α ρ} (hfine : fine (t.act m).2.inst.gate) :
    AnswersAgree l (LockstepSim l Rel id) (s.act m) (t.act m) := by
  cases m with
  | look => exact h.of_same rfl rfl rfl
  | text => exact h.act_text hstyle K hfaithful
  | next => exact h.act_next hstyle K hfaithful
  | register => exact h.act_register K
  | churn => exact h.act_churn K
  | foreign => exact h.act_foreign K
  | slot k => exact h.act_slot K k
  | drop k => exact h.act_drop K fun slot _ => h.hasRequest_eq hstyle slot
  | arrive k => exact h.act_arrive hstyle K hfine
  | depart k n => exact h.act_depart hstyle K hfine
  | enter k => exact h.act_enter K hfine
  | leave gaveUp => exact h.act_leave K hfine
  | lock => exact h.act_lock hstyle
  | unlock => exact h.act_unlock
  | tryLock => exact h.act_tryLock hstyle K
  | mutate k mutation observed => exact h.act_mutate hstyle K k mutation observed

end Styled

/-! ## Moves followed by the steps of writers -/

lemma perform (K : GateSim l fine Rel) (hs : s.Exclusive .resting) {m : Move α ρ}
    (hact : AnswersAgree l (LockstepSim l Rel place) (s.act m) (t.act m))
    (hfine : FineAfter fine t m) :
    AnswersAgree l (LockstepSim l Rel place) (s.perform m) (t.perform m) := by
  obtain ⟨hanswer, hstate⟩ := hact
  have hreach : s.Reaches (fun _ => True) (s.perform m).2 := s.reaches_perform trivial
  exact ⟨hanswer,
    { hstate with
      inst := hstate.inst.settle K hstate.exclusive.inCharge hfine
      exclusive := hreach.exclusive hs }⟩

/-! ## Steps -/

/-- Both sessions empty their outboxes. -/
lemma emptied (h : LockstepSim l Rel place s t) :
    LockstepSim l Rel place { s with inst := { s.inst with finished := [], log := [] } }
      { t with inst := { t.inst with finished := [], log := [] } } := by
  obtain ⟨p, hsim, hrounds⟩ := h.inst
  exact { h with
    inst := ⟨p, ⟨{ hsim.obsEq with log := rfl, finished := rfl }, hsim.gate⟩,
      hrounds.congr rfl rfl⟩
    exclusive := h.exclusive.congr rfl rfl rfl }

lemma view_eq (K : GateSim l fine Rel) (h : LockstepSim l Rel place s t) :
    t.inst.view.mapGate l.gate = s.inst.view.mapGate l.gate := by
  obtain ⟨p, hsim, -⟩ := h.inst
  exact hsim.view_eq K

lemma sameProgress (K : GateSim l fine Rel) (h : LockstepSim l Rel place s t) :
    SameProgress s t := by
  obtain ⟨p, hsim, hrounds⟩ := h.inst
  exact ⟨hsim.activeSide_eq K, hsim.obsEq.copies, hsim.obsEq.lock, hsim.obsEq.ids,
    h.inst.round_isSome⟩

lemma ending_eq (h : LockstepSim l Rel place s t) : t.ending = s.ending := by
  rw [ending, ending, h.inst.obsEq.writers_isEmpty, h.inst.obsEq.copies, h.inst.obsEq.ids]

/-- The lock discipline holds in the second session, too. -/
lemma exclusive' (h : LockstepSim l Rel place s t) : t.Exclusive .resting := by
  have hlock := h.inst.obsEq.lock
  have hround : t.inst.round = none ↔ s.inst.round = none := by
    rw [← Option.isNone_iff_eq_none, ← Option.isNone_iff_eq_none, ← Option.not_isSome,
      ← Option.not_isSome, h.inst.round_isSome]
  have hs := h.exclusive
  refine ⟨⟨fun hwaits => ?_, .inl rfl⟩, fun hguarded => ?_, fun hlocked => ?_⟩
  · rw [hlock]
    exact hs.inCharge.1 (mt hround.2 hwaits)
  · rw [h.guarded] at hguarded
    obtain ⟨hlocked, -, hnone⟩ := hs.guarded hguarded
    exact ⟨by rw [hlock, hlocked], rfl, hround.2 hnone⟩
  · rw [hlock] at hlocked
    rw [h.guarded]
    rcases hs.held hlocked with hguarded | hcontrol | hwaits
    · exact .inl hguarded
    · exact absurd rfl hcontrol
    · exact .inr (.inr (mt hround.1 hwaits))

end LockstepSim

/-! ## Scripts -/

/-- Two sessions of the same style are related, and their writers are done or wait. -/
structure SettledSim (l : Projection) (Rel : γ → γ' → Option (Phase (δ × δ')) → Prop)
    (s : Session γ κ δ α ρ) (t : Session γ' κ δ' α ρ) : Prop where
  sim : LockstepSim l Rel id s t
  style : t.inst.style = s.inst.style
  still : t.inst.still = true

/-- Sessions of fresh instances with related gates are related. -/
lemma settledSim_fresh (style : Style) (copies : Copies α) (registry : Registry) (n : Nat)
    (wait : WaitPolicy) {g : γ} {g' : γ'} (hrel : Rel g g' none) :
    SettledSim l Rel (ofInstance (.fresh style copies g registry n wait) : Session γ κ δ α ρ)
      (ofInstance (.fresh style copies g' registry n wait)) where
  sim :=
    { inst := ⟨none, ⟨⟨.inl rfl, rfl, rfl, .refl _, rfl, rfl, rfl, rfl, rfl, rfl⟩, hrel⟩,
        .idle rfl rfl⟩
      table := rfl
      stranger := rfl
      guarded := rfl
      visits := rfl
      started := rfl
      exclusive := exclusive_fresh _ _ _ _ _ _ }
  style := rfl
  still := rfl

/-- If a round is suspended, the gates are related in its phase. -/
lemma SettledSim.exists_rel (h : SettledSim l Rel s t) {r : Round δ' α ρ}
    (hround : t.inst.round = some r) :
    ∃ ph : Phase (δ × δ'), r.phase = ph.map Prod.snd ∧ Rel s.inst.gate t.inst.gate (some ph) := by
  obtain ⟨p, hsim, hrounds⟩ := h.sim.inst
  cases hrounds with
  | idle hs ht => cases ht.symm.trans hround
  | waiting hs ht =>
    cases ht.symm.trans hround
    exact ⟨_, rfl, hsim.gate⟩

/-- `SettledSim` is a simulation of scripts whose moves keep the gate `fine`. -/
lemma SettledSim.scriptSim (K : GateSim l fine Rel) (hfaithful : l.Faithful) :
    ScriptSim l (FineAfter fine) (SettledSim (α := α) (ρ := ρ) l Rel) where
  slotted_eq := K.slotted_eq
  perform {s t m} h hfine := by
    have hmid : fine (t.act m).2.inst.gate := K.backwardClosed.settle hfine
    have hact := h.sim.act h.style K hfaithful hmid
    obtain ⟨hanswer, hstate⟩ := LockstepSim.perform K h.sim.exclusive hact hfine
    have hstyle : (t.perform m).2.inst.style = (s.perform m).2.inst.style := by
      have hs : s.Reaches (fun _ => True) (s.perform m).2 := s.reaches_perform trivial
      have ht : t.Reaches (fun _ => True) (t.perform m).2 := t.reaches_perform trivial
      rw [hs.style_eq h.sim.exclusive, ht.style_eq h.sim.exclusive', h.style]
    exact ⟨hanswer, hstate, hstyle, still_settle hact.state.exclusive'.inCharge⟩
  view h := h.sim.view_eq K
  finished h := h.sim.inst.obsEq.finished
  log h := h.sim.inst.obsEq.log
  emptied h := ⟨h.sim.emptied, h.style, h.still⟩

end Session

end TwinCopy
