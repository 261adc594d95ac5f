import TwinCopy.Proofs.SlotsTaken
import TwinCopy.Proofs.Waiting

/-!
# The owner of a cell

Under the combining style there is a cell for each slot, and slots are released and claimed again. A
slot is identified by its place in the table, which is never used twice, so a history determines for
each writer the slot with which it was started. `CellOwners` is the invariant that every writer
inside is at the cell of that slot, and that the slot is still in use; a later holder of the same
entry finds the cell blank.
-/

namespace TwinCopy

variable {γ κ δ α ρ : Type} [Gate γ κ δ]

/-- The writer that an action starts, and the place in the table of the slot it is started with. -/
def Action.start? : Action γ κ δ α ρ → Option (Nat × Nat)
  | .moved found (.mutate k mutation observed) =>
      match (found.act (.mutate k mutation observed)).1 with
      | .ok (.writer n) => some (n, k)
      | _ => none
  | _ => none

/-- The writer was started with the slot at this place of the table. -/
def History.StartedAt (h : History γ κ δ α ρ) (writer k : Nat) : Prop :=
  ∃ d ∈ h, d.start? = some (writer, k)

instance (h : History γ κ δ α ρ) (writer k : Nat) : Decidable (h.StartedAt writer k) :=
  inferInstanceAs (Decidable (∃ d ∈ h, d.start? = some (writer, k)))

lemma Action.start?_moved {s : Session γ κ δ α ρ} {m : Move α ρ} {n k : Nat} :
    (Action.moved s m).start? = some (n, k) ↔
      ∃ mutation observed, m = .mutate k mutation observed ∧ (s.act m).1 = .ok (.writer n) := by
  constructor
  · intro h
    cases m with
    | mutate j mutation observed =>
      simp only [start?] at h
      split at h
      · next writer hanswer =>
        cases h
        exact ⟨mutation, observed, rfl, hanswer⟩
      · cases h
    | _ => cases h
  · rintro ⟨mutation, observed, rfl, hanswer⟩
    simp only [start?, hanswer]

namespace History

variable {h : History γ κ δ α ρ} {n k : Nat}

lemma startedAt_cons {d : Action γ κ δ α ρ} :
    StartedAt (d :: h) n k ↔ d.start? = some (n, k) ∨ h.StartedAt n k :=
  List.exists_mem_cons_iff _ _ _

/-- Steps of the leading writer start no writers. -/
lemma startedAt_append {actions : History γ κ δ α ρ} (hactions : ∀ d ∈ actions, d.start? = none) :
    StartedAt (actions ++ h) n k ↔ h.StartedAt n k := by
  induction actions with
  | nil => rfl
  | cons d actions ih =>
    obtain ⟨hd, hactions⟩ := List.forall_mem_cons.1 hactions
    rw [List.cons_append, startedAt_cons, ih hactions, hd]
    simp

end History

lemma Instance.Progress.start?_eq_none {s s' : Instance γ δ α ρ} {t t' : Option (Task α ρ)}
    {actions : History γ κ δ α ρ} (h : Progress s t actions s' t') :
      ∀ d ∈ actions, d.start? = none := by
  cases h <;> simp [Action.start?]

/-- A step of the leading writer admits no writer and moves none to another cell. -/
lemma Instance.Progress.exists_writer {s s' : Instance γ δ α ρ} {t t' : Option (Task α ρ)}
    {actions : History γ κ δ α ρ} {n : Nat} (h : Progress s t actions s' t')
    (hd : CellInv s.cells s.writers n t) {w : Writer α} (hw : w ∈ s'.writers) :
    ∃ v ∈ s.writers, v.id = w.id ∧ v.cell = w.cell := by
  have hnoted : ∀ note : Writer α → Writer α,
      (∀ v, (note v).id = v.id ∧ (note v).cell = v.cell ∧ (note v).observed = v.observed) →
      w ∈ s.writers.map note → ∃ v ∈ s.writers, v.id = w.id ∧ v.cell = w.cell := by
    intro note hnote hmem
    obtain ⟨v, hv, rfl⟩ := List.mem_map.1 hmem
    exact ⟨v, hv, (hnote v).1.symm, (hnote v).2.1.symm⟩
  have hroundEnded : ∀ batch, s.RoundEnded s' batch → ∃ v ∈ s.writers,
      v.id = w.id ∧ v.cell = w.cell := by
    rintro batch ⟨⟨note, hnote, hwriters⟩, -, -⟩
    rw [hwriters] at hw
    exact hnoted note hnote (List.mem_filter.1 hw).1
  cases h with
  | quiet | elect | turn => exact ⟨w, hw, rfl, rfl⟩
  | apply hpass =>
    obtain ⟨output, gate, registry, log, note, -, rfl, hlook⟩ := pass_ok hpass
    exact hnoted note hlook.note hw
  | giveUp hpass => exact hroundEnded _ (roundEnded_giveUp hd hpass)
  | complete => exact hroundEnded _ (roundEnded_complete hd)
  | surplus => exact hroundEnded _ (roundEnded_surplus hd _ _)

namespace Session

variable {s s' : Session γ κ δ α ρ} {m : Move α ρ} {r : Except Failure (Answer κ α)}

/-- A writer that is started gets the next number. -/
lemma Moved.started_of_writer (h : s.Moved m r s') {k n : Nat} {mutation : Mutation α ρ}
    {observed : Bool} (hm : m = .mutate k mutation observed) (hr : r = .ok (.writer n)) :
    n = s.started ∧ s'.started = s.started + 1 := by
  subst hm
  cases h with
  | refused => cases hr
  | looked _ hlook => cases hlook
  | published | turnedAway =>
    cases hr
    exact ⟨rfl, rfl⟩

lemma Moved.started_le (h : s.Moved m r s') : s.started ≤ s'.started := by
  cases h <;> first | exact Nat.le_refl _ | exact Nat.le_succ _

end Session

/-- Every writer inside is at the cell of the slot it was started with, which is in use, and each
writer was started once. -/
structure CellOwners (s : Session γ κ δ α ρ) (h : History γ κ δ α ρ) : Prop where
  holds : ∀ w ∈ s.inst.writers, ∃ k slot, s.table[k]? = some (some slot) ∧
    slot.issuer = s.inst.registry.id ∧ slot.index = w.cell ∧ h.StartedAt w.id k
  earlier : ∀ n k, h.StartedAt n k → n < s.started
  once : ∀ n k k', h.StartedAt n k → h.StartedAt n k' → k = k'

namespace CellOwners

variable {s s' : Session γ κ δ α ρ} {h : History γ κ δ α ρ} {t t' : Option (Task α ρ)} {n : Nat}

/-- The numbers of writers stay distinct. -/
lemma numbers_moved (ht : CellOwners s h) {m : Move α ρ} {r : Except Failure (Answer κ α)}
    (hact : s.act m = (r, s')) (hm : s.Moved m r s') :
    (∀ n k, History.StartedAt (.moved s m :: h) n k → n < s'.started) ∧
      ∀ n k k', History.StartedAt (.moved s m :: h) n k → History.StartedAt (.moved s m :: h) n k' →
        k = k' := by
  have hnew : ∀ {n k}, (Action.moved s m).start? = some (n, k) →
      n = s.started ∧ s'.started = s.started + 1 := by
    intro n k hn
    obtain ⟨mutation, observed, hmutate, hanswer⟩ := Action.start?_moved.1 hn
    rw [hact] at hanswer
    exact hm.started_of_writer hmutate hanswer
  constructor
  · intro n k hn
    rcases History.startedAt_cons.1 hn with hn | hn
    · obtain ⟨rfl, hstarted⟩ := hnew hn
      exact hstarted ▸ Nat.lt_succ_self _
    · exact Nat.lt_of_lt_of_le (ht.earlier n k hn) hm.started_le
  · intro n k k' hn hn'
    rcases History.startedAt_cons.1 hn with hn | hn
    · have hnumber := (hnew hn).1
      rcases History.startedAt_cons.1 hn' with hn' | hn'
      · cases hn.symm.trans hn'
        rfl
      · exact absurd (ht.earlier n k' hn') (by omega)
    · rcases History.startedAt_cons.1 hn' with hn' | hn'
      · exact absurd (ht.earlier n k hn) (by rw [(hnew hn').1]; exact Nat.lt_irrefl _)
      · exact ht.once n k k' hn hn'

/-- The slot of a writer inside keeps its place, as no move releases it. -/
lemma holds_moved (hslotted : Gate.slotted γ = true) (hstyle : s.inst.style = .combining)
    (ht : CellOwners s h) {m : Move α ρ} {r : Except Failure (Answer κ α)} (hm : s.Moved m r s')
    {w : Writer α} (hw : w ∈ s.inst.writers) :
    ∃ k slot, s'.table[k]? = some (some slot) ∧ slot.issuer = s'.inst.registry.id ∧
      slot.index = w.cell ∧ History.StartedAt (.moved s m :: h) w.id k := by
  obtain ⟨k, slot, hslot, hissuer, hcell, hstarted⟩ := ht.holds w hw
  have huse : s.inUse slot = true := by
    rw [Session.inUse, Bool.or_eq_true]
    right
    simp only [Session.hasRequest, hstyle, hissuer, beq_self_eq_true, Bool.true_and]
    exact List.any_eq_true.2 ⟨w, hw, beq_iff_eq.2 hcell.symm⟩
  exact ⟨k, slot, hm.getElem?_kept hslotted hslot hissuer huse, hissuer.trans hm.registry_id.symm,
    hcell, History.startedAt_cons.2 (.inr hstarted)⟩

lemma moved (hslotted : Gate.slotted γ = true) (hstyle : s.inst.style = .combining)
    (ht : CellOwners s h) {m : Move α ρ} {r : Except Failure (Answer κ α)}
    (hact : s.act m = (r, s')) (hm : s.Moved m r s') : CellOwners s' (.moved s m :: h) := by
  obtain ⟨hearlier, honce⟩ := ht.numbers_moved hact hm
  refine ⟨fun w hw => ?_, hearlier, honce⟩
  have hholds := fun {v : Writer α} (hv : v ∈ s.inst.writers) =>
    ht.holds_moved hslotted hstyle hm hv
  cases hm with
  | @published k i mutation observed hadmits =>
    rcases List.mem_append.1 hw with hw | hw
    · exact hholds hw
    · cases List.mem_singleton.1 hw
      rcases hadmits with ⟨hexclusive, -, -⟩ | ⟨-, slot, hslot, hissuer, hindex, -⟩
      · rw [hstyle] at hexclusive
        cases hexclusive
      · refine ⟨k, slot, Session.getElem?_of_slot? hslotted hslot, hissuer, hindex, ?_⟩
        exact History.startedAt_cons.2
          (.inl (Action.start?_moved.2 ⟨mutation, observed, rfl, congrArg Prod.fst hact⟩))
  | turnedAway => exact hholds (List.mem_filter.1 hw).1
  | _ => exact hholds hw

lemma progress (ht : CellOwners s h) (hd : CellInv s.inst.cells s.inst.writers n t)
    {inst : Instance γ δ α ρ} {actions : History γ κ δ α ρ}
    (hp : Instance.Progress s.inst t actions inst t') :
      CellOwners { s with inst } (actions ++ h) := by
  have hstarted : ∀ {n k}, History.StartedAt (actions ++ h) n k ↔ h.StartedAt n k :=
    History.startedAt_append hp.start?_eq_none
  refine ⟨fun w hw => ?_, fun n k hn => ht.earlier n k (hstarted.1 hn),
    fun n k k' hn hn' => ht.once n k k' (hstarted.1 hn) (hstarted.1 hn')⟩
  obtain ⟨v, hv, hid, hcell⟩ := hp.exists_writer hd hw
  obtain ⟨k, slot, hslot, hissuer, hindex, hv⟩ := ht.holds v hv
  exact ⟨k, slot, hslot, hissuer.trans hp.frame.2.1.symm, hindex.trans hcell,
    hstarted.2 (hid ▸ hv)⟩

lemma emptied (ht : CellOwners s h) (finished : List (Finished α ρ)) (log : List Event) :
    CellOwners { s with inst := { s.inst with finished := [], log := [] } }
      (.emptied finished log :: h) := by
  have habsent : ∀ d ∈ [(.emptied finished log : Action γ κ δ α ρ)], d.start? = none := by
    simp [Action.start?]
  have hstarted : ∀ {n k}, History.StartedAt (.emptied finished log :: h) n k ↔ h.StartedAt n k :=
    History.startedAt_append habsent
  exact ⟨fun w hw => by simpa only [hstarted] using ht.holds w hw,
    fun n k hn => ht.earlier n k (hstarted.1 hn),
    fun n k k' hn hn' => ht.once n k k' (hstarted.1 hn) (hstarted.1 hn')⟩

lemma start (hwriters : s.inst.writers = []) : CellOwners s [] where
  holds w hw := by
    rw [hwriters] at hw
    cases hw
  earlier := by
    rintro n k ⟨d, hd, -⟩
    cases hd
  once := by
    rintro n k k' ⟨d, hd, -⟩
    cases hd

/-- The cell of a slot in use has a request exactly if a writer started with the slot is inside. -/
lemma hasRequest_iff (hslotted : Gate.slotted γ = true) (hstyle : s.inst.style = .combining)
    (ht : CellOwners s h) (hl : s.SlotsTaken n) {k : Nat} {slot : Slot}
    (hslot : s.slot? k = some slot) (hissuer : slot.issuer = s.inst.registry.id) :
    s.hasRequest slot = true ↔ ∃ w ∈ s.inst.writers, h.StartedAt w.id k := by
  have hplace := Session.getElem?_of_slot? hslotted hslot
  simp only [Session.hasRequest, hstyle, hissuer, beq_self_eq_true, Bool.true_and, List.any_eq_true,
    beq_iff_eq]
  constructor
  · rintro ⟨w, hw, hcell⟩
    obtain ⟨k', slot', hslot', hissuer', hindex', hstarted⟩ := ht.holds w hw
    have hsame : slot' = slot :=
      Slot.eq_of_index (hissuer'.trans hissuer.symm) (hindex'.trans hcell)
    cases hl.distinct k' k slot (hsame ▸ hslot') hplace hissuer
    exact ⟨w, hw, hstarted⟩
  · rintro ⟨w, hw, hstarted⟩
    obtain ⟨k', slot', hslot', -, hindex', hstarted'⟩ := ht.holds w hw
    cases ht.once _ k' k hstarted' hstarted
    rw [hplace] at hslot'
    cases hslot'
    exact ⟨w, hw, hindex'.symm⟩

end CellOwners

/-- A slot in use has its cell for itself. While a writer started with it is inside, no other one is
admitted; otherwise the cell is blank, whichever slot had the entry before, and the next writer
publishes its request there. -/
structure Session.Private (s : Session γ κ δ α ρ) (h : History γ κ δ α ρ) (k : Nat) (slot : Slot) :
    Prop where
  busy : (∃ w ∈ s.inst.writers, h.StartedAt w.id k) →
    ∀ mutation observed, s.act (.mutate k mutation observed) = s.refuse .busy
  vacant : (∀ w ∈ s.inst.writers, ¬ h.StartedAt w.id k) → s.inst.cells[slot.index]? = some {} ∧
    ∀ mutation observed, s.act (.mutate k mutation observed) =
      (.ok (.writer s.started),
        { s with
          inst := s.inst.publish slot.index ⟨s.started, mutation, observed⟩
          started := s.started + 1 })

/-- A pending request is that of a writer inside, started with a slot that is still in use and has
this cell. -/
def Session.Occupied (s : Session γ κ δ α ρ) (h : History γ κ δ α ρ) : Prop :=
  ∀ i r, (cellAt s.inst.cells i).request = some r →
    r.writer ∈ s.inst.writers.map Writer.id ∧ ∃ k slot, s.table[k]? = some (some slot) ∧
      slot.issuer = s.inst.registry.id ∧ slot.index = i ∧ h.StartedAt r.writer k

/-- A cell without a writer is blank. -/
lemma CellInv.cellAt_eq_blank {cells : List (Cell α ρ)} {writers : List (Writer α)} {n i : Nat}
    {t : Option (Task α ρ)} (hd : CellInv cells writers n t) (hfree : ∀ w ∈ writers, w.cell ≠ i) :
    cellAt cells i = {} := by
  have hrequest := hd.request_eq_none hfree
  have hresult : (cellAt cells i).result = none := by
    rcases hresult : (cellAt cells i).result with _ | output
    · rfl
    · -- an output is at the cell of a request of the batch
      obtain ⟨u, hu, hserved⟩ := (hd.result i).1 (by rw [hresult]; rfl)
      obtain ⟨x, hx, rfl⟩ := List.mem_map.1 hserved
      rw [hd.batch u hu x (u.served_subset hx)] at hrequest
      cases hrequest
  generalize cellAt cells i = cell at hrequest hresult ⊢
  obtain ⟨request, result⟩ := cell
  cases hrequest
  cases hresult
  rfl

namespace CellOwners

variable {s : Session γ κ δ α ρ} {h : History γ κ δ α ρ} {t : Option (Task α ρ)} {n : Nat}

lemma occupied (ht : CellOwners s h) (hd : CellInv s.inst.cells s.inst.writers n t) :
    s.Occupied h := by
  intro i r hr
  obtain ⟨w, hw, rfl⟩ := hd.writer i r hr
  obtain ⟨r', hr', hid, -⟩ := hd.request w hw
  cases hr.symm.trans hr'
  obtain ⟨k, slot, hslot, hissuer, hindex, hstarted⟩ := ht.holds w hw
  exact ⟨hid ▸ List.mem_map_of_mem hw, k, slot, hslot, hissuer, hindex, hid ▸ hstarted⟩

lemma isPrivate (hslotted : Gate.slotted γ = true) (hstyle : s.inst.style = .combining)
    (ht : CellOwners s h) (hl : s.SlotsTaken n) (hq : Queued s h t) {k : Nat} {slot : Slot}
    (hslot : s.slot? k = some slot) (hissuer : slot.issuer = s.inst.registry.id) :
    s.Private h k slot := by
  have hrequest := ht.hasRequest_iff hslotted hstyle hl hslot hissuer
  refine ⟨fun hinside mutation observed => ?_, fun hnone => ?_⟩
  · rw [Session.mutate_of_combining hstyle hslot, if_pos (hrequest.2 hinside)]
  · have hfree : s.hasRequest slot = false := by
      rw [Bool.eq_false_iff, Ne, hrequest]
      rintro ⟨w, hw, hstarted⟩
      exact hnone w hw hstarted
    have hcells : ∀ w ∈ s.inst.writers, w.cell ≠ slot.index := by
      simpa [Session.hasRequest, hstyle, hissuer] using hfree
    have hplace := Session.getElem?_of_slot? hslotted hslot
    have hlt : slot.index < s.inst.cells.length :=
      hq.room.table hstyle slot (List.mem_of_getElem? hplace) hissuer
    constructor
    · have hblank := hq.cellInv.cellAt_eq_blank hcells
      rw [cellAt, List.getElem?_eq_getElem hlt, Option.getD_some] at hblank
      rw [List.getElem?_eq_getElem hlt, hblank]
    · intro mutation observed
      rw [Session.mutate_of_combining hstyle hslot, hfree, if_neg Bool.false_ne_true,
        if_pos hissuer]

end CellOwners

/-- `CellOwners` holds at every point of every schedule. -/
theorem cellOwners_after (hslotted : Gate.slotted γ = true) (copies : Copies α) (gate : γ) (n : Nat)
    (wait : WaitPolicy) (ticks : List (Tick α ρ)) :
    let p := (Point.start (.ofInstance (.fresh .combining copies gate (.bounded 0 n) n wait) :
      Session γ κ δ α ρ)).after ticks
    Queued p.session p.history p.task? ∧ p.session.SlotsTaken n ∧
      CellOwners p.session p.history := by
  set s : Session γ κ δ α ρ := .ofInstance (.fresh .combining copies gate (.bounded 0 n) n wait)
  have hstart : (s.inst.style = .combining ∧ Queued s [] none) ∧ s.SlotsTaken n ∧ CellOwners s [] :=
    ⟨⟨rfl, .start (Session.enoughCells_bounded hslotted _ _ _ _)⟩,
      .of_capacity _ (Registry.capacity_ofCapacity 0 (some n)), .start rfl⟩
  intro p
  have hafter : (p.session.inst.style = .combining ∧ Queued p.session p.history p.stage.task?) ∧
      p.session.SlotsTaken n ∧ CellOwners p.session p.history := Point.stage_after
    (P := fun s h c => (s.inst.style = .combining ∧ Queued s h c.task?) ∧ s.SlotsTaken n ∧
      CellOwners s h)
    (fun _ hact hm ⟨⟨hstyle, hq⟩, hl, ht⟩ =>
      ⟨⟨hm.style_eq.trans hstyle, hq.moved hact hm⟩, hl.moved hslotted hm,
        ht.moved hslotted hstyle hact hm⟩)
    (fun hstaged ⟨⟨hstyle, hq⟩, hl, ht⟩ =>
      ⟨⟨hstaged.progress.frame.1.trans hstyle, hq.progress hstaged.progress⟩, hl.staged hstaged,
        ht.progress hq.cellInv hstaged.progress⟩)
    (fun ⟨⟨hstyle, hq⟩, hl, ht⟩ => ⟨⟨hstyle, hq.emptied⟩, hl.emptied, ht.emptied _ _⟩)
    (Session.exclusive_fresh _ _ _ _ _ _) hstart
  rw [show p.task? = p.stage.task? from p.inst.task?_eq p.control]
  exact ⟨hafter.1.2, hafter.2⟩

end TwinCopy
