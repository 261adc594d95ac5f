import Mathlib.Data.List.Sort
import Mathlib.Order.Monotone.Basic
import TwinCopy.Proofs.CellInvariant
import TwinCopy.Proofs.EqOffGate

/-!
# Observational equality of instances

Two instances can differ in representation and still be indistinguishable to their callers: the
gates may encode the same state differently, requests may be left at other cells, and one may report
events that the other has not. A `Projection` selects what is observed of gate views, of texts and
of events. `ObsEq` is equality of instances up to the gate, the round and a projection, where
`place` embeds the cells of the one into the cells of the other. It is preserved by publishing a
request and by the end of a round.
-/

namespace TwinCopy

variable {γ κ δ γ' κ' δ' α ρ : Type}

/-! ## Projections -/

/-- What is observed: a function of gate views, a function of texts, and a set of events. -/
structure Projection where
  gate : GateView → GateView
  text : String → String
  event : Event → Bool

/-- The projection that loses nothing. -/
def Projection.full : Projection :=
  ⟨id, id, fun _ => true⟩

/-- The projection keeps none of the events by which a round of the gate `γ` can end. -/
structure Projection.HidesEndings (l : Projection) (γ : Type) [Gate γ κ δ] : Prop where
  applied : ∀ (g : γ) mutations side, l.event (Gate.appliedEvent g mutations side) = false
  batchApplied : ∀ size batches, l.event (.batchApplied size batches) = false
  batchAbandoned : ∀ size, l.event (.batchAbandoned size) = false

/-! ## Embeddings of cells -/

/-- `place` embeds the first list of cells into the second, in order, and the cells of the second
that are not in its range are blank. -/
structure EmbedsCells (place : Nat → Nat) (cells cells' : List (Cell α ρ)) : Prop where
  mono : StrictMono place
  same : ∀ i, cells'[place i]? = cells[i]?
  blank : ∀ j, (∀ i, place i ≠ j) → cellAt cells' j = {}

/-- The batch with its cells mapped by `place`. -/
def placed (place : Nat → Nat) (batch : Batch α ρ) : Batch α ρ :=
  batch.map (Prod.map place id)

@[simp] lemma length_placed (place : Nat → Nat) (batch : Batch α ρ) :
    (placed place batch).length = batch.length :=
  List.length_map _

/-- The writer with its cell mapped by `place`. -/
def Writer.at (place : Nat → Nat) (w : Writer α) : Writer α :=
  { w with cell := place w.cell }

namespace EmbedsCells

variable {place : Nat → Nat} {cells cells' : List (Cell α ρ)}

lemma refl (cells : List (Cell α ρ)) : EmbedsCells id cells cells where
  mono := strictMono_id
  same _ := rfl
  blank j hj := absurd rfl (hj j)

lemma cellAt_eq (h : EmbedsCells place cells cells') (i : Nat) :
    cellAt cells' (place i) = cellAt cells i := by
  rw [cellAt, cellAt, h.same]

lemma modify (h : EmbedsCells place cells cells') (i : Nat) (f : Cell α ρ → Cell α ρ) :
    EmbedsCells place (cells.modify i f) (cells'.modify (place i) f) where
  mono := h.mono
  same k := by
    rw [List.getElem?_modify, List.getElem?_modify, h.same]
    simp only [h.mono.injective.eq_iff]
  blank j hj := by
    have hother : (cells'.modify (place i) f)[j]? = cells'[j]? := by
      rw [List.getElem?_modify]
      simp only [hj i, if_false, id_map']
    rw [cellAt, hother]
    exact h.blank j hj

end EmbedsCells

namespace Instance

variable {l : Projection} {place : Nat → Nat}

/-- Embedded cells hold the same published requests, in the same order. -/
lemma published_placed {s : Instance γ δ α ρ} {t : Instance γ' δ' α ρ}
    (h : EmbedsCells place s.cells t.cells) : t.published = placed place s.published := by
  have hsorted : (placed place s.published).Pairwise (·.1 < ·.1) := by
    rw [placed, List.pairwise_map]
    exact s.published_pairwise.imp fun hlt => h.mono hlt
  have hmem : ∀ x, x ∈ t.published ↔ x ∈ placed place s.published := by
    rintro ⟨j, r⟩
    rw [mem_published, placed, List.mem_map]
    constructor
    · intro hr
      obtain ⟨i, rfl⟩ : ∃ i, place i = j := by
        by_contra hnot
        rw [h.blank j fun i hi => hnot ⟨i, hi⟩] at hr
        cases hr
      refine ⟨(i, r), ?_, rfl⟩
      rwa [mem_published, ← h.cellAt_eq]
    · rintro ⟨⟨i, r'⟩, hr, heq⟩
      obtain ⟨rfl, rfl⟩ := Prod.mk.inj heq
      rw [mem_published] at hr
      exact (congrArg Cell.request (h.cellAt_eq i)).trans hr
  -- both lists are sorted by cell, so a permutation between them is an equality
  have hperm : t.published.Perm (placed place s.published) :=
    (List.perm_ext_iff_of_nodup t.published_nodup (Batch.nodup hsorted)).2 hmem
  exact hperm.eq_of_pairwise (fun x y _ _ hxy hyx => absurd hxy (Nat.lt_asymm hyx))
    t.published_pairwise hsorted

/-- Reports, under the combining style only, that a batch of `n` requests was abandoned. -/
def reportAbandoned (s : Instance γ δ α ρ) (n : Nat) : Instance γ δ α ρ :=
  match s.style with
  | .exclusive => s
  | .combining => s.report (.batchAbandoned n)

/-- Two instances agree in all but the gate and the round, up to a projection and with their cells
related by `place`. -/
structure ObsEq [Gate γ κ δ] [Gate γ' κ' δ'] (l : Projection) (place : Nat → Nat)
    (s : Instance γ δ α ρ) (t : Instance γ' δ' α ρ) : Prop where
  style : t.style = s.style ∨ l.HidesEndings γ ∧ l.HidesEndings γ'
  copies : t.copies = s.copies
  registry : t.registry = s.registry
  cells : EmbedsCells place s.cells t.cells
  lock : t.lock = s.lock
  writers : t.writers.map (·.mapGate l.gate) = s.writers.map fun w => (w.mapGate l.gate).at place
  mutations : t.mutations = s.mutations
  batches : t.batches = s.batches
  log : t.log.filter l.event = s.log.filter l.event
  finished : t.finished.map (·.mapGate l.gate) = s.finished.map (·.mapGate l.gate)

namespace ObsEq

variable [Gate γ κ δ] [Gate γ' κ' δ'] {s : Instance γ δ α ρ} {t : Instance γ' δ' α ρ}

lemma writers_isEmpty (h : ObsEq l place s t) : t.writers.isEmpty = s.writers.isEmpty := by
  rw [← List.isEmpty_map (f := (·.mapGate l.gate)), h.writers, List.isEmpty_map]

lemma ids (h : ObsEq l place s t) : t.writers.map (·.id) = s.writers.map (·.id) := by
  have hids := congrArg (List.map fun w : Writer α => w.id) h.writers
  rwa [List.map_map, List.map_map] at hids

/-- Both logs may be extended by events with the same projection. -/
lemma logged (h : ObsEq l place s t) {events events' : List Event}
    (hevents : events'.filter l.event = events.filter l.event) :
    ObsEq l place { s with log := events ++ s.log } { t with log := events' ++ t.log } :=
  { h with log := by rw [List.filter_append, List.filter_append, hevents, h.log] }

lemma report (h : ObsEq l place s t) {e e' : Event}
    (hevent : [e'].filter l.event = [e].filter l.event) :
    ObsEq l place (s.report e) (t.report e') :=
  h.logged hevent

/-! ## Cells -/

lemma modifyCell (h : ObsEq l place s t) (i : Nat) (f : Cell α ρ → Cell α ρ) :
    ObsEq l place (s.modifyCell i f) (t.modifyCell (place i) f) :=
  { h with cells := h.cells.modify i f }

lemma modifyCells (h : ObsEq l place s t) (batch : Batch α ρ) (f : Cell α ρ → Cell α ρ) :
    ObsEq l place (batch.foldl (fun s (i, _) => s.modifyCell i f) s)
      ((placed place batch).foldl (fun t (i, _) => t.modifyCell i f) t) := by
  induction batch generalizing s t with
  | nil => exact h
  | cons x batch ih => exact ih (h.modifyCell x.1 f)

/-! ## Writers -/

lemma publish (h : ObsEq l place s t) (i : Nat) (r : Request α ρ) :
    ObsEq l place (s.publish i r) (t.publish (place i) r) :=
  { h.modifyCell i ({ · with request := some r }) with
    writers := by
      show List.map _ (t.writers ++ [_]) = List.map _ (s.writers ++ [_])
      rw [List.map_append, List.map_append, h.writers]
      rfl }

lemma note (h : ObsEq l place s t) (id : Nat) {o o' : Observation α}
    (ho : o'.mapGate l.gate = o.mapGate l.gate) :
    ObsEq l place { s with writers := s.writers.map (·.addSeen id o) }
      { t with writers := t.writers.map (·.addSeen id o') } := by
  have hmapGate : ∀ (ws : List (Writer α)) (o : Observation α),
      (ws.map (·.addSeen id o)).map (·.mapGate l.gate) =
        (ws.map (·.mapGate l.gate)).map (·.addSeen id (o.mapGate l.gate)) := by
    intro ws o
    rw [List.map_map, List.map_map]
    exact List.map_congr_left fun w _ => w.mapGate_addSeen l.gate id o
  have hat : ∀ w : Writer α, ((w.mapGate l.gate).at place).addSeen id (o.mapGate l.gate) =
      ((w.addSeen id o).mapGate l.gate).at place := by
    intro w
    rw [Writer.mapGate_addSeen, Writer.addSeen, Writer.addSeen]
    show (if w.id = id then _ else _) = Writer.at place (if w.id = id then _ else _)
    split <;> rfl
  refine { h with writers := ?_ }
  show List.map _ (t.writers.map _) = List.map _ (s.writers.map _)
  rw [hmapGate, h.writers, ho, List.map_map, List.map_map]
  exact List.map_congr_left fun w _ => hat w

lemma finish (h : ObsEq l place s t) {w w' : Writer α}
    (hw : w'.mapGate l.gate = (w.mapGate l.gate).at place) (outcome : Except Fault ρ) :
    ObsEq l place (s.finish w outcome) (t.finish w' outcome) := by
  obtain ⟨id, cell, observed, seen⟩ := w
  obtain ⟨id', cell', observed', seen'⟩ := w'
  simp only [Writer.mapGate, Writer.at, Writer.mk.injEq] at hw
  obtain ⟨rfl, rfl, rfl, hseen⟩ := hw
  refine { h with writers := ?_, finished := ?_ }
  · show List.map _ (t.writers.filter _) = List.map _ (s.writers.filter _)
    rw [map_filter_ids, h.writers, List.filter_map]
    rfl
  · show List.map _ (_ :: t.finished) = List.map _ (_ :: s.finished)
    rw [List.map_cons, List.map_cons, h.finished]
    refine congrArg (· :: _) ?_
    simp only [Finished.mapGate]
    split
    · simp only [Option.map_some, List.map_reverse, hseen]
    · rfl

/-- Related writers collect the same result, for `place` maps the cell of the one to that of the
other. -/
lemma collect (h : ObsEq l place s t) {w w' : Writer α}
    (hw : w'.mapGate l.gate = (w.mapGate l.gate).at place) :
    ObsEq l place (s.collect w) (t.collect w') := by
  have hcell : w'.cell = place w.cell := congrArg Writer.cell hw
  unfold Instance.collect
  rw [hcell, h.cells.same]
  split
  · have hblank := h.modifyCell w.cell ({ · with result := none })
    split
    · exact hblank.finish hw _
    · exact (hblank.report rfl).finish hw _
  · exact h

lemma unlock (h : ObsEq l place s t) : ObsEq l place s.unlock t.unlock := by
  have hfold : ∀ (ws ws' : List (Writer α)) (s : Instance γ δ α ρ) (t : Instance γ' δ' α ρ),
      ws'.map (·.mapGate l.gate) = ws.map (fun w => (w.mapGate l.gate).at place) →
        ObsEq l place s t → ObsEq l place (ws.foldl Instance.collect s)
          (ws'.foldl Instance.collect t) := by
    intro ws
    induction ws with
    | nil =>
      intro ws' s t hws h
      rw [List.map_eq_nil_iff.1 hws]
      exact h
    | cons w ws ih =>
      intro ws' s t hws h
      obtain ⟨w', ws', rfl, hw, hws⟩ := List.map_eq_cons_iff.1 hws
      exact ih ws' _ _ hws (h.collect hw)
  exact hfold _ _ _ _ h.writers
    { h with lock := congrArg (fun lock : SpinLock => lock.release.2) h.lock }

lemma fail (h : ObsEq l place s t) (writer : Nat) (fault : Fault) :
    ObsEq l place (s.fail writer fault) (t.fail writer fault) := by
  have hfind : (t.writers.find? (·.id == writer)).map (·.mapGate l.gate) =
      (s.writers.find? (·.id == writer)).map fun w => (w.mapGate l.gate).at place := by
    have hleft : (t.writers.map (·.mapGate l.gate)).find? (·.id == writer) =
        (t.writers.find? (·.id == writer)).map (·.mapGate l.gate) := List.find?_map
    have hright : (s.writers.map fun w => (w.mapGate l.gate).at place).find? (·.id == writer) =
        (s.writers.find? (·.id == writer)).map fun w => (w.mapGate l.gate).at place :=
      List.find?_map
    rw [← hleft, h.writers, hright]
  unfold Instance.fail
  rcases hs : s.writers.find? (·.id == writer) with _ | w
  · rw [hs, Option.map_none, Option.map_eq_none_iff] at hfind
    simp only [hs, hfind]
    exact h
  · rw [hs] at hfind
    obtain ⟨w', ht, hw⟩ := Option.map_eq_some_iff.1 hfind
    simp only [hs, ht]
    exact h.finish hw _

/-! ## The end of a round -/

lemma report_left (h : ObsEq l place s t) {e : Event} (he : l.event e = false) :
    ObsEq l place (s.report e) t :=
  { h with log := by rw [Instance.report, List.filter_cons_of_neg (by simp [he]), h.log] }

lemma report_right (h : ObsEq l place s t) {e : Event} (he : l.event e = false) :
    ObsEq l place s (t.report e) :=
  { h with log := by rw [Instance.report, List.filter_cons_of_neg (by simp [he]), h.log] }

/-- The styles may differ where the projection drops the event. -/
lemma reportAbandoned (h : ObsEq l place s t) {n m : Nat} (hn : m = n) :
    ObsEq l place (s.reportAbandoned n) (t.reportAbandoned m) := by
  subst hn
  unfold Instance.reportAbandoned
  rcases h.style with hstyle | ⟨hhides, -⟩
  · rw [hstyle]
    cases s.style with
    | exclusive => exact h
    | combining => exact h.report rfl
  · cases s.style <;> cases t.style
    · exact h
    · exact h.report_right (hhides.batchAbandoned _)
    · exact h.report_left (hhides.batchAbandoned _)
    · exact h.report rfl

lemma abandon (h : ObsEq l place s t) (batch : Batch α ρ) (fault : Fault) :
    ObsEq l place (s.abandon batch fault) (t.abandon (placed place batch) fault) := by
  have hblank := h.modifyCells batch fun _ => {}
  unfold Instance.abandon abandonAs
  revert hblank
  generalize batch.foldl (fun s (i, _) => s.modifyCell i fun _ => {}) s = u
  generalize (placed place batch).foldl (fun t (i, _) => t.modifyCell i fun _ => {}) t = v
  intro hblank
  have hended :
      ObsEq l place (u.reportAbandoned batch.length)
          (v.reportAbandoned (placed place batch).length) :=
    hblank.reportAbandoned (length_placed place batch)
  cases batch with
  | nil => exact hended.unlock
  | cons x batch => exact (hended.fail x.2.writer fault).unlock

lemma complete (h : ObsEq l place s t) (batch : Batch α ρ) (old : Side)
    (hevent : ∀ n side, [Gate.appliedEvent t.gate n side].filter l.event =
      [Gate.appliedEvent s.gate n side].filter l.event) :
    ObsEq l place (s.complete batch old) (t.complete (placed place batch) old) := by
  have hblank := h.modifyCells batch ({ · with request := none })
  have hgates : (batch.foldl (fun s (i, _) => s.modifyCell i ({ · with request := none })) s).gate =
      s.gate ∧ ((placed place batch).foldl
        (fun t (i, _) => t.modifyCell i ({ · with request := none })) t).gate = t.gate := by
    simp only [foldl_modifyCell, and_self]
  unfold Instance.complete
  revert hblank hgates
  generalize batch.foldl (fun s (i, _) => s.modifyCell i ({ · with request := none })) s = u
  generalize (placed place batch).foldl
    (fun t (i, _) => t.modifyCell i ({ · with request := none })) t = v
  rintro hblank ⟨hs, ht⟩
  have hcounted : ObsEq l place
      { u with mutations := u.mutations + batch.length, batches := u.batches + 1 }
      { v with mutations := v.mutations + (placed place batch).length, batches := v.batches + 1 } :=
    { hblank with
      mutations := by rw [hblank.mutations, length_placed]
      batches := by rw [hblank.batches] }
  refine (hcounted.report ?_).unlock
  simp only [hs, ht]
  rcases hblank.style with hstyle | ⟨hhides, hhides'⟩
  · rw [hstyle, length_placed, hblank.mutations, hblank.batches]
    cases u.style with
    | exclusive => exact hevent _ _
    | combining => rfl
  · cases u.style <;> cases v.style <;>
      simp [hhides.applied, hhides'.applied, hhides.batchApplied]

end ObsEq

end Instance

end TwinCopy
