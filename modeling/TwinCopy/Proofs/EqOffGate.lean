import TwinCopy.Proofs.Frame
import TwinCopy.Session.Script

/-!
# Instances that differ in the gate

What an instance does with cells, writers and copies does not depend on its gate, registry or log.
`EqOffGate` relates two instances, possibly with different types of gate, that agree in all other
components; the gate views recorded by writers are compared after a map
`shown : GateView → GateView`. The relation is preserved by publishing a request, by finishing a
writer, and by the end of a round. Steps of scripts are compared after `Step.map`, which renames
tickets, maps the views of the gate and drops the events.
-/

namespace TwinCopy

variable {γ κ δ γ' κ' δ' α ρ : Type} (shown : GateView → GateView)

/-! ## Mapping what was observed of the gate -/

/-- Applies `shown` to the gate component of a view. -/
def View.mapGate (v : View) : View :=
  { v with gate := shown v.gate }

/-- Applies `shown` to the gate component of an observation. -/
def Observation.mapGate (o : Observation α) : Observation α :=
  { o with view := o.view.mapGate shown }

/-- Applies `shown` to all observations recorded by a writer. -/
def Writer.mapGate (w : Writer α) : Writer α :=
  { w with seen := w.seen.map (·.mapGate shown) }

/-- Adds an observation to the writer with the given identity, and leaves other writers alone. -/
def Writer.addSeen (id : Nat) (o : Observation α) (w : Writer α) : Writer α :=
  if w.id = id then { w with seen := o :: w.seen } else w

lemma Writer.mapGate_addSeen (id : Nat) (o : Observation α) (w : Writer α) :
    (w.addSeen id o).mapGate shown = (w.mapGate shown).addSeen id (o.mapGate shown) := by
  by_cases h : w.id = id
  · simp [addSeen, mapGate, h]
  · simp [addSeen, mapGate, h]

/-- Applies `shown` to all observations in the record of a finished writer. -/
def Finished.mapGate (f : Finished α ρ) : Finished α ρ :=
  { f with seen := f.seen.map (·.map (·.mapGate shown)) }

/-- Renames the ticket in an answer. -/
def Answer.mapTicket (ticket : κ → κ') : Answer κ α → Answer κ' α
  | .done => .done
  | .index n => .index n
  | .text t => .text t
  | .slot s => .slot s
  | .next side version => .next side version
  | .ticket t => .ticket (ticket t)
  | .copy a => .copy a
  | .copies before after => .copies before after
  | .held b => .held b
  | .writer id => .writer id

mutual

/-- Renames the tickets of a step, applies `shown` to its views, and drops its events. -/
def Step.map (ticket : κ → κ') (shown : GateView → GateView) : Step κ α ρ → Step κ' α ρ
  | .mk answer view none finished _ =>
      .mk (answer.map (·.mapTicket ticket)) (view.mapGate shown) none
        (finished.map (·.mapGate shown)) []
  | .mk answer view (some inner) finished _ =>
      .mk (answer.map (·.mapTicket ticket)) (view.mapGate shown)
        (some (mapAll ticket shown inner)) (finished.map (·.mapGate shown)) []

/-- `Step.map` on every step of a list. -/
def Step.mapAll (ticket : κ → κ') (shown : GateView → GateView) :
    List (Step κ α ρ) → List (Step κ' α ρ)
  | [] => []
  | step :: rest => step.map ticket shown :: mapAll ticket shown rest

end

namespace Finished

variable {shown}

@[simp] lemma writer_mapGate (f : Finished α ρ) : (f.mapGate shown).writer = f.writer := rfl

@[simp] lemma outcome_mapGate (f : Finished α ρ) : (f.mapGate shown).outcome = f.outcome := rfl

lemma map_insert (w : Finished α ρ) (ws : List (Finished α ρ)) :
    (insert w ws).map (·.mapGate shown) = insert (w.mapGate shown) (ws.map (·.mapGate shown)) := by
  induction ws with
  | nil => rfl
  | cons v ws ih =>
    by_cases h : w.writer ≤ v.writer
    · simp [insert, h]
    · simp [insert, h, ih]

lemma faults_map (ws : List (Finished α ρ)) : faults (ws.map (·.mapGate shown)) = faults ws := by
  simp only [faults, List.filterMap_map, Function.comp_def, outcome_mapGate]

lemma map_deal (fs : List Fault) (ws : List (Finished α ρ)) :
    (deal fs ws).map (·.mapGate shown) = deal fs (ws.map (·.mapGate shown)) := by
  induction ws generalizing fs with
  | nil => cases fs <;> rfl
  | cons w ws ih =>
    rcases houtcome : w.outcome with f | o
    · cases fs with
      | nil => simp [deal, houtcome, ih]
      | cons g fs =>
        simp only [deal, houtcome, List.map_cons, outcome_mapGate, ih]
        rfl
    · simp [deal, houtcome, ih]

/-- The order of finished writers does not depend on their observations. -/
lemma map_inOrder (ws : List (Finished α ρ)) :
    (inOrder ws).map (·.mapGate shown) = inOrder (ws.map (·.mapGate shown)) := by
  have hsorted : (ws.foldr insert []).map (·.mapGate shown) =
      (ws.map (·.mapGate shown)).foldr insert [] := by
    induction ws with
    | nil => rfl
    | cons w ws ih => rw [List.foldr_cons, map_insert, ih, List.map_cons, List.foldr_cons]
  rw [inOrder, map_deal, hsorted, inOrder, ← hsorted, faults_map]

end Finished

/-! ## Instances -/

namespace Instance

/-- Two instances agree in all components but the gate, the registry, the round and the log. -/
structure EqOffGate (s : Instance γ δ α ρ) (t : Instance γ' δ' α ρ) : Prop where
  style : t.style = s.style
  copies : t.copies = s.copies
  cells : t.cells = s.cells
  lock : t.lock = s.lock
  mutations : t.mutations = s.mutations
  batches : t.batches = s.batches
  writers : t.writers.map (·.mapGate shown) = s.writers.map (·.mapGate shown)
  finished : t.finished.map (·.mapGate shown) = s.finished.map (·.mapGate shown)

variable {shown}

lemma map_filter_ids (ws : List (Writer α)) (n : Nat) :
    (ws.filter (·.id != n)).map (·.mapGate shown) =
      (ws.map (·.mapGate shown)).filter (·.id != n) := by
  rw [List.filter_map]
  rfl

namespace EqOffGate

variable {s : Instance γ δ α ρ} {t : Instance γ' δ' α ρ}

lemma writers_isEmpty (h : EqOffGate shown s t) : t.writers.isEmpty = s.writers.isEmpty := by
  rw [← List.isEmpty_map (f := (·.mapGate shown)), h.writers, List.isEmpty_map]

lemma ids (h : EqOffGate shown s t) : t.writers.map (·.id) = s.writers.map (·.id) := by
  have hids := congrArg (List.map fun w : Writer α => w.id) h.writers
  rwa [List.map_map, List.map_map] at hids

lemma published (h : EqOffGate shown s t) : t.published = s.published := by
  rw [Instance.published, h.cells, Instance.published]

lemma modifyCell (h : EqOffGate shown s t) (i : Nat) (f : Cell α ρ → Cell α ρ) :
    EqOffGate shown (s.modifyCell i f) (t.modifyCell i f) :=
  { h with cells := congrArg (List.modify · i f) h.cells }

lemma publish (h : EqOffGate shown s t) (i : Nat) (r : Request α ρ) :
    EqOffGate shown (s.publish i r) (t.publish i r) :=
  { h.modifyCell i _ with
    writers := by
      simp only [Instance.publish, List.map_append]
      rw [show (t.modifyCell i ({ · with request := some r })).writers = t.writers from rfl,
        h.writers]
      rfl }

lemma note (h : EqOffGate shown s t) (id : Nat) {o o' : Observation α}
    (ho : o'.mapGate shown = o.mapGate shown) :
    EqOffGate shown { s with writers := s.writers.map (·.addSeen id o) }
      { t with writers := t.writers.map (·.addSeen id o') } := by
  refine { h with writers := ?_ }
  have hmap : ∀ (ws : List (Writer α)) (o : Observation α),
      (ws.map (·.addSeen id o)).map (·.mapGate shown) =
        (ws.map (·.mapGate shown)).map (·.addSeen id (o.mapGate shown)) := by
    intro ws o
    simp only [List.map_map, Function.comp_def, Writer.mapGate_addSeen]
  rw [hmap, hmap, h.writers, ho]

lemma finish (h : EqOffGate shown s t) {w w' : Writer α} (hw : w'.mapGate shown = w.mapGate shown)
    (outcome : Except Fault ρ) : EqOffGate shown (s.finish w outcome) (t.finish w' outcome) := by
  obtain ⟨id, cell, observed, seen⟩ := w
  obtain ⟨id', cell', observed', seen'⟩ := w'
  simp only [Writer.mapGate, Writer.mk.injEq] at hw
  obtain ⟨rfl, rfl, rfl, hseen⟩ := hw
  refine { h with writers := ?_, finished := ?_ }
  · simp only [Instance.finish]
    rw [map_filter_ids, h.writers, map_filter_ids]
  · simp only [Instance.finish, List.map_cons, h.finished]
    refine congrArg (· :: _) ?_
    simp only [Finished.mapGate]
    split
    · simp only [Option.map_some, List.map_reverse, hseen]
    · rfl

lemma report (h : EqOffGate shown s t) (e e' : Event) :
    EqOffGate shown (s.report e) (t.report e') :=
  { h with }

lemma collect (h : EqOffGate shown s t) {w w' : Writer α}
    (hw : w'.mapGate shown = w.mapGate shown) :
    EqOffGate shown (s.collect w) (t.collect w') := by
  have hcell : (w'.mapGate shown).cell = (w.mapGate shown).cell := congrArg Writer.cell hw
  change w'.cell = w.cell at hcell
  unfold Instance.collect
  rw [h.cells, hcell]
  split
  · split
    · exact (h.modifyCell _ _).finish hw _
    · exact ((h.modifyCell _ _).report _ _).finish hw _
  · exact h

lemma unlock (h : EqOffGate shown s t) : EqOffGate shown s.unlock t.unlock := by
  have hfold : ∀ (ws ws' : List (Writer α)) (s : Instance γ δ α ρ) (t : Instance γ' δ' α ρ),
      ws'.map (·.mapGate shown) = ws.map (·.mapGate shown) → EqOffGate shown s t →
        EqOffGate shown (ws.foldl Instance.collect s) (ws'.foldl Instance.collect t) := by
    intro ws
    induction ws with
    | nil =>
      intro ws' s t hws h
      rw [List.map_eq_nil_iff.1 hws]
      exact h
    | cons w ws ih =>
      intro ws' s t hws h
      obtain ⟨w', ws', rfl, hw, hws⟩ := List.map_eq_cons_iff.1 hws
      exact ih ws' _ _ hws (h.collect hw)
  exact hfold _ _ _ _ h.writers
    { h with lock := congrArg (fun l : SpinLock => l.release.2) h.lock }

lemma fail (h : EqOffGate shown s t) (writer : Nat) (fault : Fault) :
    EqOffGate shown (s.fail writer fault) (t.fail writer fault) := by
  have hfind : (t.writers.find? (·.id == writer)).map (·.mapGate shown) =
      (s.writers.find? (·.id == writer)).map (·.mapGate shown) := by
    have hmap : ∀ ws : List (Writer α), (ws.find? (·.id == writer)).map (·.mapGate shown) =
        (ws.map (·.mapGate shown)).find? (·.id == writer) := by
      intro ws
      rw [List.find?_map]
      rfl
    rw [hmap, h.writers, hmap]
  unfold Instance.fail
  rcases hs : s.writers.find? (·.id == writer) with _ | w
  · rw [hs, Option.map_none, Option.map_eq_none_iff] at hfind
    simp only [hs, hfind]
    exact h
  · rw [hs] at hfind
    obtain ⟨w', ht, hw⟩ := Option.map_eq_some_iff.1 hfind
    simp only [hs, ht]
    exact h.finish hw _

lemma abandon (h : EqOffGate shown s t) (batch : List (Nat × Request α ρ)) (fault : Fault) :
    EqOffGate shown (s.abandon batch fault) (t.abandon batch fault) := by
  obtain ⟨log, hs⟩ := s.abandon_eq batch fault
  obtain ⟨log', ht⟩ := t.abandon_eq batch fault
  rw [hs, ht]
  refine EqOffGate.unlock ?_
  have hblank : EqOffGate shown
      { s with cells := batch.foldl (fun cells x => cells.modify x.1 fun _ => {}) s.cells, log }
      { t with
        cells := batch.foldl (fun cells x => cells.modify x.1 fun _ => {}) t.cells
        log := log' } := { h with cells := by rw [h.cells] }
  cases batch.head? with
  | none => exact hblank
  | some x => exact hblank.fail _ _

lemma complete [Gate γ κ δ] [Gate γ' κ' δ'] (h : EqOffGate shown s t)
    (batch : List (Nat × Request α ρ)) (old : Side) :
    EqOffGate shown (s.complete batch old) (t.complete batch old) := by
  obtain ⟨log, hs⟩ := s.complete_eq batch old
  obtain ⟨log', ht⟩ := t.complete_eq batch old
  rw [hs, ht]
  exact EqOffGate.unlock
    { h with
      cells := by rw [h.cells]
      mutations := by rw [h.mutations]
      batches := by rw [h.batches] }

end EqOffGate

end Instance

end TwinCopy
