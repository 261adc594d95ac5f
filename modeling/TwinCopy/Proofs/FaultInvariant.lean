import TwinCopy.Proofs.CopyInvariant
import TwinCopy.Proofs.Versions

/-!
# The outcomes of writers

Mutations may depend on the number of the application and on more than the copy, and may end in a
fault. Still each writer finishes once, and its outcome is determined by the history: the outcome of
the first application of its mutation if its batch was completed, and a fault if the batch was
abandoned, the one that was raised if it is the leading writer. The outputs at the cells of an
abandoned batch are discarded. This is `DeliveryInv`, for a gate of two read-indicators.
-/

namespace TwinCopy

variable {α ρ : Type}

namespace History

variable {γ κ δ : Type}

/-- The outcomes of the first applications since the latest batch was taken, in order. -/
def firsts : History γ κ δ α ρ → List (Request α ρ × Except Fault ρ)
  | .applied found side .first r :: h =>
      firsts h ++ [(r, r.mutation.outcome (found.copies.get side))]
  | [] | .took _ :: _ => []
  | _ :: h => firsts h

/-- The fault raised by the latest application. -/
def fault : History γ κ δ α ρ → Fault
  | .applied found side p r :: _ =>
      match (r.mutation.apply p.application (found.copies.get side)).outcome with
      | .error message => .raised message
      | .ok _ => .misuse .noOutput
  | _ => .misuse .noOutput

/-- The outcomes of the writers of the batches that were completed or abandoned. -/
def batchOutcomes : History γ κ δ α ρ → List (Nat × Except Fault ρ)
  | [] => []
  | .completed _ :: h => batchOutcomes h ++ (firsts h).map fun y => (y.1.writer, y.2)
  | .abandoned batch :: h => batchOutcomes h ++ abandonOutcomes (fault h) batch
  | _ :: h => batchOutcomes h

/-- A writer with an output has its request in a completed batch, and the output is that of the
first application of its mutation since that batch was taken. -/
lemma exists_completed_of_ok {h : History γ κ δ α ρ} {writer : Nat} {output : ρ}
    (hmem : (writer, .ok output) ∈ h.batchOutcomes) :
    ∃ later batch earlier r, h = later ++ .completed batch :: earlier ∧
      (r, .ok output) ∈ firsts earlier ∧ r.writer = writer := by
  have hlater : ∀ (d : Action γ κ δ α ρ) (h : History γ κ δ α ρ),
      (∃ later batch earlier r, h = later ++ .completed batch :: earlier ∧
        (r, .ok output) ∈ firsts earlier ∧ r.writer = writer) →
      ∃ later batch earlier r, d :: h = later ++ .completed batch :: earlier ∧
        (r, .ok output) ∈ firsts earlier ∧ r.writer = writer := by
    rintro d _ ⟨later, batch, earlier, r, rfl, hr⟩
    exact ⟨d :: later, batch, earlier, r, rfl, hr⟩
  induction h with
  | nil => cases hmem
  | cons d h ih =>
    cases d with
    | completed batch =>
      rcases List.mem_append.1 hmem with hmem | hmem
      · exact hlater _ _ (ih hmem)
      · obtain ⟨⟨r, o⟩, hr, heq⟩ := List.mem_map.1 hmem
        obtain ⟨rfl, rfl⟩ := Prod.mk.inj heq
        exact ⟨[], batch, h, r, rfl, hr, rfl⟩
    | abandoned batch =>
      rcases List.mem_append.1 hmem with hmem | hmem
      · exact hlater _ _ (ih hmem)
      · exact absurd hmem (ok_notMem_abandonOutcomes _ _ _ _)
    | _ => exact hlater _ _ (ih hmem)

end History

variable {h : History Versioned Version Version α ρ} {s s' : Instance Versioned Version α ρ}
  {t t' : Option (Task α ρ)}

/-- The outputs at the cells of the batch are those of first applications, all of which are made
when the batch is completed, and the finished writers have the outcomes of their batches. -/
structure DeliveryInv (h : History Versioned Version Version α ρ)
    (s : Instance Versioned Version α ρ) (t : Option (Task α ρ)) : Prop where
  outputs : ∀ u ∈ t, h.firsts = u.served.map fun x => (x.2, (cellAt s.cells x.1).outcome)
  completed : ∀ later batch (earlier : History Versioned Version Version α ρ),
    h = later ++ .completed batch :: earlier → earlier.firsts.map Prod.fst = batch.map Prod.snd
  finished : ((h.emptied ++ s.finished.reverse).map Finished.answer).Perm
    (h.turnedAway.map (·, .error (.misuse .foreignSlot)) ++ h.batchOutcomes)

namespace DeliveryInv

/-- `DeliveryInv` depends on the outputs at the cells and the finished writers only. -/
lemma congr (hdel : DeliveryInv h s t)
    (hcells : ∀ i, (cellAt s'.cells i).outcome = (cellAt s.cells i).outcome)
    (hfinished : s'.finished = s.finished) : DeliveryInv h s' t where
  outputs u hu := by
    simpa only [hcells] using hdel.outputs u hu
  completed := hdel.completed
  finished := hfinished ▸ hdel.finished

/-- An action that completes nothing leaves the completed batches unchanged. -/
lemma completed_cons (hdel : DeliveryInv h s t) {d : Action Versioned Version Version α ρ}
    (hd : d.batchCompleted = []) (later : History Versioned Version Version α ρ)
    (batch : Batch α ρ) (earlier : History Versioned Version Version α ρ)
    (heq : d :: h = later ++ .completed batch :: earlier) :
    earlier.firsts.map Prod.fst = batch.map Prod.snd := by
  cases later with
  | nil =>
    rw [(List.cons.inj heq).1] at hd
    cases hd
  | cons d' later => exact hdel.completed later batch earlier (List.cons.inj heq).2

/-- In the first pass an application stores its output at its cell. -/
lemma apply_first {done rest : Batch α ρ} {x : Nat × Request α ρ} {old : Side} {n : Nat}
    (hdel : DeliveryInv h s (some ⟨.first, done, x :: rest, old⟩))
    (hd : CellInv s.cells s.writers n (some ⟨.first, done, x :: rest, old⟩))
    (hpass : s.pass old.opposite 1 [x] = (.ok (), s')) :
    DeliveryInv (.applied s old.opposite .first x.2 :: h) s'
      (some ⟨.first, done ++ [x], rest, old⟩) := by
  obtain ⟨output, gate, registry, log, note, houtcome, rfl, -⟩ := Instance.pass_ok hpass
  have hcell : ∀ i, cellAt (s.cells.modify x.1 ({ · with result := some output })) i =
      if x.1 = i then { cellAt s.cells i with result := some output } else cellAt s.cells i :=
    fun i => cellAt_modify _ _ _ (.inl (Instance.length_cells_of_request
      (hd.batch _ rfl x (List.mem_append_right done List.mem_cons_self))))
  have hout : x.2.mutation.outcome (s.copies.get old.opposite) = .ok output := by
    rw [Mutation.outcome, houtcome]
    rfl
  refine ⟨?_, hdel.completed_cons rfl,
    by simpa [Action.writerTurnedAway, History.batchOutcomes] using hdel.finished⟩
  rintro u ⟨⟩
  -- the other requests of the batch have other cells
  have hothers : done.map (fun y => (y.2, (cellAt (s.cells.modify x.1
      ({ · with result := some output })) y.1).outcome)) =
        done.map fun y => (y.2, (cellAt s.cells y.1).outcome) := by
    refine List.map_congr_left fun y hy => ?_
    have hne : x.1 ≠ y.1 := Nat.ne_of_gt ((List.pairwise_append.1 (hd.sorted _ rfl)).2.2 y hy x
      List.mem_cons_self)
    rw [hcell, if_neg hne]
  have hfirsts : h.firsts = done.map fun y => (y.2, (cellAt s.cells y.1).outcome) :=
    hdel.outputs _ rfl
  simp only [History.firsts, Task.served, List.map_append, List.map_cons, List.map_nil, if_true,
    hfirsts, hothers, hout]
  rw [hcell, if_pos rfl]
  rfl

/-- When a round is completed, the writers of its batch get the outputs of their mutations. -/
lemma complete {batch : Batch α ρ} {old : Side} {n : Nat}
    (hdel : DeliveryInv h s (some ⟨.second, batch, [], old⟩))
    (hd : CellInv s.cells s.writers n (some ⟨.second, batch, [], old⟩)) :
    DeliveryInv (.completed batch :: h) (s.complete batch old) none := by
  obtain ⟨cells, log, hcomplete, -, -⟩ := Instance.complete_spec hd rfl old
  have hcollected := Instance.collected_perm hd rfl
  have hbatch : Task.batch ⟨.second, batch, [], old⟩ = batch := List.append_nil batch
  have hfirsts : h.firsts = batch.map fun x => (x.2, (cellAt s.cells x.1).outcome) := by
    rw [hdel.outputs _ rfl, Task.served, hbatch]
  rw [hbatch] at hcomplete hcollected
  refine ⟨fun _ hu => (by cases hu), ?_, ?_⟩
  · intro later batch' earlier heq
    cases later with
    | nil =>
      obtain ⟨haction, rfl⟩ := List.cons.inj heq
      cases haction
      rw [hfirsts, List.map_map]
      rfl
    | cons d later => exact hdel.completed later batch' earlier (List.cons.inj heq).2
  · rw [hcomplete]
    simp only [History.emptied_cons, History.turnedAway_cons, History.batchOutcomes,
      Action.writersEmptied, Action.writerTurnedAway, List.append_nil, List.reverse_append,
      List.reverse_reverse, ← List.append_assoc, hfirsts, List.map_map, Function.comp_def]
    rw [List.map_append]
    exact hdel.finished.append hcollected

/-- When a round is abandoned, the leading writer gets the fault, and the others of the batch get no
output, whatever the first pass has stored. -/
lemma giveUp {p : Pass} {done rest : Batch α ρ} {x : Nat × Request α ρ} {old : Side} {f : Fault}
    {n : Nat} (hdel : DeliveryInv h s (some ⟨p, done, x :: rest, old⟩))
    (hd : CellInv s.cells s.writers n (some ⟨p, done, x :: rest, old⟩))
    (hpass : s.pass (p.target old) p.application [x] = (.error f, s')) :
    DeliveryInv (.abandoned (done ++ x :: rest) :: .applied s (p.target old) p x.2 :: h)
      (s'.abandon (done ++ x :: rest) f) none := by
  obtain ⟨message, gate, registry, log, note, houtcome, rfl, rfl, hlook⟩ :=
    Instance.pass_error hpass
  obtain ⟨cells, log', gone, habandon, -, -, hgone⟩ := Instance.abandon_spec
    (s := { s with
      copies := s.copies.set (p.target old)
        (x.2.mutation.apply p.application (s.copies.get (p.target old))).copy
      gate, registry, log
      writers := s.writers.map note }) (hd.map hlook.note) (.raised message)
  simp only [Task.batch] at habandon hgone
  refine ⟨fun _ hu => (by cases hu), ?_, ?_⟩
  · intro later batch earlier heq
    cases later with
    | nil => cases (List.cons.inj heq).1
    | cons d later =>
      exact hdel.completed_cons rfl later batch earlier (List.cons.inj heq).2
  rw [habandon]
  have hbatchOutcomes : History.batchOutcomes (.abandoned (done ++ x :: rest) ::
      .applied s (p.target old) p x.2 :: h) =
        h.batchOutcomes ++ abandonOutcomes (.raised message) (done ++ x :: rest) := by
    simp only [History.batchOutcomes, History.fault, houtcome]
  rw [hbatchOutcomes]
  simp only [History.emptied_cons, History.turnedAway_cons, Action.writersEmptied,
    Action.writerTurnedAway, List.append_nil, List.reverse_append, ← List.append_assoc]
  rw [List.map_append, List.map_reverse]
  exact hdel.finished.append ((List.reverse_perm _).trans hgone)

lemma progress {actions : History Versioned Version Version α ρ} {n : Nat}
    (hp : Instance.Progress s t actions s' t') (hd : CellInv s.cells s.writers n t)
    (hdel : DeliveryInv h s t) : DeliveryInv (actions ++ h) s' t' := by
  have hfinished : ∀ d : Action Versioned Version Version α ρ, d.writersEmptied = [] →
      d.writerTurnedAway = [] → History.batchOutcomes (d :: h) = h.batchOutcomes →
      ((History.emptied (d :: h) ++ s.finished.reverse).map Finished.answer).Perm
        ((History.turnedAway (d :: h)).map (·, .error (.misuse .foreignSlot)) ++
          History.batchOutcomes (d :: h)) := by
    intro d hemptied hturnedAway hbatchOutcomes
    rw [History.emptied_cons, History.turnedAway_cons, hemptied, hturnedAway, hbatchOutcomes,
      List.append_nil, List.append_nil]
    exact hdel.finished
  cases hp with
  | quiet => exact hdel.congr (fun _ => rfl) rfl
  | elect =>
    refine ⟨?_, hdel.completed_cons rfl, hfinished _ rfl rfl rfl⟩
    rintro u ⟨⟩
    rfl
  | @apply _ p done rest old x hpass =>
    cases p with
    | first => exact hdel.apply_first hd hpass
    | second =>
      obtain ⟨output, gate, registry, log, note, -, rfl, -⟩ := Instance.pass_ok hpass
      refine ⟨?_, hdel.completed_cons rfl, hfinished _ rfl rfl rfl⟩
      rintro u ⟨⟩
      simpa [Task.served, Task.batch, Pass.application, History.firsts] using hdel.outputs _ rfl
  | giveUp hpass => exact hdel.giveUp hd hpass
  | turn =>
    refine ⟨?_, hdel.completed_cons rfl, hfinished _ rfl rfl rfl⟩
    rintro u ⟨⟩
    simpa [Task.served, Task.batch, History.firsts] using hdel.outputs ⟨.first, _, [], _⟩ rfl
  | complete => exact hdel.complete hd
  | surplus h => cases h

lemma moved {s s' : Session Versioned Version Version α ρ} {m : Move α ρ}
    {r : Except Failure (Answer Version α)} (hm : s.Moved m r s') (hact : s.act m = (r, s'))
    (hdel : DeliveryInv h s.inst t) : DeliveryInv (.moved s m :: h) s'.inst t := by
  have houtputs : (∀ i, (cellAt s'.inst.cells i).outcome = (cellAt s.inst.cells i).outcome) →
      ∀ u ∈ t, History.firsts (.moved s m :: h) =
        u.served.map fun x => (x.2, (cellAt s'.inst.cells x.1).outcome) := by
    intro hcells u hu
    simp only [hcells]
    exact hdel.outputs u hu
  cases hm.called hact with
  | absent _ hturnedAway hcells hfinished =>
    refine ⟨houtputs fun i => by rw [hcells], hdel.completed_cons rfl, ?_⟩
    simpa [hturnedAway, hfinished, History.batchOutcomes] using hdel.finished
  | letIn _ _ hturnedAway hcells hfinished =>
    refine ⟨houtputs fun i => by rw [hcells, outcome_cellAt_modify], hdel.completed_cons rfl, ?_⟩
    simpa [hturnedAway, hfinished, History.batchOutcomes] using hdel.finished
  | turnedAway _ _ hturnedAway hcells hfinished =>
    refine ⟨houtputs fun i => by rw [hcells], hdel.completed_cons rfl, ?_⟩
    rw [History.turnedAway_cons, hturnedAway, hfinished]
    simp only [History.emptied_cons, Action.writersEmptied, History.batchOutcomes, List.append_nil,
      List.reverse_cons, List.map_append, List.map_cons, List.map_nil, ← List.append_assoc]
    have hperm := hdel.finished.append_right [(s.started, .error (.misuse .foreignSlot))]
    rw [List.map_append, List.append_assoc (h.turnedAway.map _)] at hperm
    refine hperm.trans ?_
    rw [List.append_assoc (h.turnedAway.map _)]
    exact List.perm_append_comm.append_left _

lemma emptied {s : Session Versioned Version Version α ρ} (hdel : DeliveryInv h s.inst t) :
    DeliveryInv (.emptied s.inst.finished s.inst.log :: h)
      { s.inst with finished := [], log := [] } t where
  outputs := hdel.outputs
  completed := hdel.completed_cons rfl
  finished := by simpa [Action.writerTurnedAway, History.batchOutcomes] using hdel.finished

end DeliveryInv

/-! ## Arbitrary mutations -/

/-- The invariants of sessions over a gate of two read-indicators, for arbitrary mutations. -/
structure FaultInv (s : Session Versioned Version Version α ρ)
    (h : History Versioned Version Version α ρ) (t : Option (Task α ρ)) : Prop where
  room : s.EnoughCells
  cellInv : CellInv s.inst.cells s.inst.writers s.started t
  requestInv : RequestInv h s.inst t
  deliveryInv : DeliveryInv h s.inst t

/-- `FaultInv` holds at every point of every schedule. -/
theorem faultInv_after {style : Style} {init : Copies α} {gate : Versioned} {registry : Registry}
    {cells : Nat} {wait : WaitPolicy}
    (hroom : (Session.ofInstance (.fresh style init gate registry cells wait) :
      Session Versioned Version Version α ρ).EnoughCells) (ticks : List (Tick α ρ)) :
    let p := (Point.start (.ofInstance (.fresh style init gate registry cells wait) :
      Session Versioned Version Version α ρ)).after ticks
    FaultInv p.session p.history p.task? := by
  refine Point.invariant_after (fun _ hact hm hb => ?_) (fun hp hb => ?_) (fun hb => ?_)
    (Session.exclusive_fresh _ _ _ _ _ _) ?_
  · exact ⟨hb.room.moved hm, hb.cellInv.moved hm hb.room,
      hb.requestInv.moved hact hm hb.room hb.cellInv, hb.deliveryInv.moved hm hact⟩
  · exact ⟨hb.room.progress hp, hb.cellInv.progress hp, hb.requestInv.progress hp hb.cellInv,
      hb.deliveryInv.progress hp hb.cellInv⟩
  · exact ⟨{ hb.room with }, hb.cellInv, hb.requestInv.cons rfl rfl hb.requestInv.pending,
      hb.deliveryInv.emptied⟩
  · refine ⟨hroom, .fresh style init gate registry cells 0 wait,
      .fresh style init gate registry cells wait,
        ⟨nofun, fun later batch earlier heq => ?_, .refl _⟩⟩
    cases later <;> cases heq

end TwinCopy
