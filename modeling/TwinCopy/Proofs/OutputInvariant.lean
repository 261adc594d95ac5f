import TwinCopy.Proofs.CopyInvariant

/-!
# The outputs of writers

If the copies are equal at the start, the outputs at the cells are those of a single object to which
the batches are applied one after the other, and so are the outcomes of the finished writers: each
of them finishes once, with the outcome of its own request.
-/

namespace TwinCopy

variable {γ κ δ α ρ : Type} [Gate γ κ δ] {a : α} {h : History γ κ δ α ρ}
  {s s' : Instance γ δ α ρ} {t t' : Option (Task α ρ)}

/-- The outputs at the cells of the batch, and the outcomes of the finished writers, are those of a
single object with initial value `a`. -/
structure OutputInv (a : α) (h : History γ κ δ α ρ) (s : Instance γ δ α ρ)
    (t : Option (Task α ρ)) : Prop where
  outputs : ∀ u ∈ t, ∀ before x after, u.served = before ++ x :: after →
    x.2.mutation.outcome (replay a (requests h.completed ++ before.map Prod.snd)) =
      (cellAt s.cells x.1).outcome
  finished : ((h.emptied ++ s.finished.reverse).map Finished.answer).Perm
    (h.turnedAway.map (·, .error (.misuse .foreignSlot)) ++ answers a (requests h.completed))

/-- A split of a list extended by one element is the last one, or a split of the list. -/
lemma eq_or_split_of_concat {β : Type} {l before after : List β} {x y : β}
    (h : l ++ [x] = before ++ y :: after) :
    (before = l ∧ y = x) ∨ ∃ after', l = before ++ y :: after' := by
  rcases List.eq_nil_or_concat' after with rfl | ⟨after', z, rfl⟩
  · obtain ⟨rfl, hxy⟩ := List.append_inj' h rfl
    exact .inl ⟨rfl, (List.singleton_inj.1 hxy).symm⟩
  · rw [← List.cons_append, ← List.append_assoc] at h
    exact .inr ⟨after', (List.append_inj' h rfl).1⟩

namespace OutputInv

/-- `OutputInv` depends on the outputs at the cells and the finished writers only. -/
lemma congr (hac : OutputInv a h s t)
    (hcells : ∀ i, (cellAt s'.cells i).outcome = (cellAt s.cells i).outcome)
    (hfinished : s'.finished = s.finished) : OutputInv a h s' t where
  outputs u hu before x after heq := by
    rw [hcells]
    exact hac.outputs u hu before x after heq
  finished := hfinished ▸ hac.finished

/-- An action that completes nothing and finishes no writer preserves the invariant. -/
lemma cons (hac : OutputInv a h s t) {d : Action γ κ δ α ρ} (hcompleted : d.batchCompleted = [])
    (hemptied : d.writersEmptied = []) (hturnedAway : d.writerTurnedAway = []) :
    OutputInv a (d :: h) s t where
  outputs := by
    rw [History.completed_cons, hcompleted, List.append_nil]
    exact hac.outputs
  finished := by
    rw [History.completed_cons, History.emptied_cons, History.turnedAway_cons, hcompleted, hemptied,
      hturnedAway, List.append_nil, List.append_nil, List.append_nil]
    exact hac.finished

/-- In the first pass an application stores its output at its cell. -/
lemma apply_first {done rest : Batch α ρ} {x : Nat × Request α ρ} {old : Side} {n : Nat}
    (hac : OutputInv a h s (some ⟨.first, done, x :: rest, old⟩))
    (hd : CellInv s.cells s.writers n (some ⟨.first, done, x :: rest, old⟩))
    (hl : CopyInv ⟨a, a⟩ h s (some ⟨.first, done, x :: rest, old⟩)) (hx : x.2.mutation.Regular)
    (hpass : s.pass old.opposite 1 [x] = (.ok (), s')) :
    OutputInv a (.applied s old.opposite .first x.2 :: h) s'
      (some ⟨.first, done ++ [x], rest, old⟩) := by
  obtain ⟨output, gate, registry, log, note, houtcome, rfl, -⟩ := Instance.pass_ok hpass
  have hcell : ∀ i, cellAt (s.cells.modify x.1 ({ · with result := some output })) i =
      if x.1 = i then { cellAt s.cells i with result := some output } else cellAt s.cells i :=
    fun i => cellAt_modify _ _ _ (.inl (Instance.length_cells_of_request
      (hd.batch _ rfl x (List.mem_append_right done List.mem_cons_self))))
  -- so far the inactive copy has the completed batches and the applied part of this one
  have hcopy : s.copies.get old.opposite =
      replay a (requests h.completed ++ done.map Prod.snd) := by
    have hside : s.activeSide.opposite = old.opposite := by
      rw [hl.target _ rfl, Side.opposite_opposite]
      rfl
    rw [hl.copies, ← hside, hl.inactive]
    cases s.activeSide.opposite <;> rfl
  have hout : x.2.mutation.outcome (replay a (requests h.completed ++ done.map Prod.snd)) =
      .ok output := by
    rw [Mutation.outcome, ← hcopy, houtcome]
    rfl
  refine ⟨?_, ?_⟩
  · rintro u ⟨⟩ before y after heq
    simp only [History.completed_cons, Action.batchCompleted, List.append_nil, if_true, hcell]
    rcases eq_or_split_of_concat heq with ⟨rfl, rfl⟩ | ⟨after', hdone⟩
    · rw [if_pos rfl, hout]
      rfl
    · -- the requests of a batch have different cells
      have hne : x.1 ≠ y.1 := by
        have hy : y ∈ done := hdone ▸ List.mem_append_right before List.mem_cons_self
        exact Nat.ne_of_gt ((List.pairwise_append.1 (hd.sorted _ rfl)).2.2 y hy x
          List.mem_cons_self)
      rw [if_neg hne]
      exact hac.outputs _ rfl before y after' hdone
  · simpa [Action.writerTurnedAway] using hac.finished

/-- When a round is completed, the writers of its batch finish with the outcomes of their
requests. -/
lemma complete {batch : Batch α ρ} {old : Side} {n : Nat}
    (hac : OutputInv a h s (some ⟨.second, batch, [], old⟩))
    (hd : CellInv s.cells s.writers n (some ⟨.second, batch, [], old⟩)) :
    OutputInv a (.completed batch :: h) (s.complete batch old) none := by
  obtain ⟨cells, log, hcomplete, -, -⟩ := Instance.complete_spec hd rfl old
  have hcollected := Instance.collected_perm hd rfl
  have houtputs := hac.outputs _ rfl
  have hbatch : Task.batch ⟨.second, batch, [], old⟩ = batch := List.append_nil batch
  have hserved : Task.served ⟨.second, batch, [], old⟩ = batch := hbatch
  rw [hbatch] at hcomplete hcollected
  rw [hserved] at houtputs
  have hanswers : answers (replay a (requests h.completed)) (batch.map Prod.snd) =
      batch.map fun x => (x.2.writer, (cellAt s.cells x.1).outcome) := by
    refine answers_eq_map fun before x after heq => ?_
    rw [← replay_append]
    exact houtputs before x after heq
  refine ⟨nofun, ?_⟩
  rw [hcomplete]
  simp only [History.emptied_cons, History.turnedAway_cons, History.completed_cons,
    Action.writersEmptied, Action.batchCompleted, Action.writerTurnedAway, List.append_nil,
    List.reverse_append, List.reverse_reverse, requests_append, requests_singleton, answers_append,
    hanswers, ← List.append_assoc]
  rw [List.map_append]
  exact hac.finished.append hcollected

lemma progress {actions : History γ κ δ α ρ} {n : Nat} (hp : Instance.Progress s t actions s' t')
    (hsound : s.Sound actions s') (hd : CellInv s.cells s.writers n t) (hl : CopyInv ⟨a, a⟩ h s t)
    (hregular : ∀ u ∈ t, ∀ x ∈ u.batch, x.2.mutation.Regular) (hac : OutputInv a h s t) :
    OutputInv a (actions ++ h) s' t' := by
  cases hp with
  | quiet => exact hac.congr (fun _ => rfl) rfl
  | elect =>
    refine ⟨?_, by simpa [Action.writerTurnedAway] using hac.finished⟩
    rintro u ⟨⟩ before x after heq
    simp [Task.served] at heq
  | @apply _ p done rest old x hpass =>
    have hx : x.2.mutation.Regular :=
      hregular _ rfl x (List.mem_append_right done List.mem_cons_self)
    cases p with
    | first => exact hac.apply_first hd hl hx hpass
    | second =>
      obtain ⟨output, gate, registry, log, note, houtcome, rfl, -⟩ := Instance.pass_ok hpass
      refine ⟨?_, by simpa [Action.writerTurnedAway] using hac.finished⟩
      rintro u ⟨⟩ before y after heq
      have hold := hac.outputs _ rfl before y after (by simpa [Task.served, Task.batch] using heq)
      simpa [Pass.application] using hold
  | @giveUp _ p done rest old x f hpass =>
    have hx : x.2.mutation.Regular :=
      hregular _ rfl x (List.mem_append_right done List.mem_cons_self)
    exact absurd hpass (Instance.pass_ne_error hx)
  | turn =>
    refine ⟨?_, by simpa [Action.writerTurnedAway] using hac.finished⟩
    rintro u ⟨⟩ before x after heq
    simpa using hac.outputs _ rfl before x after (by simpa [Task.served, Task.batch] using heq)
  | complete => exact hac.complete hd
  | surplus => exact absurd rfl (hsound.not_abandoned _)

lemma moved {s s' : Session γ κ δ α ρ} {m : Move α ρ} {r : Except Failure (Answer κ α)}
    (hm : s.Moved m r s') (hact : s.act m = (r, s'))
    (hac : OutputInv a h s.inst t) : OutputInv a (.moved s m :: h) s'.inst t := by
  cases hm.called hact with
  | absent _ hturnedAway hcells hfinished =>
    exact (hac.cons rfl rfl hturnedAway).congr (fun i => by rw [hcells]) hfinished
  | letIn _ _ hturnedAway hcells hfinished =>
    exact (hac.cons rfl rfl hturnedAway).congr (fun i => by rw [hcells, outcome_cellAt_modify])
      hfinished
  | turnedAway _ _ hturnedAway hcells hfinished =>
    refine ⟨fun u hu before x after heq => ?_, ?_⟩
    · rw [hcells]
      simpa using hac.outputs u hu before x after heq
    · rw [History.turnedAway_cons, hturnedAway, hfinished]
      simp only [History.emptied_cons, Action.writersEmptied, History.completed_cons,
        Action.batchCompleted, List.append_nil, List.reverse_cons, List.map_append, List.map_cons,
        List.map_nil, ← List.append_assoc]
      have hperm := hac.finished.append_right [(s.started, .error (.misuse .foreignSlot))]
      rw [List.map_append, List.append_assoc (h.turnedAway.map _)] at hperm
      refine hperm.trans ?_
      rw [List.append_assoc (h.turnedAway.map _)]
      exact List.perm_append_comm.append_left _

lemma emptied {s : Session γ κ δ α ρ} (hac : OutputInv a h s.inst t) :
    OutputInv a (.emptied s.inst.finished s.inst.log :: h)
      { s.inst with finished := [], log := [] } t where
  outputs := by simpa using hac.outputs
  finished := by simpa [Action.writerTurnedAway] using hac.finished

end OutputInv

end TwinCopy
