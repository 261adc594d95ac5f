import Mathlib.Data.List.Nodup
import TwinCopy.Proofs.Stages

/-!
# Writers and their cells

Every writer inside has its request at a cell of its own, every request has its writer, and the
outputs at the cells belong to the round under way. This is `CellInv`, which holds at every point of
every schedule, whatever the gate and the mutations; `complete_spec` and `abandon_spec` give the
effect of the end of a round on it.
-/

namespace TwinCopy

variable {γ κ δ α ρ : Type}

/-! ## Cells -/

/-- The content of a cell, which is blank if there is no such cell. -/
def cellAt (cells : List (Cell α ρ)) (i : Nat) : Cell α ρ :=
  cells[i]?.getD {}

lemma cellAt_modify (cells : List (Cell α ρ)) (i j : Nat) {f : Cell α ρ → Cell α ρ}
    (hf : i < cells.length ∨ f {} = {}) :
    cellAt (cells.modify i f) j = if i = j then f (cellAt cells j) else cellAt cells j := by
  unfold cellAt
  rw [List.getElem?_modify]
  split
  · next h =>
    subst h
    rcases hc : cells[i]? with _ | c
    · simp [hf.resolve_left (Nat.not_lt.2 (List.getElem?_eq_none_iff.1 hc))]
    · simp
  · simp

/-- Storing an output does not change the requests. -/
@[simp] lemma request_cellAt_modify (cells : List (Cell α ρ)) (i j : Nat) (o : ρ) :
    (cellAt (cells.modify i ({ · with result := some o })) j).request =
      (cellAt cells j).request := by
  unfold cellAt
  rw [List.getElem?_modify]
  split
  · cases cells[j]? <;> rfl
  · simp

lemma cellAt_foldl_modify (batch : Batch α ρ) (cells : List (Cell α ρ)) (i : Nat)
    {f : Cell α ρ → Cell α ρ} (hf : f {} = {}) (hff : ∀ c, f (f c) = f c) :
    cellAt (batch.foldl (fun cells x => cells.modify x.1 f) cells) i =
      if i ∈ batch.map Prod.fst then f (cellAt cells i) else cellAt cells i := by
  induction batch generalizing cells with
  | nil => simp
  | cons x batch ih =>
    rw [List.foldl_cons, ih, cellAt_modify _ _ _ (.inr hf)]
    by_cases hx : x.1 = i
    · subst hx
      simp only [List.map_cons, List.mem_cons, true_or, if_true, hff, ite_self]
    · simp only [List.map_cons, List.mem_cons, Ne.symm hx, hx, false_or, if_false]

/-- A batch that is sorted by its cells has no duplicates. -/
lemma Batch.nodup {batch : Batch α ρ} (h : batch.Pairwise (·.1 < ·.1)) : batch.Nodup := by
  refine h.imp ?_
  rintro x y hlt rfl
  exact Nat.lt_irrefl _ hlt

namespace Instance

lemma mem_published {s : Instance γ δ α ρ} {x : Nat × Request α ρ} :
    x ∈ s.published ↔ (cellAt s.cells x.1).request = some x.2 := by
  obtain ⟨i, r⟩ := x
  simp only [published, List.mem_filterMap, Prod.exists, List.mem_zipIdx_iff_getElem?, cellAt]
  constructor
  · rintro ⟨c, j, hc, hr⟩
    obtain ⟨r', hr', heq⟩ := Option.map_eq_some_iff.1 hr
    obtain ⟨rfl, rfl⟩ := Prod.mk.inj heq
    rw [hc]
    exact hr'
  · intro hr
    rcases hc : s.cells[i]? with _ | c
    · simp [hc] at hr
    · refine ⟨c, i, hc, ?_⟩
      simp only [hc, Option.getD_some] at hr
      simp [hr]

/-- The published requests are sorted by their cells, with at most one at each. -/
lemma published_pairwise (s : Instance γ δ α ρ) : s.published.Pairwise (·.1 < ·.1) := by
  unfold published
  rw [List.pairwise_filterMap]
  have hidx : (s.cells.zipIdx.map Prod.snd).Pairwise (· < ·) := by
    rw [List.zipIdx_map_snd]
    exact List.pairwise_lt_range'
  rw [List.pairwise_map] at hidx
  refine hidx.imp ?_
  rintro ⟨c, i⟩ ⟨c', j⟩ hij x hx y hy
  obtain ⟨r, -, rfl⟩ := Option.map_eq_some_iff.1 hx
  obtain ⟨r', -, rfl⟩ := Option.map_eq_some_iff.1 hy
  exact hij

lemma published_nodup (s : Instance γ δ α ρ) : s.published.Nodup :=
  Batch.nodup s.published_pairwise

lemma length_cells_of_request {cells : List (Cell α ρ)} {i : Nat} {r : Request α ρ}
    (h : (cellAt cells i).request = some r) : i < cells.length := by
  by_contra hi
  rw [cellAt, List.getElem?_eq_none (Nat.le_of_not_lt hi)] at h
  cases h

end Instance

/-! ## Writers collect their outputs -/

/-- The record of a finished writer. -/
def Writer.done (w : Writer α) (outcome : Except Fault ρ) : Finished α ρ :=
  ⟨w.id, outcome, if w.observed then some w.seen.reverse else none⟩

/-- The identity and the outcome of a finished writer. -/
def Finished.answer (f : Finished α ρ) : Nat × Except Fault ρ :=
  (f.writer, f.outcome)

/-- The outcome for a writer whose request was withdrawn, from the content of its cell. -/
def Cell.outcome? (c : Cell α ρ) : Option (Except Fault ρ) :=
  match c.request, c.result with
  | some _, _ => none
  | none, some output => some (.ok output)
  | none, none => some (.error (.misuse .noOutput))

lemma Cell.outcome?_isSome (c : Cell α ρ) : c.outcome?.isSome = c.request.isNone := by
  obtain ⟨_ | r, _ | o⟩ := c <;> rfl

namespace Instance

/-- The misuse events for finished writers that found no output. -/
def misuseEvents (gone : List (Finished α ρ)) : List Event :=
  List.replicate (gone.countP fun f => !f.outcome.isOk) (.misused .noOutput)

lemma misuseEvents_append (gone gone' : List (Finished α ρ)) :
    misuseEvents (gone ++ gone') = misuseEvents gone' ++ misuseEvents gone := by
  rw [misuseEvents, List.countP_append, Nat.add_comm, List.replicate_add]
  rfl

/-- If none of them found an output, there is one misuse event for each. -/
lemma misuseEvents_eq_replicate {β : Type} {gone : List (Finished α ρ)} {ws : List β} {id : β → Nat}
    (h : gone.map Finished.answer = ws.map fun w => (id w, .error (.misuse .noOutput))) :
    misuseEvents gone = List.replicate gone.length (.misused .noOutput) := by
  have hall : ∀ f ∈ gone, (!f.outcome.isOk) = true := by
    intro f hf
    have hmem : f.answer ∈ gone.map Finished.answer := List.mem_map_of_mem hf
    rw [h] at hmem
    obtain ⟨w, -, heq⟩ := List.mem_map.1 hmem
    rw [show f.outcome = _ from congrArg Prod.snd heq.symm]
    rfl
  rw [misuseEvents, List.countP_eq_length.2 hall]

lemma collect_eq (s : Instance γ δ α ρ) {w : Writer α} (hw : w.cell < s.cells.length) :
    match (cellAt s.cells w.cell).outcome? with
    | none => s.collect w = s
    | some outcome => s.collect w =
        { s with
          cells := s.cells.modify w.cell ({ · with result := none })
          writers := s.writers.filter (·.id != w.id)
          finished := w.done outcome :: s.finished
          log := misuseEvents [w.done outcome] ++ s.log } := by
  have hcell : s.cells[w.cell]? = some (cellAt s.cells w.cell) := by
    rw [cellAt, List.getElem?_eq_getElem hw, Option.getD_some]
  unfold collect
  rw [hcell]
  rcases cellAt s.cells w.cell with ⟨_ | r, _ | o⟩
  · rfl
  · rfl
  · rfl
  · rfl

/-- The records of those writers of a list whose requests were withdrawn. -/
def departures (cells : List (Cell α ρ)) (ws : List (Writer α)) : List (Finished α ρ) :=
  ws.filterMap fun w => (cellAt cells w.cell).outcome?.map w.done

/-- The identities of those writers of a list whose requests were withdrawn. -/
def withdrawnWriters (cells : List (Cell α ρ)) (ws : List (Writer α)) : List Nat :=
  (ws.filter fun w => (cellAt cells w.cell).request.isNone).map Writer.id

lemma departures_congr {cells cells' : List (Cell α ρ)} {ws : List (Writer α)}
    (h : ∀ w ∈ ws, cellAt cells w.cell = cellAt cells' w.cell) :
    departures cells ws = departures cells' ws :=
  List.filterMap_congr fun w hw => by rw [h w hw]

lemma leaving_congr {cells cells' : List (Cell α ρ)} {ws : List (Writer α)}
    (h : ∀ w ∈ ws, cellAt cells w.cell = cellAt cells' w.cell) :
    withdrawnWriters cells ws = withdrawnWriters cells' ws := by
  unfold withdrawnWriters
  rw [List.filter_congr fun w hw => by rw [h w hw]]

/-- A cell without a request is blank once its result is taken. -/
lemma cellAt_modify_result {cells : List (Cell α ρ)} {c : Nat}
    (h : (cellAt cells c).request = none) (i : Nat) :
    cellAt (cells.modify c ({ · with result := none })) i =
      if c = i then {} else cellAt cells i := by
  rw [cellAt_modify _ _ _ (.inr rfl)]
  split
  · next hi => simp [← hi, h]
  · rfl

lemma filter_id_ne (ws : List (Writer α)) (id : Nat) (ids : List Nat) :
    (ws.filter (·.id != id)).filter (·.id ∉ ids) = ws.filter (·.id ∉ id :: ids) := by
  rw [List.filter_filter]
  refine List.filter_congr fun w _ => ?_
  simp only [List.mem_cons, not_or, Bool.decide_and, decide_not, bne, Bool.and_comm, beq_eq_decide]

/-- Writers collect their outputs one after the other. Each finds the cell as it was at the start,
as no two writers share one. -/
lemma foldl_collect (ws : List (Writer α)) (s : Instance γ δ α ρ)
    (hcells : (ws.map Writer.cell).Nodup) (hin : ∀ w ∈ ws, w.cell < s.cells.length) :
    ∃ cells, ws.foldl collect s =
        { s with
          cells
          log := misuseEvents (departures s.cells ws) ++ s.log
          writers := s.writers.filter fun v => v.id ∉ withdrawnWriters s.cells ws
          finished := (departures s.cells ws).reverse ++ s.finished } ∧
      cells.length = s.cells.length ∧
      ∀ i, cellAt cells i = if i ∈ ws.map Writer.cell ∧ (cellAt s.cells i).request = none then {}
        else cellAt s.cells i := by
  induction ws generalizing s with
  | nil => exact ⟨s.cells, by simp [withdrawnWriters, departures, misuseEvents], rfl, by simp⟩
  | cons w ws ih =>
    obtain ⟨hw, hws⟩ := List.forall_mem_cons.1 hin
    obtain ⟨hnot, hcells⟩ := List.nodup_cons.1 hcells
    have hother : ∀ v ∈ ws, w.cell ≠ v.cell :=
      fun v hv h => hnot (List.mem_map.2 ⟨v, hv, h.symm⟩)
    have hcollect := s.collect_eq hw
    rw [List.foldl_cons]
    rcases houtcome : (cellAt s.cells w.cell).outcome? with _ | outcome
    · -- its request is still there, so the writer stays and its cell is unchanged
      simp only [houtcome] at hcollect
      have hrequest : (cellAt s.cells w.cell).request.isNone = false := by
        rw [← Cell.outcome?_isSome, houtcome, Option.isSome_none]
      rw [hcollect]
      obtain ⟨cells, h, hlength, hafter⟩ := ih s hcells hws
      refine ⟨cells, ?_, hlength, fun i => ?_⟩
      · rw [h]
        simp [withdrawnWriters, departures, houtcome, hrequest]
      · rw [hafter]
        by_cases hi : i = w.cell
        · have hsome : (cellAt s.cells i).request ≠ none := by
            intro h
            rw [← hi, h] at hrequest
            cases hrequest
          simp [hsome]
        · simp [hi]
    · -- its request is gone, so the writer takes the content of its cell, which no other writer has
      simp only [houtcome] at hcollect
      have hrequest : (cellAt s.cells w.cell).request = none := by
        rw [← Option.isNone_iff_eq_none, ← Cell.outcome?_isSome, houtcome, Option.isSome_some]
      have hmodify := cellAt_modify_result hrequest
      have hsame : ∀ v ∈ ws, cellAt (s.cells.modify w.cell ({ · with result := none })) v.cell =
          cellAt s.cells v.cell := fun v hv => by rw [hmodify, if_neg (hother v hv)]
      obtain ⟨cells, h, hlength, hafter⟩ := ih (s.collect w) hcells fun v hv => by
        rw [hcollect, List.length_modify]
        exact hws v hv
      rw [hcollect] at h hlength hafter ⊢
      refine ⟨cells, ?_, by rw [hlength, List.length_modify], fun i => ?_⟩
      · have hleaving :
            withdrawnWriters s.cells (w :: ws) = w.id :: withdrawnWriters s.cells ws := by
          simp [withdrawnWriters, hrequest]
        have hdepartures : departures s.cells (w :: ws) = w.done outcome :: departures s.cells ws :=
          by simp [departures, houtcome]
        have hlog : misuseEvents (w.done outcome :: departures s.cells ws) =
            misuseEvents (departures s.cells ws) ++ misuseEvents [w.done outcome] :=
          misuseEvents_append [w.done outcome] _
        rw [h, hleaving, hdepartures]
        simp only [leaving_congr hsame, departures_congr hsame, filter_id_ne, hlog,
          List.reverse_cons, List.append_assoc, List.singleton_append]
      · rw [hafter, hmodify]
        by_cases hi : i = w.cell
        · subst hi
          simp [hrequest]
        · simp [hi, Ne.symm hi]

/-- When the lock is released, exactly the writers whose requests were withdrawn finish, and their
cells become blank. -/
lemma unlock_spec (s : Instance γ δ α ρ) (hids : (s.writers.map Writer.id).Nodup)
    (hcells : (s.writers.map Writer.cell).Nodup) (hin : ∀ w ∈ s.writers, w.cell < s.cells.length) :
    ∃ cells, s.unlock =
        { s with
          cells
          log := misuseEvents (departures s.cells s.writers) ++ s.log
          lock := s.lock.release.2
          writers := s.writers.filter fun w => (cellAt s.cells w.cell).request.isSome
          finished := (departures s.cells s.writers).reverse ++ s.finished } ∧
      cells.length = s.cells.length ∧
      ∀ i, cellAt cells i =
        if i ∈ s.writers.map Writer.cell ∧ (cellAt s.cells i).request = none then {}
        else cellAt s.cells i := by
  obtain ⟨cells, h, hlength, hafter⟩ :=
    foldl_collect s.writers { s with lock := s.lock.release.2 } hcells hin
  refine ⟨cells, ?_, hlength, hafter⟩
  have hstay : ∀ w ∈ s.writers,
      decide (w.id ∉ withdrawnWriters s.cells s.writers) =
          (cellAt s.cells w.cell).request.isSome := by
    intro w hw
    have hmem : w.id ∈ withdrawnWriters s.cells s.writers ↔
        (cellAt s.cells w.cell).request.isNone = true := by
      simp only [withdrawnWriters, List.mem_map, List.mem_filter]
      constructor
      · rintro ⟨v, ⟨hv, hrequest⟩, hid⟩
        rwa [← List.inj_on_of_nodup_map hids hv hw hid]
      · exact fun hrequest => ⟨w, ⟨hw, hrequest⟩, rfl⟩
    rw [Bool.eq_iff_iff, decide_eq_true_iff, hmem]
    cases (cellAt s.cells w.cell).request <;> simp
  rw [unlock, h]
  simp only [List.filter_congr hstay]

/-- A writer that fails is removed from the writers inside. -/
lemma fail_spec (s : Instance γ δ α ρ) {w : Writer α} (hw : w ∈ s.writers) (fault : Fault) :
    ∃ f : Finished α ρ, f.answer = (w.id, .error fault) ∧ s.fail w.id fault =
      { s with writers := s.writers.filter (·.id != w.id), finished := f :: s.finished } := by
  unfold fail
  rcases hfind : s.writers.find? (·.id == w.id) with _ | v
  · have hnone := List.find?_eq_none.1 hfind w hw
    simp at hnone
  · have hid : v.id = w.id := by simpa using List.find?_some hfind
    exact ⟨v.done (.error fault), by rw [← hid]; rfl, by rw [hfind, ← hid]; rfl⟩

end Instance

/-! ## The invariant -/

/-- The invariant that relates cells, writers, the number of writers started, and the round under
way. -/
structure CellInv (cells : List (Cell α ρ)) (writers : List (Writer α)) (started : Nat)
    (t : Option (Task α ρ)) : Prop where
  ids : (writers.map Writer.id).Nodup
  started : ∀ w ∈ writers, w.id < started
  apart : (writers.map Writer.cell).Nodup
  request : ∀ w ∈ writers, ∃ r, (cellAt cells w.cell).request = some r ∧
    r.writer = w.id ∧ r.observed = w.observed
  writer : ∀ i r, (cellAt cells i).request = some r → ∃ w ∈ writers, w.cell = i
  batch : ∀ u ∈ t, ∀ x ∈ u.batch, (cellAt cells x.1).request = some x.2
  sorted : ∀ u ∈ t, u.batch.Pairwise (·.1 < ·.1)
  result : ∀ i, (cellAt cells i).result.isSome = true ↔ ∃ u ∈ t, i ∈ u.served.map Prod.fst

lemma Task.served_subset (u : Task α ρ) : u.served ⊆ u.batch := by
  intro x hx
  obtain ⟨_ | _, done, rest, old⟩ := u
  · exact List.mem_append_left rest hx
  · exact hx

namespace CellInv

variable {cells : List (Cell α ρ)} {writers : List (Writer α)} {n : Nat}
  {t : Option (Task α ρ)} {u : Task α ρ}

lemma lt_length (hd : CellInv cells writers n t) {w : Writer α} (hw : w ∈ writers) :
    w.cell < cells.length := by
  obtain ⟨r, hr, -⟩ := hd.request w hw
  exact Instance.length_cells_of_request hr

/-- Every cell of the batch has a writer. -/
lemma mem_cells (hd : CellInv cells writers n (some u)) {i : Nat} (hi : i ∈ u.batch.map Prod.fst) :
    i ∈ writers.map Writer.cell := by
  obtain ⟨x, hx, rfl⟩ := List.mem_map.1 hi
  obtain ⟨w, hw, hcell⟩ := hd.writer x.1 x.2 (hd.batch u rfl x hx)
  exact List.mem_map.2 ⟨w, hw, hcell⟩

/-- A batch has at most as many requests as there are cells. -/
lemma length_batch_le (hd : CellInv cells writers n (some u)) : u.batch.length ≤ cells.length := by
  have hnodup : (u.batch.map Prod.fst).Nodup :=
    (List.pairwise_map.2 (hd.sorted u rfl)).imp Nat.ne_of_lt
  have hsub : u.batch.map Prod.fst ⊆ List.range cells.length := by
    intro i hi
    obtain ⟨x, hx, rfl⟩ := List.mem_map.1 hi
    exact List.mem_range.2 (Instance.length_cells_of_request (hd.batch u rfl x hx))
  simpa using hnodup.length_le_of_subset hsub

/-- Observations recorded by writers do not affect the invariant. -/
lemma map (hd : CellInv cells writers n t) {note : Writer α → Writer α}
    (hnote : ∀ w, (note w).id = w.id ∧ (note w).cell = w.cell ∧
      (note w).observed = w.observed) : CellInv cells (writers.map note) n t where
  ids := by
    rw [List.map_map]
    simpa only [Function.comp_def, (hnote _).1] using hd.ids
  started w hw := by
    obtain ⟨v, hv, rfl⟩ := List.mem_map.1 hw
    rw [(hnote v).1]
    exact hd.started v hv
  apart := by
    rw [List.map_map]
    simpa only [Function.comp_def, (hnote _).2.1] using hd.apart
  request w hw := by
    obtain ⟨v, hv, rfl⟩ := List.mem_map.1 hw
    rw [(hnote v).1, (hnote v).2.1, (hnote v).2.2]
    exact hd.request v hv
  writer i r hr := by
    obtain ⟨w, hw, hi⟩ := hd.writer i r hr
    exact ⟨note w, List.mem_map_of_mem hw, by rw [(hnote w).2.1, hi]⟩
  batch := hd.batch
  sorted := hd.sorted
  result := hd.result

/-- A round begins with all pending requests. -/
lemma elect {s : Instance γ δ α ρ} (hd : CellInv s.cells s.writers n none) (old : Side) :
    CellInv s.cells s.writers n (some ⟨.first, [], s.published, old⟩) where
  ids := hd.ids
  started := hd.started
  apart := hd.apart
  request := hd.request
  writer := hd.writer
  batch u hu x hx := by
    cases hu
    exact Instance.mem_published.1 hx
  sorted u hu := by
    cases hu
    exact s.published_pairwise
  result i := by
    rw [hd.result]
    simp [Task.served]

/-- In the first pass an application stores an output at a cell of the batch. -/
lemma output {done rest : Batch α ρ} {x : Nat × Request α ρ} {old : Side}
    (hd : CellInv cells writers n (some ⟨.first, done, x :: rest, old⟩)) (o : ρ) :
    CellInv (cells.modify x.1 ({ · with result := some o })) writers n
      (some ⟨.first, done ++ [x], rest, old⟩) := by
  have hx : (cellAt cells x.1).request = some x.2 :=
    hd.batch _ rfl x (List.mem_append_right done List.mem_cons_self)
  have hcell : ∀ i, cellAt (cells.modify x.1 ({ · with result := some o })) i =
      if x.1 = i then { cellAt cells i with result := some o } else cellAt cells i :=
    fun i => cellAt_modify _ _ _ (.inl (Instance.length_cells_of_request hx))
  refine ⟨hd.ids, hd.started, hd.apart, ?_, ?_, ?_, ?_, ?_⟩
  · simpa only [request_cellAt_modify] using hd.request
  · simpa only [request_cellAt_modify] using hd.writer
  · rintro u ⟨⟩ y hy
    rw [request_cellAt_modify]
    exact hd.batch _ rfl y (by simpa [Task.batch] using hy)
  · rintro u ⟨⟩
    simpa [Task.batch] using hd.sorted _ rfl
  · intro i
    rw [hcell]
    simp only [Option.mem_def, Option.some.injEq, exists_eq_left', Task.served, List.map_append,
      List.mem_append, List.map_cons, List.map_nil, List.mem_singleton]
    by_cases hi : x.1 = i
    · simp [hi]
    · rw [if_neg hi, hd.result]
      simp only [Option.mem_def, Option.some.injEq, exists_eq_left', Task.served, Ne.symm hi,
        or_false]

/-- In the second pass an application does not change the cells. -/
lemma apply {done rest : Batch α ρ} {x : Nat × Request α ρ} {old : Side}
    (hd : CellInv cells writers n (some ⟨.second, done, x :: rest, old⟩)) :
    CellInv cells writers n (some ⟨.second, done ++ [x], rest, old⟩) where
  ids := hd.ids
  started := hd.started
  apart := hd.apart
  request := hd.request
  writer := hd.writer
  batch := by
    rintro u ⟨⟩
    simpa [Task.batch] using hd.batch _ rfl
  sorted := by
    rintro u ⟨⟩
    simpa [Task.batch] using hd.sorted _ rfl
  result i := by
    rw [hd.result]
    simp [Task.served, Task.batch]

/-- The turn of the side does not affect the invariant. -/
lemma turn {batch : Batch α ρ} {old : Side}
    (hd : CellInv cells writers n (some ⟨.first, batch, [], old⟩)) :
    CellInv cells writers n (some ⟨.second, [], batch, old⟩) where
  ids := hd.ids
  started := hd.started
  apart := hd.apart
  request := hd.request
  writer := hd.writer
  batch := by
    rintro u ⟨⟩
    simpa [Task.batch] using hd.batch _ rfl
  sorted := by
    rintro u ⟨⟩
    simpa [Task.batch] using hd.sorted _ rfl
  result i := by
    rw [hd.result]
    simp [Task.served, Task.batch]

/-- A cell without a writer has no request. -/
lemma request_eq_none (hd : CellInv cells writers n t) {i : Nat}
    (hfree : ∀ w ∈ writers, w.cell ≠ i) : (cellAt cells i).request = none := by
  rcases hr : (cellAt cells i).request with _ | r
  · rfl
  · obtain ⟨w, hw, hcell⟩ := hd.writer i r hr
    exact absurd hcell (hfree w hw)

/-- A new writer publishes its request at a cell without a writer. -/
lemma publish (hd : CellInv cells writers n t) {i : Nat} (hi : i < cells.length)
    (hfree : ∀ w ∈ writers, w.cell ≠ i) (mutation : Mutation α ρ) (observed : Bool) :
    CellInv (cells.modify i ({ · with request := some ⟨n, mutation, observed⟩ }))
      (writers ++ [⟨n, i, observed, []⟩]) (n + 1) t := by
  have hcell : ∀ j, cellAt (cells.modify i ({ · with request := some ⟨n, mutation, observed⟩ })) j =
      if i = j then { cellAt cells j with request := some ⟨n, mutation, observed⟩ }
      else cellAt cells j := fun j => cellAt_modify _ _ _ (.inl hi)
  -- the new writer has the largest number and a cell of its own
  refine ⟨?_, ?_, ?_, ?_, ?_, ?_, hd.sorted, ?_⟩
  · simp only [List.map_append, List.map_cons, List.map_nil]
    refine List.nodup_append.2 ⟨hd.ids, by simp, ?_⟩
    rintro a ha b hb rfl
    obtain ⟨w, hw, rfl⟩ := List.mem_map.1 ha
    exact absurd (List.mem_singleton.1 hb) (Nat.ne_of_lt (hd.started w hw))
  · intro w hw
    rcases List.mem_append.1 hw with hw | hw
    · exact Nat.lt_succ_of_lt (hd.started w hw)
    · rw [List.mem_singleton.1 hw]
      exact Nat.lt_succ_self n
  · simp only [List.map_append, List.map_cons, List.map_nil]
    refine List.nodup_append.2 ⟨hd.apart, by simp, ?_⟩
    rintro a ha b hb rfl
    obtain ⟨w, hw, rfl⟩ := List.mem_map.1 ha
    exact hfree w hw (List.mem_singleton.1 hb)
  · intro w hw
    rcases List.mem_append.1 hw with hw | hw
    · rw [hcell, if_neg (hfree w hw).symm]
      exact hd.request w hw
    · rw [List.mem_singleton.1 hw, hcell, if_pos rfl]
      exact ⟨_, rfl, rfl, rfl⟩
  · intro j r hr
    rw [hcell] at hr
    split at hr
    · next h => exact ⟨⟨n, i, observed, []⟩, by simp, h⟩
    · obtain ⟨w, hw, hj⟩ := hd.writer j r hr
      exact ⟨w, List.mem_append_left _ hw, hj⟩
  · intro u hu x hx
    have hx := hd.batch u hu x hx
    have hne : i ≠ x.1 := by
      intro h
      rw [← h, hd.request_eq_none hfree] at hx
      cases hx
    rw [hcell, if_neg hne]
    exact hx
  · intro j
    rw [← hd.result j, hcell]
    split <;> rfl

end CellInv

/-! ## The end of a round -/

/-- The outcome of a writer that finds no output. -/
abbrev noOutput : Except Fault ρ :=
  .error (.misuse .noOutput)

/-- The outcomes of the writers of an abandoned batch: the first one, which is the leading one,
passes the fault on, and the others find no output. -/
def abandonOutcomes (fault : Fault) : Batch α ρ → List (Nat × Except Fault ρ)
  | [] => []
  | x :: rest => (x.2.writer, .error fault) :: rest.map fun y => (y.2.writer, noOutput)

/-- An abandoned batch gives no output to any of its writers. -/
lemma ok_notMem_abandonOutcomes (fault : Fault) (batch : Batch α ρ) (writer : Nat) (output : ρ) :
    (writer, .ok output) ∉ abandonOutcomes fault batch := by
  cases batch <;> simp [abandonOutcomes]

lemma map_fst_abandonOutcomes (fault : Fault) (batch : Batch α ρ) :
    (abandonOutcomes fault batch).map Prod.fst = batch.map fun x => x.2.writer := by
  cases batch with
  | nil => rfl
  | cons x rest => simp [abandonOutcomes]

/-- The possible leading writers of a batch: those with a request in it. -/
def Batch.LedBy (batch : Batch α ρ) : Option Nat → Prop
  | none => batch = []
  | some writer => writer ∈ batch.map fun x => x.2.writer

lemma Batch.ledBy_head (batch : Batch α ρ) : batch.LedBy (batch.head?.map (·.2.writer)) := by
  cases batch with
  | nil => rfl
  | cons x rest => exact List.mem_cons_self

/-- The outcomes of the writers of an abandoned batch, given its leading writer. -/
def abandonOutcomesOf (leader : Option Nat) (fault : Fault) (batch : Batch α ρ) :
    List (Nat × Except Fault ρ) :=
  batch.map fun x => (x.2.writer, if leader = some x.2.writer then .error fault else noOutput)

/-- The case in which the first writer is the leading one. -/
lemma abandonOutcomesOf_head {batch : Batch α ρ} (hnodup : (batch.map fun x => x.2.writer).Nodup)
    (fault : Fault) :
    abandonOutcomesOf (batch.head?.map (·.2.writer)) fault batch = abandonOutcomes fault batch := by
  cases batch with
  | nil => rfl
  | cons x rest =>
    rw [abandonOutcomesOf, abandonOutcomes, List.map_cons, List.head?_cons, Option.map_some,
      if_pos rfl]
    refine congrArg _ (List.map_congr_left fun y hy => ?_)
    have hne : x.2.writer ≠ y.2.writer := fun heq =>
      (List.nodup_cons.1 hnodup).1 (List.mem_map.2 ⟨y, hy, heq.symm⟩)
    rw [if_neg fun heq => hne (Option.some.inj heq)]

/-- The output at a cell, as the outcome of its writer. -/
def Cell.outcome (c : Cell α ρ) : Except Fault ρ :=
  c.result.elim (.error (.misuse .noOutput)) .ok

/-- Publishing a request does not change the outputs. -/
@[simp] lemma outcome_cellAt_modify (cells : List (Cell α ρ)) (i j : Nat) (r : Request α ρ) :
    (cellAt (cells.modify i ({ · with request := some r })) j).outcome =
      (cellAt cells j).outcome := by
  unfold cellAt
  rw [List.getElem?_modify]
  split
  · cases cells[j]? <;> rfl
  · simp

/-- The writers of a batch, with their cells. -/
lemma CellInv.batch_perm {cells : List (Cell α ρ)} {writers : List (Writer α)} {n : Nat}
    {u : Task α ρ} (hd : CellInv cells writers n (some u)) :
    ((writers.filter (·.cell ∈ u.batch.map Prod.fst)).map fun w => (w.cell, w.id)).Perm
      (u.batch.map fun x => (x.1, x.2.writer)) := by
  have hwriters : ((writers.filter (·.cell ∈ u.batch.map Prod.fst)).map
      fun w => (w.cell, w.id)).Nodup := by
    refine List.Nodup.of_map Prod.fst ?_
    rw [List.map_map]
    exact (List.filter_sublist.map Writer.cell).nodup hd.apart
  have hbatch : (u.batch.map fun x => (x.1, x.2.writer)).Nodup := by
    refine List.Nodup.of_map Prod.fst ?_
    rw [List.map_map]
    exact (List.pairwise_map.2 (hd.sorted u rfl)).imp Nat.ne_of_lt
  -- both lists are without duplicates, so it suffices that they have the same members
  refine (List.perm_ext_iff_of_nodup hwriters hbatch).2 fun y => ?_
  simp only [List.mem_map, List.mem_filter, decide_eq_true_eq]
  constructor
  · rintro ⟨w, ⟨hw, x, hx, hcell⟩, rfl⟩
    obtain ⟨r, hr, hid, -⟩ := hd.request w hw
    rw [← hcell, hd.batch u rfl x hx] at hr
    cases hr
    exact ⟨x, hx, by rw [hcell, hid]⟩
  · rintro ⟨x, hx, rfl⟩
    obtain ⟨w, hw, hcell⟩ := hd.writer x.1 x.2 (hd.batch u rfl x hx)
    obtain ⟨r, hr, hid, -⟩ := hd.request w hw
    rw [hcell, hd.batch u rfl x hx] at hr
    cases hr
    exact ⟨w, ⟨hw, x, hx, hcell.symm⟩, by rw [hcell, hid]⟩

/-- No writer has two requests in a batch. -/
lemma CellInv.writers_nodup {cells : List (Cell α ρ)} {writers : List (Writer α)} {n : Nat}
    {u : Task α ρ} (hd : CellInv cells writers n (some u)) :
    (u.batch.map fun x => x.2.writer).Nodup := by
  have hperm := hd.batch_perm.map Prod.snd
  simp only [List.map_map, Function.comp_def] at hperm
  exact hperm.nodup_iff.1 ((List.filter_sublist.map Writer.id).nodup hd.ids)

namespace Instance

section

variable {s : Instance γ δ α ρ} {n : Nat} {u : Task α ρ}

/-- The records of the writers with cells in a batch, as they find the outputs there. -/
def collected (cells : List (Cell α ρ)) (writers : List (Writer α)) (batch : Batch α ρ) :
    List (Finished α ρ) :=
  writers.filterMap fun w =>
    if w.cell ∈ batch.map Prod.fst then (cellAt cells w.cell).result.map (w.done <| .ok ·) else none

/-- When a round is completed, the writers of its batch get the outputs at their cells. -/
lemma collected_perm (hd : CellInv s.cells s.writers n (some u)) (hserved : u.served = u.batch) :
    ((collected s.cells s.writers u.batch).map Finished.answer).Perm
      (u.batch.map fun x => (x.2.writer, (cellAt s.cells x.1).outcome)) := by
  have hcollected : (collected s.cells s.writers u.batch).map Finished.answer =
      ((s.writers.filter (·.cell ∈ u.batch.map Prod.fst)).map fun w => (w.cell, w.id)).map
        fun y => (y.2, (cellAt s.cells y.1).outcome) := by
    have hmap : ∀ (ws : List (Writer α)) (f : Writer α → Nat × Except Fault ρ),
        ws.map f = ws.filterMap (some ∘ f) := fun ws f => by rw [List.filterMap_eq_map]
    rw [collected, List.map_filterMap, List.map_map, hmap, List.filterMap_filter]
    refine List.filterMap_congr fun w hw => ?_
    by_cases h : w.cell ∈ u.batch.map Prod.fst
    · obtain ⟨o, ho⟩ := Option.isSome_iff_exists.1 ((hd.result w.cell).2 ⟨u, rfl, hserved ▸ h⟩)
      simp [h, ho, Cell.outcome, Writer.done, Finished.answer]
    · simp [h]
  rw [hcollected]
  refine (hd.batch_perm.map _).trans (.of_eq ?_)
  rw [List.map_map]
  rfl

/-- When the lock is released after the requests of a batch were withdrawn, the writers of the batch
finish, apart from those that have failed before. -/
lemma unlock_withdrawn (hd : CellInv s.cells s.writers n (some u)) {t : Instance γ δ α ρ}
    (hsub : t.writers.Sublist s.writers) (hlength : t.cells.length = s.cells.length)
    (hrequest : ∀ i, (cellAt t.cells i).request =
      if i ∈ u.batch.map Prod.fst then none else (cellAt s.cells i).request) :
    ∃ cells, t.unlock =
        { t with
          cells
          log := misuseEvents (departures t.cells t.writers) ++ t.log
          lock := t.lock.release.2
          writers := t.writers.filter (·.cell ∉ u.batch.map Prod.fst)
          finished := (departures t.cells t.writers).reverse ++ t.finished } ∧
      cells.length = s.cells.length ∧
      ∀ i, cellAt cells i =
        if i ∈ t.writers.map Writer.cell ∧ i ∈ u.batch.map Prod.fst then {}
        else cellAt t.cells i := by
  have hin : ∀ w ∈ t.writers, w.cell < t.cells.length := by
    intro w hw
    rw [hlength]
    exact hd.lt_length (hsub.mem hw)
  obtain ⟨cells, hunlock, hcells, hafter⟩ :=
    t.unlock_spec ((hsub.map _).nodup hd.ids) ((hsub.map _).nodup hd.apart) hin
  -- a writer has its request unless it was withdrawn
  have hnone : ∀ w ∈ t.writers, (cellAt t.cells w.cell).request = none ↔
      w.cell ∈ u.batch.map Prod.fst := by
    intro w hw
    obtain ⟨r, hr, -⟩ := hd.request w (hsub.mem hw)
    rw [hrequest]
    split
    · next h => exact iff_of_true rfl h
    · next h => exact iff_of_false (by rw [hr]; nofun) h
  have hstay : ∀ w ∈ t.writers, (cellAt t.cells w.cell).request.isSome =
      decide (w.cell ∉ u.batch.map Prod.fst) := by
    intro w hw
    rw [Bool.eq_iff_iff, decide_eq_true_iff, Option.isSome_iff_ne_none, ← hnone w hw]
  refine ⟨cells, by rw [hunlock, List.filter_congr hstay], hcells.trans hlength, fun i => ?_⟩
  have hblank : i ∈ t.writers.map Writer.cell ∧ (cellAt t.cells i).request = none ↔
      i ∈ t.writers.map Writer.cell ∧ i ∈ u.batch.map Prod.fst := by
    refine and_congr_right fun hmem => ?_
    obtain ⟨w, hw, rfl⟩ := List.mem_map.1 hmem
    exact hnone w hw
  rw [hafter]
  simp only [hblank]

/-- When a round is completed, the writers of its batch finish with their outputs, and their cells
become blank. -/
lemma complete_spec [Gate γ κ δ] (hd : CellInv s.cells s.writers n (some u))
    (hserved : u.served = u.batch) (old : Side) :
    ∃ cells log, s.complete u.batch old =
        { s with
          cells, log
          lock := s.lock.release.2
          mutations := s.mutations + u.batch.length
          batches := s.batches + 1
          writers := s.writers.filter (·.cell ∉ u.batch.map Prod.fst)
          finished := (collected s.cells s.writers u.batch).reverse ++ s.finished } ∧
      cells.length = s.cells.length ∧
      ∀ i, cellAt cells i = if i ∈ u.batch.map Prod.fst then {} else cellAt s.cells i := by
  obtain ⟨log, hcomplete⟩ := s.complete_eq u.batch old
  rw [hcomplete]
  set withdrawn := u.batch.foldl
    (fun cells x => cells.modify x.1 ({ · with request := none })) s.cells
  have hcell : ∀ i, cellAt withdrawn i = if i ∈ u.batch.map Prod.fst then
      { cellAt s.cells i with request := none } else cellAt s.cells i :=
    fun i => cellAt_foldl_modify u.batch s.cells i rfl fun _ => rfl
  have hlength : withdrawn.length = s.cells.length := Instance.length_foldl_modify _ _ _
  have hrequest : ∀ i, (cellAt withdrawn i).request =
      if i ∈ u.batch.map Prod.fst then none else (cellAt s.cells i).request := by
    intro i
    rw [hcell]
    split <;> rfl
  obtain ⟨cells, hunlock, hcells, hafter⟩ := unlock_withdrawn hd
    (t := { s with
      cells := withdrawn
      mutations := s.mutations + u.batch.length
      batches := s.batches + 1
      log }) (.refl _) hlength hrequest
  -- a cell of the batch has a result, and every other one still has its request
  have hfinished : departures withdrawn s.writers = collected s.cells s.writers u.batch := by
    refine List.filterMap_congr fun w hw => ?_
    obtain ⟨r, hr, -⟩ := hd.request w hw
    rw [hcell]
    by_cases h : w.cell ∈ u.batch.map Prod.fst
    · have hsome : (cellAt s.cells w.cell).result.isSome = true :=
        (hd.result _).2 ⟨u, rfl, by rwa [hserved]⟩
      obtain ⟨o, ho⟩ := Option.isSome_iff_exists.1 hsome
      simp [h, ho, Cell.outcome?]
    · simp [h, hr, Cell.outcome?]
  refine ⟨cells, _, by rw [hunlock, hfinished], hcells, fun i => ?_⟩
  rw [hafter, hcell]
  by_cases h : i ∈ u.batch.map Prod.fst
  · rw [if_pos ⟨hd.mem_cells h, h⟩, if_pos h]
  · rw [if_neg fun hboth => h hboth.2, if_neg h, if_neg h]

/-- In an abandoned batch the leading writer gets the fault, and the others find no output. -/
lemma abandonOutcomesOf_perm (hd : CellInv s.cells s.writers n (some u)) {leader : Nat}
    (hleader : leader ∈ u.batch.map (·.2.writer)) (fault : Fault) :
    ((leader, .error fault) ::
      (s.writers.filter fun w => decide (w.cell ∈ u.batch.map Prod.fst) && w.id != leader).map
        fun w : Writer α => (w.id, noOutput)).Perm
      (abandonOutcomesOf (some leader) fault u.batch) := by
  set ids := (s.writers.filter (·.cell ∈ u.batch.map Prod.fst)).map Writer.id with hids
  have hperm : ids.Perm (u.batch.map fun x => x.2.writer) := by
    have hbatch := hd.batch_perm.map Prod.snd
    rwa [List.map_map, List.map_map] at hbatch
  have hnodup : ids.Nodup := (List.filter_sublist.map Writer.id).nodup hd.ids
  have hothers : (ids.filter (· != leader)).map (fun id => (id, (noOutput : Except Fault ρ))) =
      (s.writers.filter fun w => decide (w.cell ∈ u.batch.map Prod.fst) && w.id != leader).map
        fun w : Writer α => (w.id, noOutput) := by
    rw [hids, List.filter_map, List.map_map, List.filter_filter]
    simp only [Function.comp_def, Bool.and_comm]
  rw [← hothers]
  have hleading := (List.perm_cons_erase (hperm.mem_iff.2 hleader)).symm.trans hperm
  have houtcomes := hleading.map fun id =>
    (id, if some leader = some id then .error fault else (noOutput : Except Fault ρ))
  rw [List.map_cons, if_pos rfl, hnodup.erase_eq_filter, List.map_map] at houtcomes
  refine .trans (.of_eq ?_) houtcomes
  congr 1
  refine List.map_congr_left fun id hid => ?_
  have hne : id ≠ leader := by simpa using (List.mem_filter.1 hid).2
  rw [if_neg fun heq => hne (Option.some.inj heq).symm]

/-- When a round is abandoned, the leading writer fails before the others collect their outputs. -/
lemma exists_fail (hd : CellInv s.cells s.writers n (some u)) {t : Instance γ δ α ρ}
    (ht : t.writers = s.writers) {leader : Option Nat} (hleader : u.batch.LedBy leader)
    (fault : Fault) :
    ∃ (writers : List (Writer α)) (gone : List (Finished α ρ)),
      leader.elim t (fun writer => t.fail writer fault) =
        { t with writers, finished := gone ++ t.finished } ∧ writers.Sublist s.writers ∧
      writers.filter (·.cell ∉ u.batch.map Prod.fst) =
        s.writers.filter (·.cell ∉ u.batch.map Prod.fst) ∧
      gone.length = min 1 u.batch.length ∧
      (gone.map Finished.answer ++
        (writers.filter fun w : Writer α => w.cell ∈ u.batch.map Prod.fst).map
          fun w : Writer α => (w.id, noOutput)).Perm (abandonOutcomesOf leader fault u.batch) := by
  rcases leader with _ | leader
  · have hnil : u.batch = [] := hleader
    exact ⟨t.writers, [], rfl,
      ht ▸ .refl _, by rw [ht], by simp [hnil], by simp [abandonOutcomesOf, hnil]⟩
  · obtain ⟨x, hx, hxleader⟩ := List.mem_map.1 hleader
    obtain ⟨w, hw, hwx⟩ := hd.writer x.1 x.2 (hd.batch u rfl x hx)
    obtain ⟨r, hr, hid, -⟩ := hd.request w hw
    rw [hwx, hd.batch u rfl x hx] at hr
    cases hr
    rw [hid] at hxleader
    subst hxleader
    obtain ⟨f, hanswer, hfail⟩ := t.fail_spec (ht ▸ hw) fault
    rw [ht] at hfail
    have hpos : 1 ≤ u.batch.length := List.length_pos_of_mem hx
    refine ⟨s.writers.filter (·.id != w.id), [f], hfail, List.filter_sublist, ?_,
      (Nat.min_eq_left hpos).symm, ?_⟩
    · -- a writer with its number is at its cell, which is in the batch
      rw [List.filter_filter]
      refine List.filter_congr fun v hv => ?_
      by_cases hne : v.id = w.id
      · rw [List.inj_on_of_nodup_map hd.ids hv hw hne, hwx]
        simp [List.mem_map_of_mem hx]
      · simp [hne]
    · -- the others of the batch are those with another number
      rw [List.map_singleton, hanswer, List.filter_filter, List.singleton_append]
      exact abandonOutcomesOf_perm hd hleader fault

/-- Lists of cells of equal length are equal if all contents are. -/
lemma eq_of_cellAt {cells cells' : List (Cell α ρ)} (hlength : cells.length = cells'.length)
    (h : ∀ i, cellAt cells i = cellAt cells' i) : cells = cells' := by
  refine List.ext_getElem hlength fun i hi hi' => ?_
  have hat := h i
  rwa [cellAt, cellAt, List.getElem?_eq_getElem hi, List.getElem?_eq_getElem hi', Option.getD_some,
    Option.getD_some] at hat

/-- Once the cells of a batch are blank, the writers at them find no output. -/
lemma answers_of_blank (hd : CellInv s.cells s.writers n (some u)) {blank : List (Cell α ρ)}
    (hblank : ∀ i, cellAt blank i =
      if i ∈ u.batch.map Prod.fst then {} else cellAt s.cells i)
    {writers : List (Writer α)} (hsub : writers.Sublist s.writers) :
    (departures blank writers).map Finished.answer =
      (writers.filter (·.cell ∈ u.batch.map Prod.fst)).map fun w => (w.id, noOutput) := by
  rw [departures, List.map_filterMap, ← List.filterMap_eq_map, List.filterMap_filter]
  refine List.filterMap_congr fun w hw => ?_
  obtain ⟨r, hr, -⟩ := hd.request w (hsub.mem hw)
  rw [hblank]
  by_cases h : w.cell ∈ u.batch.map Prod.fst
  · simp [h, Cell.outcome?, Writer.done, Finished.answer]
  · simp [h, hr, Cell.outcome?]

/-- When a round is abandoned, the writers of its batch finish, and their cells become blank. The
choice of the leading writer affects only who gets the fault. -/
lemma abandonAs_spec (hd : CellInv s.cells s.writers n (some u)) (fault : Fault) :
    ∃ cells log, cells.length = s.cells.length ∧
      (∀ i, cellAt cells i = if i ∈ u.batch.map Prod.fst then {} else cellAt s.cells i) ∧
      ∀ leader, u.batch.LedBy leader → ∃ gone, s.abandonAs leader u.batch fault =
          { s with
            cells, log
            lock := s.lock.release.2
            writers := s.writers.filter (·.cell ∉ u.batch.map Prod.fst)
            finished := gone ++ s.finished } ∧
        (gone.map Finished.answer).Perm (abandonOutcomesOf leader fault u.batch) := by
  obtain ⟨log, habandon⟩ := s.abandonAs_eq u.batch fault
  set blank := u.batch.foldl (fun cells x => cells.modify x.1 fun _ => {}) s.cells
  have hcell : ∀ i, cellAt blank i =
      if i ∈ u.batch.map Prod.fst then {} else cellAt s.cells i :=
    fun i => cellAt_foldl_modify u.batch s.cells i rfl fun _ => rfl
  have hlength : blank.length = s.cells.length := Instance.length_foldl_modify _ _ _
  have hrequest : ∀ i, (cellAt blank i).request =
      if i ∈ u.batch.map Prod.fst then none else (cellAt s.cells i).request := by
    intro i
    rw [hcell]
    split <;> rfl
  refine ⟨blank, List.replicate (u.batch.length - 1) (.misused .noOutput) ++ log, hlength, hcell,
    fun leader hleader => ?_⟩
  rw [habandon]
  obtain ⟨writers, head, hfail, hsub, hstay, hhead, houtcomes⟩ :=
    exists_fail hd (t := { s with cells := blank, log }) rfl hleader fault
  rw [hfail]
  obtain ⟨cells, hunlock, hcells, hafter⟩ := unlock_withdrawn hd
    (t := { s with cells := blank, log, writers, finished := head ++ s.finished }) hsub hlength
    hrequest
  have hdepartures := answers_of_blank hd hcell hsub
  have hblank : cells = blank := by
    refine eq_of_cellAt (hcells.trans hlength.symm) fun i => ?_
    rw [hafter]
    split
    · next h => rw [hcell, if_pos h.2]
    · rfl
  have hlog : misuseEvents (departures blank writers) =
      List.replicate (u.batch.length - 1) (.misused .noOutput) := by
    have hcount := houtcomes.length_eq
    rw [← hdepartures, List.length_append, List.length_map, List.length_map, hhead,
      abandonOutcomesOf, List.length_map] at hcount
    rw [misuseEvents_eq_replicate hdepartures]
    congr 1
    omega
  refine ⟨(departures blank writers).reverse ++ head, ?_, ?_⟩
  · rw [hunlock, hblank]
    simp only [hstay, hlog, List.append_assoc]
  · rw [List.map_append, List.map_reverse, hdepartures]
    exact (((List.reverse_perm _).append_right _).trans List.perm_append_comm).trans
      houtcomes

/-- The case in which the first writer of the batch is the leading one. -/
lemma abandon_spec (hd : CellInv s.cells s.writers n (some u)) (fault : Fault) :
    ∃ cells log gone, s.abandon u.batch fault =
        { s with
          cells, log
          lock := s.lock.release.2
          writers := s.writers.filter (·.cell ∉ u.batch.map Prod.fst)
          finished := gone ++ s.finished } ∧
      cells.length = s.cells.length ∧
      (∀ i, cellAt cells i = if i ∈ u.batch.map Prod.fst then {} else cellAt s.cells i) ∧
      (gone.map Finished.answer).Perm (abandonOutcomes fault u.batch) := by
  obtain ⟨cells, log, hlength, hcells, hleader⟩ := abandonAs_spec hd fault
  obtain ⟨gone, habandon, hgone⟩ := hleader _ u.batch.ledBy_head
  rw [abandonOutcomesOf_head hd.writers_nodup] at hgone
  exact ⟨cells, log, gone, habandon, hlength, hcells, hgone⟩

end

end Instance

namespace Instance

/-- The effect of the end of a round on writers and cells: the writers of its batch are removed and
its cells are blank; observations may have been recorded with other writers. -/
structure RoundEnded (s s' : Instance γ δ α ρ) (batch : Batch α ρ) : Prop where
  writers : ∃ note : Writer α → Writer α,
    (∀ w, (note w).id = w.id ∧ (note w).cell = w.cell ∧ (note w).observed = w.observed) ∧
      s'.writers = (s.writers.map note).filter (·.cell ∉ batch.map Prod.fst)
  cells : ∀ i, cellAt s'.cells i = if i ∈ batch.map Prod.fst then {} else cellAt s.cells i
  finished : ∃ gone : List (Finished α ρ), s'.finished = gone ++ s.finished ∧
    (gone.map Finished.writer).Perm (batch.map fun x => x.2.writer)

/-- The outcomes of a batch belong to its writers. -/
lemma writers_perm_of_answers {gone : List (Finished α ρ)} {answers : List (Nat × Except Fault ρ)}
    {batch : Batch α ρ} (h : (gone.map Finished.answer).Perm answers)
    (hanswers : answers.map Prod.fst = batch.map fun x => x.2.writer) :
    (gone.map Finished.writer).Perm (batch.map fun x => x.2.writer) := by
  have hfirst := h.map Prod.fst
  rw [List.map_map, hanswers] at hfirst
  exact hfirst

variable [Gate γ κ δ] {s s' : Instance γ δ α ρ} {n : Nat}

lemma roundEnded_complete {batch : Batch α ρ} {old old' : Side}
    (hd : CellInv s.cells s.writers n (some ⟨.second, batch, [], old⟩)) :
    s.RoundEnded (s.complete batch old') (Task.batch ⟨.second, batch, [], old⟩) := by
  obtain ⟨cells, log, hcomplete, -, hcells⟩ := complete_spec hd rfl old'
  have hbatch : Task.batch ⟨.second, batch, [], old⟩ = batch := List.append_nil batch
  have hcollected := collected_perm hd rfl
  rw [hbatch] at hcomplete hcells hcollected ⊢
  rw [hcomplete]
  refine ⟨⟨id, fun _ => ⟨rfl, rfl, rfl⟩, by rw [List.map_id]⟩, hcells, _, rfl, ?_⟩
  rw [List.map_reverse]
  exact (List.reverse_perm _).trans
    (writers_perm_of_answers hcollected (by rw [List.map_map]; rfl))

lemma roundEnded_surplus {batch : Batch α ρ} {old : Side}
    (hd : CellInv s.cells s.writers n (some ⟨.second, [], batch, old⟩)) (e : Event)
    (fault : Fault) :
    s.RoundEnded ((s.report e).abandon batch fault) batch := by
  obtain ⟨cells, log, gone, habandon, -, hcells, hgone⟩ := abandon_spec (s := s.report e) hd fault
  simp only [Task.batch, List.nil_append] at habandon hcells hgone
  rw [habandon]
  exact ⟨⟨id, fun _ => ⟨rfl, rfl, rfl⟩, by rw [List.map_id]; rfl⟩, hcells, gone, rfl,
    writers_perm_of_answers hgone (map_fst_abandonOutcomes fault batch)⟩

/-- An application that ends in a fault preserves the invariant. -/
lemma cellInv_of_pass_error {p : Pass} {side : Side} {done rest : Batch α ρ} {x : Nat × Request α ρ}
    {old : Side} {f : Fault} (hd : CellInv s.cells s.writers n (some ⟨p, done, x :: rest, old⟩))
    (h : s.pass side p.application [x] = (.error f, s')) :
    CellInv s'.cells s'.writers n (some ⟨p, done, x :: rest, old⟩) := by
  obtain ⟨_, gate, registry, log, note, -, -, hs', hlook⟩ := pass_error h
  rw [hs']
  exact hd.map hlook.note

/-- An application that ends in a fault modifies one copy, changes the gate only by its read, and
ends the round of its batch. -/
lemma giveUp_spec {p : Pass} {done rest : Batch α ρ} {x : Nat × Request α ρ} {old : Side}
    {f : Fault} (hd : CellInv s.cells s.writers n (some ⟨p, done, x :: rest, old⟩))
    (h : s.pass (p.target old) p.application [x] = (.error f, s')) :
    ∃ registry cells log gone note,
      s'.abandon (done ++ x :: rest) f =
        { s with
          copies := s.copies.set (p.target old)
            (x.2.mutation.apply p.application (s.copies.get (p.target old))).copy
          gate := (s.looked x.2).gate
          registry, cells, log
          lock := s.lock.release.2
          writers := (s.writers.map note).filter (·.cell ∉ (done ++ x :: rest).map Prod.fst)
          finished := gone ++ s.finished } ∧
      (∀ w, (note w).id = w.id ∧ (note w).cell = w.cell ∧ (note w).observed = w.observed) ∧
      (∀ i, cellAt cells i =
        if i ∈ (done ++ x :: rest).map Prod.fst then {} else cellAt s.cells i) ∧
      (gone.map Finished.answer).Perm (abandonOutcomes f (done ++ x :: rest)) := by
  obtain ⟨_, gate, registry, log, note, -, -, hs', hlook⟩ := pass_error h
  have hgate : gate = (s.looked x.2).gate := by
    obtain ⟨copies, cells, hlooked⟩ := pass_looked h
    rw [hs'] at hlooked
    exact congrArg (fun t : Instance γ δ α ρ => t.gate) hlooked
  obtain ⟨cells, log', gone, habandon, -, hcells, hgone⟩ :=
    abandon_spec (cellInv_of_pass_error hd h) f
  simp only [Task.batch] at habandon hcells hgone
  rw [habandon, hs', hgate]
  refine ⟨registry, cells, log', gone, note, rfl, hlook.note, ?_, hgone⟩
  rw [hs'] at hcells
  exact hcells

/-- When an application ends in a fault, the choice of the leading writer affects only who gets the
fault. -/
lemma giveUp_leader {p : Pass} {done rest : Batch α ρ} {x : Nat × Request α ρ} {old : Side}
    {f : Fault} (hd : CellInv s.cells s.writers n (some ⟨p, done, x :: rest, old⟩))
    (h : s.pass (p.target old) p.application [x] = (.error f, s')) {leader : Nat}
    (hleader : leader ∈ (done ++ x :: rest).map (·.2.writer)) :
    ∃ gone, s'.abandonAs (some leader) (done ++ x :: rest) f =
        { s'.abandon (done ++ x :: rest) f with finished := gone ++ s.finished } ∧
      (gone.map Finished.answer).Perm (abandonOutcomesOf (some leader) f (done ++ x :: rest)) := by
  have hfinished : s'.finished = s.finished := by
    obtain ⟨_, gate, registry, log, note, -, -, rfl, -⟩ := pass_error h
    rfl
  obtain ⟨cells, log, -, -, hled⟩ := abandonAs_spec (cellInv_of_pass_error hd h) f
  obtain ⟨gone, hgone, houtcomes⟩ := hled (some leader) hleader
  obtain ⟨gone', hgone', -⟩ := hled _ (Batch.ledBy_head _)
  simp only [Task.batch] at hgone hgone' houtcomes
  refine ⟨gone, ?_, houtcomes⟩
  rw [hgone, abandon, hgone', hfinished]

lemma roundEnded_giveUp {p : Pass} {done rest : Batch α ρ} {x : Nat × Request α ρ} {old : Side}
    {f : Fault} (hd : CellInv s.cells s.writers n (some ⟨p, done, x :: rest, old⟩))
    (h : s.pass (p.target old) p.application [x] = (.error f, s')) :
    s.RoundEnded (s'.abandon (done ++ x :: rest) f) (done ++ x :: rest) := by
  obtain ⟨registry, cells, log, gone, note, hspec, hnote, hcells, hgone⟩ := giveUp_spec hd h
  rw [hspec]
  exact ⟨⟨note, hnote, rfl⟩, hcells, gone, rfl,
    writers_perm_of_answers hgone (map_fst_abandonOutcomes f _)⟩

end Instance

/-! ## The invariant is preserved -/

namespace CellInv

variable {n : Nat} {t t' : Option (Task α ρ)}

/-- The invariant after the end of a round. -/
lemma close {s s' : Instance γ δ α ρ} {u : Task α ρ} (hd : CellInv s.cells s.writers n (some u))
    (hc : s.RoundEnded s' u.batch) : CellInv s'.cells s'.writers n none := by
  obtain ⟨⟨note, hnote, hwriters⟩, hcells, -⟩ := hc
  have hd := hd.map hnote
  have hsub : s'.writers.Sublist (s.writers.map note) := hwriters ▸ List.filter_sublist
  refine ⟨(hsub.map _).nodup hd.ids, fun w hw => hd.started w (hsub.mem hw),
    (hsub.map _).nodup hd.apart, ?_, ?_, by simp, by simp, ?_⟩
  · intro w hw
    have hnot : w.cell ∉ u.batch.map Prod.fst := by
      rw [hwriters] at hw
      simpa using (List.mem_filter.1 hw).2
    rw [hcells, if_neg hnot]
    exact hd.request w (hsub.mem hw)
  · intro i r hr
    rw [hcells] at hr
    split at hr
    · cases hr
    · next hnot =>
      obtain ⟨w, hw, rfl⟩ := hd.writer i r hr
      exact ⟨w, by rw [hwriters]; exact List.mem_filter.2 ⟨hw, by simpa using hnot⟩, rfl⟩
  · intro i
    rw [hcells]
    split
    · simp
    · next hnot =>
      rw [hd.result]
      constructor
      · rintro ⟨v, hv, hi⟩
        cases hv
        exact absurd (List.map_subset _ u.served_subset hi) hnot
      · rintro ⟨v, hv, -⟩
        cases hv

/-- The invariant of a fresh instance. -/
lemma fresh (style : Style) (copies : Copies α) (gate : γ) (registry : Registry) (cells n : Nat)
    (wait : WaitPolicy) :
    CellInv (Instance.fresh style copies gate registry cells wait : Instance γ δ α ρ).cells [] n
      none := by
  have hblank : ∀ i, cellAt (List.replicate cells ({} : Cell α ρ)) i = {} := by
    intro i
    rw [cellAt, List.getElem?_replicate]
    split <;> rfl
  refine ⟨by simp, by simp, by simp, by simp, ?_, by simp, by simp, ?_⟩
  · intro i r hr
    simp [Instance.fresh, hblank] at hr
  · intro i
    simp [Instance.fresh, hblank]

variable [Gate γ κ δ]

lemma progress {s s' : Instance γ δ α ρ} {actions : History γ κ δ α ρ}
    (h : Instance.Progress s t actions s' t') (hd : CellInv s.cells s.writers n t) :
    CellInv s'.cells s'.writers n t' := by
  cases h with
  | quiet => exact hd
  | elect => exact hd.elect s.activeSide
  | @apply _ p done rest old x h =>
    obtain ⟨output, gate, registry, log, note, houtcome, rfl, hlook⟩ := Instance.pass_ok h
    cases p with
    | first => exact (hd.output output).map hlook.note
    | second => exact hd.apply.map hlook.note
  | giveUp h => exact hd.close (Instance.roundEnded_giveUp hd h)
  | turn => exact hd.turn
  | complete => exact hd.close (Instance.roundEnded_complete hd)
  | surplus => exact hd.close (Instance.roundEnded_surplus hd _ _)

end CellInv

namespace Instance

variable [Gate γ κ δ]

/-- The components that rounds never change. -/
lemma Progress.frame {s s' : Instance γ δ α ρ} {t t' : Option (Task α ρ)}
    {actions : History γ κ δ α ρ} (h : Progress s t actions s' t') :
    s'.style = s.style ∧ s'.registry.id = s.registry.id ∧
      s'.registry.capacity = s.registry.capacity ∧ s'.cells.length = s.cells.length := by
  cases h with
  | quiet | elect | turn => exact ⟨rfl, rfl, rfl, rfl⟩
  | apply h =>
    obtain ⟨output, gate, registry, log, note, houtcome, rfl, hlook⟩ := pass_ok h
    refine ⟨rfl, hlook.registry.id_eq, hlook.registry.capacity_eq, ?_⟩
    simp only
    split <;> simp
  | @giveUp u p done rest old x f h =>
    obtain ⟨message, gate, registry, log, note, houtcome, -, rfl, hlook⟩ := pass_error h
    obtain ⟨cells, writers, log, finished, habandon⟩ := abandon_frame _ (done ++ x :: rest) f
    refine ⟨by rw [habandon], ?_, ?_, by simp⟩
    · rw [habandon]
      exact hlook.registry.id_eq
    · rw [habandon]
      exact hlook.registry.capacity_eq
  | @complete batch old =>
    obtain ⟨cells, writers, log, finished, hcomplete⟩ := s.complete_frame batch old
    exact ⟨by rw [hcomplete], by rw [hcomplete], by rw [hcomplete], by simp⟩
  | @surplus batch old d m h =>
    obtain ⟨cells, writers, log, finished, habandon⟩ :=
      abandon_frame (s.report (.misused m)) batch (.misuse m)
    exact ⟨by rw [habandon]; rfl, by rw [habandon]; rfl, by rw [habandon]; rfl,
      by rw [length_cells_abandon]; rfl⟩

end Instance

/-- The style is the same at every point. -/
lemma Point.style_after [Gate γ κ δ] {p : Point γ κ δ α ρ} (hp : p.session.Exclusive p.control)
    (ticks : List (Tick α ρ)) : (p.after ticks).inst.style = p.inst.style :=
  Point.invariant_after (P := fun u _ _ => u.inst.style = p.inst.style)
    (fun _ _ hmoved hu => hmoved.style_eq.trans hu)
    (fun hprogress hu => hprogress.frame.1.trans hu) id hp rfl

namespace Session

variable [Gate γ κ δ]

/-- There are enough cells: one under the exclusive style, one for each slot under the combining
style. -/
structure EnoughCells (s : Session γ κ δ α ρ) : Prop where
  exclusive : s.inst.style = .exclusive → s.inst.cells.length = 1
  slotted : s.inst.style = .combining → Gate.slotted γ = true
  capacity : s.inst.style = .combining → s.inst.registry.capacity = some s.inst.cells.length
  table : s.inst.style = .combining → ∀ slot, some slot ∈ s.table →
    slot.issuer = s.inst.registry.id → slot.index < s.inst.cells.length
  stranger : s.stranger.id ≠ s.inst.registry.id

/-- The cell at which a writer is admitted has no other writer. -/
lemma Admits.free {s : Session γ κ δ α ρ} {k i : Nat} (h : s.Admits k i) :
    ∀ w ∈ s.inst.writers, w.cell ≠ i := by
  rcases h with ⟨-, hnone, -⟩ | ⟨-, slot, -, -, -, hfree⟩
  · simp [hnone]
  · exact hfree

/-- Under the exclusive style one cell is enough. -/
lemma enoughCells_exclusive (copies : Copies α) (gate : γ) (registry : Registry)
    (wait : WaitPolicy) :
    (ofInstance (.fresh .exclusive copies gate registry 1 wait) :
      Session γ κ δ α ρ).EnoughCells where
  exclusive _ := rfl
  slotted := nofun
  capacity := nofun
  table := nofun
  stranger := Nat.succ_ne_self _

/-- Where slots are bounded there can be a cell for each. -/
lemma enoughCells_bounded (hslotted : Gate.slotted γ = true) (copies : Copies α)
    (gate : γ) (n : Nat) (wait : WaitPolicy) :
    (ofInstance (.fresh .combining copies gate (.bounded 0 n) n wait) :
      Session γ κ δ α ρ).EnoughCells where
  exclusive := nofun
  slotted _ := hslotted
  capacity _ := by simp [ofInstance, Instance.fresh, Registry.bounded, Registry.capacity]
  table _ slot hslot := by cases hslot
  stranger := Nat.succ_ne_self _

namespace EnoughCells

variable {s s' : Session γ κ δ α ρ}

lemma lt_length (hs : s.EnoughCells) {k i : Nat} (h : s.Admits k i) : i < s.inst.cells.length := by
  rcases h with ⟨hstyle, -, rfl⟩ | ⟨hstyle, slot, hslot, hissuer, rfl, -⟩
  · rw [hs.exclusive hstyle]
    exact Nat.one_pos
  · have hplace := getElem?_of_slot? (hs.slotted hstyle) hslot
    exact hs.table hstyle slot (List.mem_of_getElem? hplace) hissuer

lemma moved {m : Move α ρ} {r : Except Failure (Answer κ α)} (h : s.Moved m r s')
    (hs : s.EnoughCells) : s'.EnoughCells := by
  constructor <;> simp only [h.style_eq, h.length_cells, h.registry_id, h.capacity_eq,
    h.stranger_id]
  · exact hs.exclusive
  · exact hs.slotted
  · exact hs.capacity
  · intro hstyle slot hslot hissuer
    rcases h.mem_table hslot with hold | hregister | ⟨-, hforeign⟩
    · exact hs.table hstyle slot hold hissuer
    · exact (Registry.register_spec hregister).2.2.2 _ (hs.capacity hstyle)
    · exact absurd (hforeign.symm.trans hissuer) hs.stranger
  · exact hs.stranger

lemma progress {inst : Instance γ δ α ρ} {t t' : Option (Task α ρ)} {actions : History γ κ δ α ρ}
    (h : Instance.Progress s.inst t actions inst t') (hs : s.EnoughCells) :
      { s with inst }.EnoughCells := by
  obtain ⟨hstyle, hid, hcapacity, hlength⟩ := h.frame
  refine ⟨?_, ?_, ?_, ?_, ?_⟩
  · simpa only [hstyle, hlength] using hs.exclusive
  · simpa only [hstyle] using hs.slotted
  · simpa only [hstyle, hcapacity, hlength] using hs.capacity
  · simpa only [hstyle, hid, hlength] using hs.table
  · simpa only [hid] using hs.stranger

end EnoughCells

end Session

/-- A move admits at most one writer, at a cell without one. -/
lemma CellInv.moved [Gate γ κ δ] {s s' : Session γ κ δ α ρ} {m : Move α ρ} {t : Option (Task α ρ)}
    {r : Except Failure (Answer κ α)} (h : s.Moved m r s') (hroom : s.EnoughCells)
    (hd : CellInv s.inst.cells s.inst.writers s.started t) :
    CellInv s'.inst.cells s'.inst.writers s'.started t := by
  cases h with
  | published h => exact hd.publish (hroom.lt_length h) h.free _ _
  | turnedAway =>
    have hsame : s.inst.writers.filter (·.id != s.started) = s.inst.writers :=
      List.filter_eq_self.2 fun w hw => by simpa using Nat.ne_of_lt (hd.started w hw)
    simp only [Instance.finish, Instance.report, hsame]
    exact { hd with started := fun w hw => Nat.lt_succ_of_lt (hd.started w hw) }
  | _ => exact hd

end TwinCopy
