import TwinCopy.Proofs.CellInvariant
import TwinCopy.Proofs.Scripts

/-!
# Quiescence

`settle` runs the writers until they can make no further step. Afterwards the instance is *still*:
no writer is inside, or the suspended round waits for readers, or there is no round and nothing to
begin one with. `still_settle` proves this, and `settle_of_still` that `settle` is idempotent.

An elected writer takes all pending requests, so that a round that ends leaves none behind. This is
what the lemmas about requests are for.
-/

namespace TwinCopy

variable {γ κ δ α ρ : Type}

namespace Instance

variable [Gate γ κ δ]

/-- The round has to wait in this phase. -/
def waits (s : Instance γ δ α ρ) : Phase δ → Bool
  | .standby d => !Gate.standby s.gate d
  | .clearing d =>
      match Gate.cleared s.gate d with
      | .ok cleared => !cleared
      | .error _ => false

/-- The writers can make no step. -/
def still (s : Instance γ δ α ρ) : Bool :=
  s.writers.isEmpty ||
    match s.round with
    | none => s.published.isEmpty || s.lock.locked
    | some r => s.lock.locked && s.waits r.phase

lemma waits_standby {s : Instance γ δ α ρ} {d : δ} :
    s.waits (.standby d) = true ↔ Gate.standby s.gate d = false := by
  simp [waits]

lemma waits_clearing {s : Instance γ δ α ρ} {d : δ} :
    s.waits (.clearing d) = true ↔ Gate.cleared s.gate d = .ok false := by
  rcases h : Gate.cleared s.gate d with m | _ | _ <;> simp [waits, h]

lemma still_iff {s : Instance γ δ α ρ} : s.still = true ↔ s.writers = [] ∨
    (s.round = none ∧ (s.published = [] ∨ s.lock.locked = true)) ∨
    ∃ r, s.round = some r ∧ s.lock.locked = true ∧ s.waits r.phase = true := by
  unfold still
  rcases s.round with _ | r <;> simp

lemma still_of_idle {s : Instance γ δ α ρ} (hround : s.round = none)
    (h : s.published = [] ∨ s.lock.locked = true) : s.still = true :=
  still_iff.2 (.inr (.inl ⟨hround, h⟩))

lemma still_of_waits {s : Instance γ δ α ρ} {r : Round δ α ρ} (hround : s.round = some r)
    (hlock : s.lock.locked = true) (h : s.waits r.phase = true) : s.still = true :=
  still_iff.2 (.inr (.inr ⟨r, hround, hlock, h⟩))

/-! ## Idempotence of `settle` -/

lemma proceed_of_waits {s : Instance γ δ α ρ} {r : Round δ α ρ} (h : s.waits r.phase = true) :
    s.proceed r = { s with round := some r } := by
  obtain ⟨batch, old, d | d⟩ := r
  · simp only [proceed, waits_standby.1 h, Bool.false_eq_true, if_false]
  · simp only [proceed, clear, waits_clearing.1 h]

/-- `settle` does not change a still instance. -/
theorem settle_of_still {s : Instance γ δ α ρ} (h : s.still = true) : s.settle = s := by
  unfold settle
  split
  · rfl
  · next hwriters =>
    rw [List.isEmpty_iff] at hwriters
    rcases (still_iff.1 h).resolve_left hwriters with ⟨hround, hidle⟩ | ⟨r, hround, hlock, hwaits⟩
    · simp only [resume, hround]
      exact elect_of_idle hidle
    · have hresume : s.resume = s := by
        simp only [resume, hround]
        rw [proceed_of_waits (s := { s with round := none }) hwaits]
        exact (congrArg (fun r => { s with round := r }) hround).symm
      rw [hresume]
      exact elect_of_idle (.inr hlock)

/-! ## Requests -/

omit [Gate γ κ δ] in
lemma request_collect (s : Instance γ δ α ρ) (w : Writer α) (i : Nat) :
    (cellAt (s.collect w).cells i).request = (cellAt s.cells i).request := by
  have hblank : ∀ cells : List (Cell α ρ),
      (cellAt (cells.modify w.cell ({ · with result := none })) i).request =
        (cellAt cells i).request := by
    intro cells
    rw [cellAt_modify cells w.cell i (.inr rfl)]
    split <;> rfl
  unfold collect
  split
  · split <;> exact hblank s.cells
  · rfl

omit [Gate γ κ δ] in
/-- Writers that collect their outputs do not change the requests. -/
lemma request_unlock (s : Instance γ δ α ρ) (i : Nat) :
    (cellAt s.unlock.cells i).request = (cellAt s.cells i).request := by
  have hfold : ∀ (ws : List (Writer α)) (t : Instance γ δ α ρ),
      (cellAt (ws.foldl collect t).cells i).request = (cellAt t.cells i).request := by
    intro ws
    induction ws with
    | nil => exact fun _ => rfl
    | cons w ws ih => exact fun t => (ih (t.collect w)).trans (t.request_collect w i)
  exact hfold s.writers { s with lock := s.lock.release.2 }

/-- Applications do not change the requests. -/
lemma request_pass (batch : Batch α ρ) (s : Instance γ δ α ρ) (side : Side) (n i : Nat) :
    (cellAt (s.pass side n batch).2.cells i).request = (cellAt s.cells i).request := by
  induction batch generalizing s with
  | nil => rfl
  | cons x batch ih =>
    have hfirst : ∀ {r : Except Fault Unit} {t : Instance γ δ α ρ}, s.pass side n [x] = (r, t) →
        (cellAt t.cells i).request = (cellAt s.cells i).request := by
      rintro (f | ⟨⟨⟩⟩) t hx
      · obtain ⟨message, gate, registry, log, note, -, -, rfl, -⟩ := pass_error hx
        rfl
      · obtain ⟨output, gate, registry, log, note, -, rfl, -⟩ := pass_ok hx
        simp only
        split <;> simp
    rw [pass_cons]
    rcases hx : s.pass side n [x] with ⟨f | ⟨⟨⟩⟩, t⟩
    · exact hfirst hx
    · exact (ih t).trans (hfirst hx)

omit [Gate γ κ δ] in
lemma request_abandon (s : Instance γ δ α ρ) (batch : Batch α ρ) (fault : Fault) (i : Nat) :
    (cellAt (s.abandon batch fault).cells i).request =
      if i ∈ batch.map Prod.fst then none else (cellAt s.cells i).request := by
  obtain ⟨writers, log, finished, h⟩ := s.exists_abandon_eq_unlock batch fault
  rw [h, request_unlock]
  simp only
  rw [cellAt_foldl_modify (f := fun _ => {}) batch s.cells i rfl fun _ => rfl]
  split <;> rfl

lemma request_complete (s : Instance γ δ α ρ) (batch : Batch α ρ) (old : Side) (i : Nat) :
    (cellAt (s.complete batch old).cells i).request =
      if i ∈ batch.map Prod.fst then none else (cellAt s.cells i).request := by
  obtain ⟨log, h⟩ := s.complete_eq batch old
  rw [h, request_unlock]
  simp only
  rw [cellAt_foldl_modify (f := ({ · with request := none })) batch s.cells i rfl fun _ => rfl]
  split <;> rfl

/-- A batch contains all pending requests. -/
def Claimed (s : Instance γ δ α ρ) (batch : Batch α ρ) : Prop :=
  ∀ x ∈ s.published, x.1 ∈ batch.map Prod.fst

omit [Gate γ κ δ] in
lemma Claimed.congr {s t : Instance γ δ α ρ} {batch : Batch α ρ} (h : s.Claimed batch)
    (hrequest : ∀ i, (cellAt t.cells i).request = (cellAt s.cells i).request) :
    t.Claimed batch := by
  intro x hx
  rw [mem_published, hrequest, ← mem_published] at hx
  exact h x hx

omit [Gate γ κ δ] in
/-- When the requests of such a batch are withdrawn none is left. -/
lemma Claimed.published_eq_nil {s t : Instance γ δ α ρ} {batch : Batch α ρ} (h : s.Claimed batch)
    (hrequest : ∀ i, (cellAt t.cells i).request =
      if i ∈ batch.map Prod.fst then none else (cellAt s.cells i).request) : t.published = [] := by
  rw [List.eq_nil_iff_forall_not_mem]
  intro x hx
  rw [mem_published, hrequest] at hx
  split at hx
  · cases hx
  · next hout => exact hout (h x (mem_published.2 hx))

/-! ## `settle` reaches a still instance -/

/-- The round of a batch has ended and its requests are withdrawn, or the round is suspended. -/
def Halted (s t : Instance γ δ α ρ) (batch : Batch α ρ) : Prop :=
  (t.round = none ∧ (s.Claimed batch → t.published = [])) ∨
    ∃ r, t.round = some r ∧ t.lock.locked = true ∧ t.waits r.phase = true

lemma Halted.still {s t : Instance γ δ α ρ} {batch : Batch α ρ} (h : s.Halted t batch)
    (hclaimed : s.Claimed batch) : t.still = true := by
  rcases h with ⟨hround, hnone⟩ | ⟨r, hround, hlock, hwaits⟩
  · exact still_of_idle hround (.inl (hnone hclaimed))
  · exact still_of_waits hround hlock hwaits

lemma Halted.of_request {s t u : Instance γ δ α ρ} {batch : Batch α ρ} (h : t.Halted u batch)
    (hrequest : ∀ i, (cellAt t.cells i).request = (cellAt s.cells i).request) :
    s.Halted u batch :=
  h.imp (fun hover => ⟨hover.1, fun hclaimed => hover.2 (hclaimed.congr hrequest)⟩) id

lemma halted_abandon {s : Instance γ δ α ρ} (hround : s.round = none) (batch : Batch α ρ)
    (fault : Fault) : s.Halted (s.abandon batch fault) batch :=
  .inl ⟨by rw [round_abandon, hround],
    fun hclaimed => hclaimed.published_eq_nil (s.request_abandon batch fault)⟩

lemma halted_complete {s : Instance γ δ α ρ} (hround : s.round = none) (batch : Batch α ρ)
    (old : Side) : s.Halted (s.complete batch old) batch :=
  .inl ⟨by rw [round_complete, hround],
    fun hclaimed => hclaimed.published_eq_nil (s.request_complete batch old)⟩

lemma halted_clear {s : Instance γ δ α ρ} (hround : s.round = none) (hlock : s.lock.locked = true)
    (batch : Batch α ρ) (old : Side) (d : δ) : s.Halted (s.clear batch old d) batch := by
  unfold clear
  rcases hcleared : Gate.cleared s.gate d with m | _ | _
  · exact (halted_abandon (s := (s.misused m).2) hround batch _).of_request fun _ => rfl
  · exact .inr ⟨_, rfl, hlock, waits_clearing.2 hcleared⟩
  · have hrequest := request_pass batch (s.report (Gate.clearedEvent γ d)) old 2
    have hround' := (round_pass batch (s.report (Gate.clearedEvent γ d)) old 2).trans hround
    rcases hpass : pass (s.report (Gate.clearedEvent γ d)) old 2 batch with ⟨f | ⟨⟨⟩⟩, t⟩ <;>
      rw [hpass] at hrequest hround'
    · exact (halted_abandon hround' batch f).of_request hrequest
    · exact (halted_complete hround' batch old).of_request hrequest

lemma halted_proceed {s : Instance γ δ α ρ} (hround : s.round = none) (hlock : s.lock.locked = true)
    (r : Round δ α ρ) : s.Halted (s.proceed r) r.batch := by
  obtain ⟨batch, old, d | d⟩ := r
  · rcases hstandby : Gate.standby s.gate d with _ | _
    · rw [proceed_of_waits (waits_standby.2 hstandby)]
      exact .inr ⟨_, rfl, hlock, waits_standby.2 hstandby⟩
    · simp only [proceed, hstandby, if_true]
      exact (halted_clear (s := { s with gate := Gate.shift s.gate d }) hround hlock batch old
        d).of_request fun _ => rfl
  · exact halted_clear hround hlock batch old d

lemma halted_begin {s : Instance γ δ α ρ} (hround : s.round = none) (hlock : s.lock.locked = true)
    (batch : Batch α ρ) : s.Halted (s.begin batch) batch := by
  have hrequest := request_pass batch s s.activeSide.opposite 1
  have hround' := (round_pass batch s s.activeSide.opposite 1).trans hround
  have hlock' : (s.pass s.activeSide.opposite 1 batch).2.lock.locked = true := by
    obtain ⟨copies, gate, registry, cells, writers, log, h⟩ :=
      pass_frame batch s s.activeSide.opposite 1
    rw [h]
    exact hlock
  unfold begin
  rcases hpass : s.pass s.activeSide.opposite 1 batch with ⟨f | ⟨⟨⟩⟩, t⟩ <;>
    simp only [hpass] at hrequest hround' hlock' ⊢
  · exact (halted_abandon hround' batch f).of_request hrequest
  · exact (halted_proceed (s := { t with gate := (Gate.turn t.gate).2 }) hround' hlock'
      ⟨batch, s.activeSide, .standby (Gate.turn t.gate).1⟩).of_request hrequest

/-- An elected writer takes all pending requests. -/
lemma still_elect {s : Instance γ δ α ρ} (hround : s.round = none) : s.elect.still = true := by
  by_cases hidle : s.published = [] ∨ s.lock.locked = true
  · rw [elect_of_idle hidle]
    exact still_of_idle hround hidle
  · obtain ⟨hpublished, hlock⟩ := not_or.1 hidle
    rw [elect_of_free hpublished (by simpa using hlock)]
    exact (halted_begin (s := { s with lock := { s.lock with locked := true } }) hround rfl
      s.published).still fun x hx => List.mem_map_of_mem hx

/-- An instance is still after `settle`. -/
theorem still_settle {s : Instance γ δ α ρ} (hs : s.InCharge .resting) : s.settle.still = true := by
  unfold settle
  split
  · next hwriters => exact still_iff.2 (.inl (List.isEmpty_iff.1 hwriters))
  · unfold resume
    rcases hround : s.round with _ | r
    · exact still_elect hround
    · have hlock : s.lock.locked = true := hs.1 (by simp [hround])
      -- the end of a round lets another one begin
      rcases halted_proceed (s := { s with round := none }) rfl hlock r with
        ⟨hover, -⟩ | ⟨r', hround', hlock', hwaits⟩
      · exact still_elect hover
      · simp only
        rw [elect_of_idle (.inr hlock')]
        exact still_of_waits hround' hlock' hwaits

end Instance

end TwinCopy
