import Mathlib.Data.List.Perm.Basic
import TwinCopy.Proofs.CellInvariant

/-!
# What histories record

The actions of a history determine which requests were published, which batches were taken, turned
to and completed, and what was applied to either copy. A batch consists of the requests published
since the previous one was taken. This is part of `RequestInv`, which holds whatever the gate and
the mutations.
-/

namespace TwinCopy

variable {γ κ δ α ρ : Type}

/-! ## Actions -/

namespace Action

/-- The batch taken by an action. -/
@[simp] def batchTaken : Action γ κ δ α ρ → List (Batch α ρ)
  | .took batch => [batch]
  | _ => []

/-- The batch whose copy an action makes the active one. -/
@[simp] def batchTurned : Action γ κ δ α ρ → List (Batch α ρ)
  | .turned batch => [batch]
  | _ => []

/-- The batch completed by an action: both copies have it applied. -/
@[simp] def batchCompleted : Action γ κ δ α ρ → List (Batch α ρ)
  | .completed batch => [batch]
  | _ => []

/-- The request applied by an action to the copy on a side. -/
@[simp] def requestApplied (side : Side) : Action γ κ δ α ρ → List (Request α ρ)
  | .applied _ side' _ r => if side' = side then [r] else []
  | _ => []

/-- The finished writers in the outbox when an action empties it. -/
@[simp] def writersEmptied : Action γ κ δ α ρ → List (Finished α ρ)
  | .emptied finished _ => finished.reverse
  | _ => []

/-- The request published by an action: one if the move admits a writer. -/
def requestPublished [Gate γ κ δ] : Action γ κ δ α ρ → List (Request α ρ)
  | .moved found (.mutate k mutation observed) =>
      if found.inst.writers.length <
          (found.act (.mutate k mutation observed)).2.inst.writers.length
      then [⟨found.started, mutation, observed⟩] else []
  | _ => []

/-- The writer rejected by an action: one if the move finishes a writer at once. -/
def writerTurnedAway [Gate γ κ δ] : Action γ κ δ α ρ → List Nat
  | .moved found (.mutate k mutation observed) =>
      if found.inst.finished.length <
          (found.act (.mutate k mutation observed)).2.inst.finished.length
      then [found.started] else []
  | _ => []

/-- A move that admits no writer publishes nothing. -/
lemma requestPublished_of_length_le [Gate γ κ δ] {s s' : Session γ κ δ α ρ} {m : Move α ρ}
    {r : Except Failure (Answer κ α)} (hact : s.act m = (r, s'))
    (h : s'.inst.writers.length ≤ s.inst.writers.length) :
    (Action.moved s m).requestPublished = [] := by
  cases m with
  | mutate k mutation observed => simp [requestPublished, hact, Nat.not_lt.2 h]
  | _ => rfl

/-- A move that finishes no writer rejects none. -/
lemma writerTurnedAway_of_finished_eq [Gate γ κ δ] {s s' : Session γ κ δ α ρ} {m : Move α ρ}
    {r : Except Failure (Answer κ α)} (hact : s.act m = (r, s'))
    (h : s'.inst.finished = s.inst.finished) : (Action.moved s m).writerTurnedAway = [] := by
  cases m with
  | mutate k mutation observed => simp [writerTurnedAway, hact, h]
  | _ => rfl

end Action

/-! ## Histories -/

namespace History

/-- Collects a part of every action of a history, earliest first. -/
def gather {β : Type} (part : Action γ κ δ α ρ → List β) (h : History γ κ δ α ρ) : List β :=
  h.reverse.flatMap part

section

variable {β : Type} (part : Action γ κ δ α ρ → List β) (d : Action γ κ δ α ρ)
  (h : History γ κ δ α ρ)

@[simp] lemma gather_nil : gather part [] = [] := rfl

@[simp] lemma gather_cons : gather part (d :: h) = gather part h ++ part d := by
  simp [gather]

end

/-- The batches taken, in order. -/
def taken (h : History γ κ δ α ρ) : List (Batch α ρ) :=
  gather Action.batchTaken h

/-- The batches whose copy became the active one, in order. -/
def turned (h : History γ κ δ α ρ) : List (Batch α ρ) :=
  gather Action.batchTurned h

/-- The batches completed, in order. -/
def completed (h : History γ κ δ α ρ) : List (Batch α ρ) :=
  gather Action.batchCompleted h

/-- The requests applied to the copy on a side, in order. -/
def applied (h : History γ κ δ α ρ) (side : Side) : List (Request α ρ) :=
  gather (Action.requestApplied side) h

/-- The finished writers taken out of the outbox, in order. -/
def emptied (h : History γ κ δ α ρ) : List (Finished α ρ) :=
  gather Action.writersEmptied h

/-- The requests published, in order. -/
def published [Gate γ κ δ] (h : History γ κ δ α ρ) : List (Request α ρ) :=
  gather Action.requestPublished h

/-- The writers rejected, in order. -/
def turnedAway [Gate γ κ δ] (h : History γ κ δ α ρ) : List Nat :=
  gather Action.writerTurnedAway h

section

variable (d : Action γ κ δ α ρ) (h : History γ κ δ α ρ)

@[simp] lemma taken_cons : taken (d :: h) = h.taken ++ d.batchTaken :=
  gather_cons _ _ _

@[simp] lemma turned_cons : turned (d :: h) = h.turned ++ d.batchTurned :=
  gather_cons _ _ _

@[simp] lemma completed_cons : completed (d :: h) = h.completed ++ d.batchCompleted :=
  gather_cons _ _ _

@[simp] lemma applied_cons (side : Side) :
    applied (d :: h) side = h.applied side ++ d.requestApplied side :=
  gather_cons _ _ _

@[simp] lemma emptied_cons : emptied (d :: h) = h.emptied ++ d.writersEmptied :=
  gather_cons _ _ _

@[simp] lemma published_cons [Gate γ κ δ] :
    published (d :: h) = h.published ++ d.requestPublished :=
  gather_cons _ _ _

@[simp] lemma turnedAway_cons [Gate γ κ δ] :
    turnedAway (d :: h) = h.turnedAway ++ d.writerTurnedAway :=
  gather_cons _ _ _

end

/-- The requests published since the latest batch was taken. -/
def unclaimed [Gate γ κ δ] : History γ κ δ α ρ → List (Request α ρ)
  | [] => []
  | .took _ :: _ => []
  | d :: h => unclaimed h ++ d.requestPublished

end History

/-- The requests of the batches, in order. -/
def requests (batches : List (Batch α ρ)) : List (Request α ρ) :=
  batches.flatten.map Prod.snd

@[simp] lemma requests_nil : requests ([] : List (Batch α ρ)) = [] := rfl

@[simp] lemma requests_append (batches batches' : List (Batch α ρ)) :
    requests (batches ++ batches') = requests batches ++ requests batches' := by
  simp [requests]

lemma mem_requests {batches : List (Batch α ρ)} {r : Request α ρ} :
    r ∈ requests batches ↔ ∃ batch ∈ batches, r ∈ batch.map Prod.snd := by
  simp only [requests, List.map_flatten, List.mem_flatten, List.mem_map, exists_exists_and_eq_and]

@[simp] lemma requests_singleton (batch : Batch α ρ) : requests [batch] = batch.map Prod.snd := by
  simp [requests]

@[simp] lemma requests_cons (batch : Batch α ρ) (batches : List (Batch α ρ)) :
    requests (batch :: batches) = batch.map Prod.snd ++ requests batches :=
  List.map_append

/-- If there are no requests and no batch is empty, there are no batches. -/
lemma eq_nil_of_requests {batches : List (Batch α ρ)} (hne : ∀ batch ∈ batches, batch ≠ [])
    (h : requests batches = []) : batches = [] := by
  rcases batches with _ | ⟨batch, batches⟩
  · rfl
  · rw [requests_cons, List.append_eq_nil_iff, List.map_eq_nil_iff] at h
    exact absurd h.1 (hne batch List.mem_cons_self)

/-- If there is one request and no batch is empty, there is one batch. -/
lemma exists_of_requests_eq_singleton {batches : List (Batch α ρ)} {r : Request α ρ}
    (hne : ∀ batch ∈ batches, batch ≠ []) (h : requests batches = [r]) :
    ∃ i, batches = [[(i, r)]] := by
  rcases batches with _ | ⟨_ | ⟨⟨i, r'⟩, batch⟩, batches⟩
  · cases h
  · exact absurd rfl (hne [] List.mem_cons_self)
  · rw [requests_cons, List.map_cons, List.cons_append, List.cons_eq_cons, List.append_eq_nil_iff,
      List.map_eq_nil_iff] at h
    obtain ⟨rfl, rfl, hnone⟩ := h
    have hnil := eq_nil_of_requests (fun b hb => hne b (List.mem_cons_of_mem _ hb)) hnone
    exact ⟨i, by rw [hnil]⟩

/-! ## Published requests -/

namespace Instance

/-- The pending requests do not depend on the outputs. -/
lemma published_perm_of_request {s s' : Instance γ δ α ρ}
    (h : ∀ i, (cellAt s'.cells i).request = (cellAt s.cells i).request) :
    s'.published.Perm s.published :=
  (List.perm_ext_iff_of_nodup s'.published_nodup s.published_nodup).2 fun x => by
    rw [mem_published, mem_published, h]

/-- Publishing adds one request. -/
lemma published_publish_perm {s s' : Instance γ δ α ρ} {i : Nat} {r : Request α ρ}
    (hi : i < s.cells.length) (hfree : (cellAt s.cells i).request = none)
    (h : s'.cells = s.cells.modify i ({ · with request := some r })) :
    s'.published.Perm (s.published ++ [(i, r)]) := by
  have hnot : ∀ x ∈ s.published, x.1 ≠ i := by
    rintro x hx rfl
    rw [mem_published.1 hx] at hfree
    cases hfree
  refine (List.perm_ext_iff_of_nodup s'.published_nodup ?_).2 fun x => ?_
  · refine List.nodup_append.2 ⟨s.published_nodup, by simp, ?_⟩
    rintro x hx y hy rfl
    exact hnot x hx (by rw [List.mem_singleton.1 hy])
  · rw [mem_published, h, cellAt_modify _ _ _ (.inl hi), List.mem_append, mem_published,
      List.mem_singleton]
    obtain ⟨j, r'⟩ := x
    by_cases hj : i = j
    · subst hj
      simp [hfree, eq_comm]
    · simp [hj, Ne.symm hj]

/-- The end of a round withdraws the requests of its batch and no others. -/
lemma RoundEnded.published_perm {s s' : Instance γ δ α ρ} {n : Nat} {u : Task α ρ}
    (hc : s.RoundEnded s' u.batch) (hd : CellInv s.cells s.writers n (some u)) :
    s.published.Perm (u.batch ++ s'.published) := by
  refine (List.perm_ext_iff_of_nodup s.published_nodup ?_).2 fun x => ?_
  · refine List.nodup_append.2 ⟨Batch.nodup (hd.sorted u rfl), s'.published_nodup, ?_⟩
    rintro x hx y hy rfl
    have hrequest := mem_published.1 hy
    rw [hc.cells, if_pos (List.mem_map_of_mem hx)] at hrequest
    cases hrequest
  · rw [List.mem_append, mem_published, mem_published, hc.cells]
    by_cases hx : x.1 ∈ u.batch.map Prod.fst
    · obtain ⟨y, hy, hxy⟩ := List.mem_map.1 hx
      have hrequest := hd.batch u rfl y hy
      rw [hxy] at hrequest
      rw [if_pos hx, hrequest]
      constructor
      · intro heq
        rw [← Prod.ext hxy (Option.some.inj heq)]
        exact .inl hy
      · rintro (hmem | hnone)
        · rw [← hd.batch u rfl x hmem, hrequest]
        · cases hnone
    · rw [if_neg hx]
      exact ⟨.inr, fun h => h.elim (fun hmem => absurd (List.mem_map_of_mem hmem) hx) id⟩

end Instance

variable [Gate γ κ δ]

/-- The effect of a move on the records: it starts no writer, or admits one, or rejects one, the
latter only under the combining style. -/
inductive Session.Called (s : Session γ κ δ α ρ) : Move α ρ → Session γ κ δ α ρ → Prop where
  | absent {m : Move α ρ} {s' : Session γ κ δ α ρ}
      (hpublished : (Action.moved s m).requestPublished = [])
      (hturnedAway : (Action.moved s m).writerTurnedAway = [])
      (hcells : s'.inst.cells = s.inst.cells) (hfinished : s'.inst.finished = s.inst.finished)
      (hstarted : s'.started = s.started) : Called s m s'
  | letIn {k i : Nat} {mutation : Mutation α ρ} {observed : Bool} {s' : Session γ κ δ α ρ}
      (hadmits : s.Admits k i)
      (hpublished : (Action.moved s (.mutate k mutation observed)).requestPublished =
        [⟨s.started, mutation, observed⟩])
      (hturnedAway : (Action.moved s (.mutate k mutation observed)).writerTurnedAway = [])
      (hcells : s'.inst.cells =
        s.inst.cells.modify i ({ · with request := some ⟨s.started, mutation, observed⟩ }))
      (hfinished : s'.inst.finished = s.inst.finished) (hstarted : s'.started = s.started + 1) :
      Called s (.mutate k mutation observed) s'
  | turnedAway {m : Move α ρ} {s' : Session γ κ δ α ρ} {seen : Option (List (Observation α))}
      (hstyle : s.inst.style = .combining)
      (hpublished : (Action.moved s m).requestPublished = [])
      (hturnedAway : (Action.moved s m).writerTurnedAway = [s.started])
      (hcells : s'.inst.cells = s.inst.cells)
      (hfinished : s'.inst.finished =
        ⟨s.started, .error (.misuse .foreignSlot), seen⟩ :: s.inst.finished)
      (hstarted : s'.started = s.started + 1) : Called s m s'

lemma Session.Moved.called {s s' : Session γ κ δ α ρ} {m : Move α ρ}
    {r : Except Failure (Answer κ α)} (hm : s.Moved m r s') (hact : s.act m = (r, s')) :
    s.Called m s' := by
  cases hm with
  | published hadmits =>
    refine .letIn hadmits ?_ (Action.writerTurnedAway_of_finished_eq hact rfl) rfl rfl rfl
    simp [Action.requestPublished, hact, Instance.publish, Instance.modifyCell]
  | turnedAway hstyle =>
    refine .turnedAway hstyle ?_ ?_ rfl rfl rfl
    · exact Action.requestPublished_of_length_le hact (List.length_filter_le _ _)
    · simp [Action.writerTurnedAway, hact, Instance.finish, Instance.report]
  | _ =>
    exact .absent (Action.requestPublished_of_length_le hact (Nat.le_refl _))
      (Action.writerTurnedAway_of_finished_eq hact rfl) rfl rfl rfl

/-! ## The invariant -/

/-- `P` holds of every batch taken, together with the history before. -/
def History.WheneverTaken (P : Batch α ρ → History γ κ δ α ρ → Prop) (h : History γ κ δ α ρ) :
    Prop :=
  ∀ later batch earlier, h = later ++ .took batch :: earlier → P batch earlier

/-- A batch is not empty, is sorted by its cells, and consists of the requests published since the
previous batch was taken. -/
structure Snapshot (batch : Batch α ρ) (earlier : History γ κ δ α ρ) : Prop where
  ne_nil : batch ≠ []
  sorted : batch.Pairwise (·.1 < ·.1)
  perm : (batch.map Prod.snd).Perm earlier.unclaimed

/-- The pending requests are those of the round under way and those published since it began. -/
structure RequestInv (h : History γ κ δ α ρ) (s : Instance γ δ α ρ) (t : Option (Task α ρ)) :
    Prop where
  pending : (s.published.map Prod.snd).Perm (t.elim [] (·.batch.map Prod.snd) ++ h.unclaimed)
  snapshots : h.WheneverTaken Snapshot

namespace History

variable {h : History γ κ δ α ρ} {d : Action γ κ δ α ρ}

namespace WheneverTaken

variable {P : Batch α ρ → History γ κ δ α ρ → Prop}

omit [Gate γ κ δ] in
lemma cons (hh : h.WheneverTaken P) (hd : ∀ batch, d = .took batch → P batch h) :
    WheneverTaken P (d :: h) := by
  intro later batch earlier heq
  cases later with
  | nil =>
    obtain ⟨rfl, rfl⟩ := List.cons.inj heq
    exact hd batch rfl
  | cons d' later => exact hh later batch earlier (List.cons.inj heq).2

omit [Gate γ κ δ] in
lemma tail (hh : WheneverTaken P (d :: h)) : h.WheneverTaken P :=
  fun later batch earlier heq => hh (d :: later) batch earlier (by rw [heq, List.cons_append])

omit [Gate γ κ δ] in
/-- `WheneverTaken` holds of the beginning of a history if it holds of the whole. -/
lemma of_append {later : History γ κ δ α ρ} (hh : WheneverTaken P (later ++ h)) :
    h.WheneverTaken P := by
  induction later with
  | nil => exact hh
  | cons d later ih => exact ih hh.tail

/-- Every published request is in exactly one batch, or was published since the latest batch was
taken. -/
lemma published_perm (hh : h.WheneverTaken Snapshot) :
    h.published.Perm (requests h.taken ++ h.unclaimed) := by
  induction h with
  | nil => exact .refl _
  | cons d h ih =>
    have ih := ih hh.tail
    have hpart : d.batchTaken = [] → unclaimed (d :: h) = unclaimed h ++ d.requestPublished →
        (published (d :: h)).Perm (requests (taken (d :: h)) ++ unclaimed (d :: h)) := by
      intro htaken hunclaimed
      rw [hunclaimed, published_cons, taken_cons, htaken, List.append_nil, ← List.append_assoc]
      exact ih.append_right _
    cases d with
    | took batch =>
      -- a batch consists of the unclaimed requests
      have hperm := (hh [] batch h rfl).perm
      simp only [published_cons, taken_cons, Action.requestPublished, Action.batchTaken, unclaimed,
        List.append_nil, requests_append, requests_singleton]
      exact ih.trans (hperm.symm.append_left _)
    | _ => exact hpart rfl rfl

omit [Gate γ κ δ] in
/-- Every batch taken satisfies the condition together with some earlier history. -/
lemma exists_earlier (hh : h.WheneverTaken P) {batch : Batch α ρ} (hb : batch ∈ h.taken) :
    ∃ earlier, P batch earlier := by
  induction h with
  | nil => cases hb
  | cons d h ih =>
    rw [taken_cons] at hb
    rcases List.mem_append.1 hb with hb | hb
    · exact ih hh.tail hb
    · cases d with
      | took batch' =>
        rw [List.mem_singleton.1 hb]
        exact ⟨h, hh [] batch' h rfl⟩
      | _ => cases hb

/-- No batch is empty. -/
lemma ne_nil (hh : h.WheneverTaken Snapshot) {batch : Batch α ρ} (hb : batch ∈ h.taken) :
    batch ≠ [] := by
  obtain ⟨earlier, hsnapshot⟩ := hh.exists_earlier hb
  exact hsnapshot.ne_nil

end WheneverTaken

end History

namespace RequestInv

variable {h : History γ κ δ α ρ} {t t' : Option (Task α ρ)}

/-- A fresh instance has no requests. -/
lemma fresh (style : Style) (copies : Copies α) (gate : γ) (registry : Registry) (cells : Nat)
    (wait : WaitPolicy) :
    RequestInv []
      (Instance.fresh style copies gate registry cells wait : Instance γ δ α ρ) none := by
  refine ⟨.of_eq ?_, ?_⟩
  · have hblank : ∀ x, x ∉ (Instance.fresh style copies gate registry cells wait :
        Instance γ δ α ρ).published := by
      intro x hx
      obtain ⟨w, hw, -⟩ := (CellInv.fresh style copies gate registry cells 0 wait).writer x.1 x.2
        (Instance.mem_published.1 hx)
      cases hw
    rw [List.eq_nil_iff_forall_not_mem.2 hblank]
    rfl
  · intro later batch earlier heq
    simp at heq

/-- The end of a round leaves the requests published since it began. -/
lemma close {s s' : Instance γ δ α ρ} {n : Nat} {u : Task α ρ} (hr : RequestInv h s (some u))
    (hd : CellInv s.cells s.writers n (some u)) (hc : s.RoundEnded s' u.batch) :
    (s'.published.map Prod.snd).Perm h.unclaimed := by
  have hperm := ((hc.published_perm hd).map Prod.snd).symm.trans hr.pending
  rw [List.map_append] at hperm
  exact (List.perm_append_left_iff _).1 hperm

/-- An action that neither takes nor publishes anything preserves the invariant. -/
lemma cons {s s' : Instance γ δ α ρ} (hr : RequestInv h s t) {d : Action γ κ δ α ρ}
    (htaken : d.batchTaken = []) (hpublished : d.requestPublished = [])
    (hpending :
      (s'.published.map Prod.snd).Perm (t'.elim [] (·.batch.map Prod.snd) ++ h.unclaimed)) :
    RequestInv (d :: h) s' t' := by
  cases d with
  | took batch => cases htaken
  | _ => exact ⟨by simpa [History.unclaimed, hpublished] using hpending,
    hr.snapshots.cons (by simp)⟩

lemma progress {s s' : Instance γ δ α ρ} {actions : History γ κ δ α ρ} {n : Nat}
    (hp : Instance.Progress s t actions s' t') (hd : CellInv s.cells s.writers n t)
    (hr : RequestInv h s t) :
    RequestInv (actions ++ h) s' t' := by
  cases hp with
  | quiet => exact ⟨hr.pending, hr.snapshots⟩
  | elect hpublished =>
    refine ⟨by simp [Task.batch, History.unclaimed, Instance.published], hr.snapshots.cons ?_⟩
    -- with no round under way all pending requests are unclaimed
    rintro batch ⟨⟩
    exact ⟨hpublished, s.published_pairwise, hr.pending⟩
  | @apply s' p done rest old x h =>
    have hrequest : ∀ i, (cellAt s'.cells i).request = (cellAt s.cells i).request := by
      obtain ⟨output, gate, registry, log, note, houtcome, rfl, hlook⟩ := Instance.pass_ok h
      intro i
      simp only
      split <;> simp
    refine hr.cons rfl rfl ?_
    simp only [Option.elim_some, Task.batch, List.append_assoc, List.singleton_append]
    exact ((Instance.published_perm_of_request hrequest).map _).trans hr.pending
  | @giveUp s' p done rest old x f h =>
    have happlied : RequestInv (.applied s (p.target old) p x.2 :: _) s _ :=
      hr.cons rfl rfl hr.pending
    exact happlied.cons rfl rfl (happlied.close hd (Instance.roundEnded_giveUp hd h))
  | turn =>
    have hpending := hr.pending
    simp only [Option.elim_some, Task.batch, List.append_nil] at hpending
    exact hr.cons rfl rfl hpending
  | complete => exact hr.cons rfl rfl (hr.close hd (Instance.roundEnded_complete hd))
  | surplus => exact hr.cons rfl rfl (hr.close hd (Instance.roundEnded_surplus hd _ _))

lemma moved {s s' : Session γ κ δ α ρ} {m : Move α ρ} {r : Except Failure (Answer κ α)}
    (hact : s.act m = (r, s')) (hm : s.Moved m r s') (hroom : s.EnoughCells)
    (hd : CellInv s.inst.cells s.inst.writers s.started t) (hr : RequestInv h s.inst t) :
    RequestInv (.moved s m :: h) s'.inst t := by
  have hnothing : (Action.moved s m).requestPublished = [] → s'.inst.cells = s.inst.cells →
      RequestInv (.moved s m :: h) s'.inst t := by
    intro hpublished hcells
    refine hr.cons rfl hpublished ?_
    rw [Instance.published, hcells]
    exact hr.pending
  cases hm.called hact with
  | absent hpublished _ hcells => exact hnothing hpublished hcells
  | turnedAway _ hpublished _ hcells => exact hnothing hpublished hcells
  | @letIn k i mutation observed _ hadmits hpublished _ hcells =>
    refine ⟨?_, hr.snapshots.cons (by simp)⟩
    have hperm := (Instance.published_publish_perm (hroom.lt_length hadmits)
      (hd.request_eq_none hadmits.free) hcells).map Prod.snd
    rw [List.map_append] at hperm
    have hunclaimed : History.unclaimed (.moved s (.mutate k mutation observed) :: h) =
        h.unclaimed ++ [⟨s.started, mutation, observed⟩] := by rw [← hpublished]; rfl
    rw [hunclaimed, ← List.append_assoc]
    exact hperm.trans (hr.pending.append_right _)

end RequestInv

/-! ## The writers started -/

/-- Every writer started has published its request or was rejected. -/
def Numbered (h : History γ κ δ α ρ) (started : Nat) : Prop :=
  (h.published.map Request.writer ++ h.turnedAway).Perm (List.range started)

namespace Numbered

variable {h : History γ κ δ α ρ} {n : Nat}

lemma moved {s s' : Session γ κ δ α ρ} {m : Move α ρ} {r : Except Failure (Answer κ α)}
    (hact : s.act m = (r, s')) (hm : s.Moved m r s') (hn : Numbered h s.started) :
    Numbered (.moved s m :: h) s'.started := by
  unfold Numbered at hn ⊢
  rw [History.published_cons, History.turnedAway_cons]
  cases hm.called hact with
  | absent hpublished hturnedAway _ _ hstarted =>
    rw [hpublished, hturnedAway, List.append_nil, List.append_nil, hstarted]
    exact hn
  | letIn _ hpublished hturnedAway _ _ hstarted =>
    rw [hpublished, hturnedAway, List.append_nil, hstarted, List.range_succ, List.map_append,
      List.append_assoc]
    refine (List.perm_append_comm.append_left _).trans ?_
    rw [← List.append_assoc]
    exact hn.append_right _
  | turnedAway _ hpublished hturnedAway _ _ hstarted =>
    rw [hpublished, hturnedAway, List.append_nil, hstarted, List.range_succ, ← List.append_assoc]
    exact hn.append_right _

/-- Steps of the leading writer start no writers. -/
lemma progress {s s' : Instance γ δ α ρ} {t t' : Option (Task α ρ)} {actions : History γ κ δ α ρ}
    (hp : Instance.Progress s t actions s' t') (hn : Numbered h n) : Numbered (actions ++ h) n := by
  cases hp <;> simpa [Numbered, Action.requestPublished, Action.writerTurnedAway] using hn

lemma emptied (finished : List (Finished α ρ)) (log : List Event) (hn : Numbered h n) :
    Numbered (.emptied finished log :: h) n := by
  simpa [Numbered, Action.requestPublished, Action.writerTurnedAway] using hn

end Numbered

/-- Steps of the leading writer publish nothing. -/
lemma Instance.Progress.published_eq {s s' : Instance γ δ α ρ} {t t' : Option (Task α ρ)}
    {actions h : History γ κ δ α ρ} (hp : Progress s t actions s' t') :
    History.published (actions ++ h) = h.published := by
  cases hp <;> simp [Action.requestPublished]

end TwinCopy
