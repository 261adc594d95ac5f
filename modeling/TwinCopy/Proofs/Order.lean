import TwinCopy.Proofs.Waiting

/-!
# The order of requests from one cell

A writer publishes its request at a cell, the only one or that of its slot. A batch has at most one
request from each cell, and consists of those published since the previous batch was taken; hence
the requests from one cell are served in the order in which they were published, whatever the
batches: `History.filter_published`.
-/

namespace TwinCopy

variable {γ κ δ α ρ : Type} [Gate γ κ δ]

/-! ## Calls -/

namespace Action

/-- The cell of the writer that a move starts. -/
def cell : Action γ κ δ α ρ → Nat
  | .moved found (.mutate k ..) =>
      match found.inst.style with
      | .exclusive => 0
      | .combining => (found.slot? k).elim 0 Slot.index
  | _ => 0

/-- The request published by an action, with its cell. -/
def call (d : Action γ κ δ α ρ) : Batch α ρ :=
  d.requestPublished.map (d.cell, ·)

end Action

namespace History

/-- The requests published, with their cells, in order. -/
def calls (h : History γ κ δ α ρ) : Batch α ρ :=
  gather Action.call h

@[simp] lemma calls_cons (d : Action γ κ δ α ρ) (h : History γ κ δ α ρ) :
    calls (d :: h) = h.calls ++ d.call :=
  gather_cons _ _ _

lemma map_snd_calls (h : History γ κ δ α ρ) : h.calls.map Prod.snd = h.published := by
  induction h with
  | nil => rfl
  | cons d h ih =>
    have hcall : d.call.map Prod.snd = d.requestPublished := by
      rw [Action.call, List.map_map]
      exact List.map_id _
    rw [calls_cons, published_cons, List.map_append, ih, hcall]

lemma calls_eq_of_published {d : Action γ κ δ α ρ} {h : History γ κ δ α ρ}
    (hpublished : d.requestPublished = []) : calls (d :: h) = h.calls := by
  rw [calls_cons, Action.call, hpublished, List.map_nil, List.append_nil]

end History

/-- A writer that is admitted publishes its request at its cell. -/
lemma Session.Admits.cell_eq {s : Session γ κ δ α ρ} {k i : Nat} (h : s.Admits k i)
    (mutation : Mutation α ρ) (observed : Bool) :
    (Action.moved s (.mutate k mutation observed)).cell = i := by
  rcases h with ⟨hstyle, -, rfl⟩ | ⟨hstyle, slot, hslot, -, rfl, -⟩
  · simp only [Action.cell, hstyle]
  · simp only [Action.cell, hstyle, hslot, Option.elim_some]

/-- Steps of the leading writer publish no requests. -/
lemma Instance.Progress.calls_eq {s s' : Instance γ δ α ρ} {t t' : Option (Task α ρ)}
    {actions h : History γ κ δ α ρ} (hp : Progress s t actions s' t') :
    History.calls (actions ++ h) = h.calls := by
  cases hp <;> simp [Action.call, Action.requestPublished]

/-- Steps of the leading writer add no requests to the cells. -/
lemma Instance.Progress.mem_published {s s' : Instance γ δ α ρ} {t t' : Option (Task α ρ)}
    {actions : History γ κ δ α ρ} {n : Nat} (hp : Progress s t actions s' t')
    (hd : CellInv s.cells s.writers n t) {x : Nat × Request α ρ} (hx : x ∈ s'.published) :
    x ∈ s.published := by
  have hroundEnded : ∀ {u : Task α ρ}, t = some u → s.RoundEnded s' u.batch → x ∈ s.published :=
    fun ht hc => (hc.published_perm (ht ▸ hd)).mem_iff.2 (List.mem_append_right _ hx)
  cases hp with
  | quiet | elect | turn => exact hx
  | apply hpass =>
    obtain ⟨output, gate, registry, log, note, -, rfl, -⟩ := pass_ok hpass
    refine (published_perm_of_request fun i => ?_).mem_iff.1 hx
    simp only
    split <;> simp
  | giveUp hpass => exact hroundEnded rfl (roundEnded_giveUp hd hpass)
  | complete => exact hroundEnded rfl (roundEnded_complete hd)
  | surplus => exact hroundEnded rfl (roundEnded_surplus hd _ _)

/-- Every request at a cell or in a batch was published there, and exclusive writers have one cell
only. -/
structure RequestsCalled (s : Session γ κ δ α ρ) (h : History γ κ δ α ρ) : Prop where
  pending : ∀ x ∈ s.inst.published, x ∈ h.calls
  taken : ∀ batch ∈ h.taken, ∀ x ∈ batch, x ∈ h.calls
  exclusive : s.inst.style = .exclusive → ∀ x ∈ h.calls, x.1 = 0

namespace RequestsCalled

variable {s s' : Session γ κ δ α ρ} {h : History γ κ δ α ρ} {t t' : Option (Task α ρ)}

lemma moved {m : Move α ρ} {r : Except Failure (Answer κ α)} (hact : s.act m = (r, s'))
    (hm : s.Moved m r s') (hq : Queued s h t) (hf : RequestsCalled s h) :
      RequestsCalled s' (.moved s m :: h) := by
  have hstyle : s'.inst.style = s.inst.style := hm.style_eq
  have hnothing : (Action.moved s m).requestPublished = [] → s'.inst.cells = s.inst.cells →
      RequestsCalled s' (.moved s m :: h) := by
    intro hpublished hcells
    refine ⟨fun x hx => ?_, fun batch hbatch => ?_, fun hexclusive => ?_⟩ <;>
      rw [History.calls_eq_of_published hpublished]
    · rw [Instance.published, hcells] at hx
      exact hf.pending x hx
    · exact hf.taken batch (by simpa using hbatch)
    · exact hf.exclusive (hstyle ▸ hexclusive)
  cases hm.called hact with
  | absent hpublished _ hcells => exact hnothing hpublished hcells
  | turnedAway _ hpublished _ hcells => exact hnothing hpublished hcells
  | @letIn k i mutation observed _ hadmits hpublished _ hcells =>
    have hcalls : History.calls (.moved s (.mutate k mutation observed) :: h) =
        h.calls ++ [(i, ⟨s.started, mutation, observed⟩)] := by
      rw [History.calls_cons, Action.call, hpublished, hadmits.cell_eq]
      rfl
    have hperm := Instance.published_publish_perm (hq.room.lt_length hadmits)
      (hq.cellInv.request_eq_none hadmits.free) hcells
    refine ⟨fun x hx => ?_, fun batch hbatch x hx => ?_, fun hexclusive x hx => ?_⟩
    · rw [hcalls]
      refine (List.mem_append.1 (hperm.mem_iff.1 hx)).elim (fun hx => ?_) (List.mem_append_right _)
      exact List.mem_append_left _ (hf.pending x hx)
    · rw [hcalls]
      exact List.mem_append_left _ (hf.taken batch (by simpa using hbatch) x hx)
    · rw [hcalls] at hx
      rcases List.mem_append.1 hx with hx | hx
      · exact hf.exclusive (hstyle ▸ hexclusive) x hx
      · rw [List.mem_singleton.1 hx]
        rcases hadmits with ⟨-, -, hi⟩ | ⟨hcombining, -⟩
        · exact hi
        · rw [← hstyle, hexclusive] at hcombining
          cases hcombining

lemma progress {inst : Instance γ δ α ρ} {actions : History γ κ δ α ρ}
    (hp : Instance.Progress s.inst t actions inst t') (hq : Queued s h t)
    (hf : RequestsCalled s h) :
    RequestsCalled { s with inst } (actions ++ h) where
  pending x hx := by
    rw [hp.calls_eq]
    exact hf.pending x (hp.mem_published hq.cellInv hx)
  taken batch hbatch := by
    rw [hp.calls_eq]
    have htaken : batch ∈ h.taken ∨ batch = s.inst.published := by
      cases hp with
      | elect => simpa using hbatch
      | _ => exact .inl (by simpa using hbatch)
    rcases htaken with htaken | rfl
    · exact hf.taken batch htaken
    · exact hf.pending
  exclusive hexclusive := by
    rw [hp.calls_eq]
    exact hf.exclusive (hp.frame.1.symm.trans hexclusive)

lemma emptied (hf : RequestsCalled s h) :
    RequestsCalled { s with inst := { s.inst with finished := [], log := [] } }
      (.emptied s.inst.finished s.inst.log :: h) where
  pending := by
    rw [History.calls_eq_of_published rfl]
    exact hf.pending
  taken batch hbatch := by
    rw [History.calls_eq_of_published rfl]
    exact hf.taken batch (by simpa using hbatch)
  exclusive := by
    rw [History.calls_eq_of_published rfl]
    exact hf.exclusive

/-- `RequestsCalled` holds of a session without writers. -/
lemma start (hq : Queued s [] none) : RequestsCalled s [] where
  pending _ hx := absurd (hq.requestInv.pending.mem_iff.1 (List.mem_map_of_mem hx)) List.not_mem_nil
  taken _ hbatch := absurd hbatch List.not_mem_nil
  exclusive _ _ hx := absurd hx List.not_mem_nil

end RequestsCalled

/-- `RequestsCalled` holds at every point of every schedule. -/
theorem requestsCalled_after {s : Session γ κ δ α ρ} (hs : s.Exclusive .resting)
    (hround : s.inst.round = none) (hq : Queued s [] none) (ticks : List (Tick α ρ)) :
    let p := (Point.start s).after ticks
    Queued p.session p.history p.task? ∧ RequestsCalled p.session p.history := by
  refine Point.invariant_after (P := fun s h t => Queued s h t ∧ RequestsCalled s h)
    (fun _ hact hm hs => ⟨hs.1.moved hact hm, hs.2.moved hact hm hs.1⟩)
    (fun hp hs => ⟨hs.1.progress hp, hs.2.progress hp hs.1⟩)
    (fun hs => ⟨hs.1.emptied, hs.2.emptied⟩) hs ?_
  rw [Point.task?_start hround]
  exact ⟨hq, .start hq⟩

/-! ## Order -/

omit [Gate γ κ δ] in
/-- A batch has at most one request from each cell. -/
lemma Batch.length_filter_le {batch : Batch α ρ} (hsorted : batch.Pairwise (·.1 < ·.1))
    (same : Request α ρ → Bool)
    (hsame : ∀ x ∈ batch, ∀ y ∈ batch, same x.2 = true → same y.2 = true → x.1 = y.1) :
    ((batch.map Prod.snd).filter same).length ≤ 1 := by
  rw [List.filter_map, List.length_map]
  have hsub : (batch.filter (same ∘ Prod.snd)).Pairwise (·.1 < ·.1) :=
    hsorted.sublist List.filter_sublist
  rcases hbatch : batch.filter (same ∘ Prod.snd) with _ | ⟨x, _ | ⟨y, rest⟩⟩
  · exact Nat.zero_le _
  · exact Nat.le_refl _
  · have hmem : ∀ z ∈ x :: y :: rest, z ∈ batch ∧ same z.2 = true :=
      fun z hz => List.mem_filter.1 (hbatch ▸ hz)
    obtain ⟨hx, hxs⟩ := hmem x List.mem_cons_self
    obtain ⟨hy, hys⟩ := hmem y (List.mem_cons_of_mem _ List.mem_cons_self)
    rw [hbatch] at hsub
    have hlt := (List.pairwise_cons.1 hsub).1 y List.mem_cons_self
    exact absurd (hsame x hx y hy hxs hys) (Nat.ne_of_lt hlt)

/-- If no batch has two of certain requests, those that were taken were taken in the order in which
they were published. -/
lemma History.WheneverTaken.filter_published {h : History γ κ δ α ρ} (hh : h.WheneverTaken Snapshot)
    (same : Request α ρ → Bool)
    (hsingle : ∀ batch ∈ h.taken, ((batch.map Prod.snd).filter same).length ≤ 1) :
    h.published.filter same = (requests h.taken).filter same ++ h.unclaimed.filter same := by
  induction h with
  | nil => rfl
  | cons d h ih =>
    have ih := ih hh.tail fun batch hbatch =>
      hsingle batch (by rw [taken_cons]; exact List.mem_append_left _ hbatch)
    have hpart : d.batchTaken = [] → unclaimed (d :: h) = unclaimed h ++ d.requestPublished →
        (published (d :: h)).filter same =
          (requests (taken (d :: h))).filter same ++ (unclaimed (d :: h)).filter same := by
      intro htaken hunclaimed
      rw [hunclaimed, published_cons, taken_cons, htaken, List.append_nil, List.filter_append, ih,
        List.filter_append, List.append_assoc]
    cases d with
    | took batch =>
      -- the batch contains the same one of the unclaimed requests, or none
      have hperm := (hh [] batch h rfl).perm.filter same
      have hle := hsingle batch (by simp)
      have hsame : (batch.map Prod.snd).filter same = (unclaimed h).filter same := by
        rcases hbatch : (batch.map Prod.snd).filter same with _ | ⟨r, _ | ⟨q, rest⟩⟩ <;>
          rw [hbatch] at hperm hle
        · exact hperm.nil_eq
        · exact (List.perm_singleton.1 hperm.symm).symm
        · simp at hle
      simp only [published_cons, taken_cons, Action.requestPublished, Action.batchTaken, unclaimed,
        List.append_nil, requests_append, requests_singleton, List.filter_append, List.filter_nil,
        hsame]
      exact ih
    | _ => exact hpart rfl rfl

end TwinCopy
