import Mathlib.Logic.Function.Iterate
import TwinCopy.Proofs.Crossings
import TwinCopy.Proofs.Records

/-!
# Two copies of one sequential object

If mutations depend on the copy only and always return, each copy is a replay of the requests
applied to it, and both copies get the same requests in the same order: the active copy those of the
batches turned to, the other one those of the batches completed, and what the pass under way has
applied. This is `CopyInv`, for every gate whose side changes only with the turns of rounds.
`OutputInv` adds that every writer gets the output of a single sequential object.
-/

namespace TwinCopy

variable {γ κ δ α ρ : Type}

/-! ## The sequential object -/

/-- The mutation depends on the copy only, and always returns. -/
def Mutation.Regular (m : Mutation α ρ) : Prop :=
  ∃ f, m = .ofFunction f

/-- The value that the first application of a mutation leaves. -/
def Mutation.effect (m : Mutation α ρ) (a : α) : α :=
  (m.apply 1 a).copy

/-- The outcome of the first application of a mutation. -/
def Mutation.outcome (m : Mutation α ρ) (a : α) : Except Fault ρ :=
  (m.apply 1 a).outcome.mapError .raised

lemma Mutation.Regular.apply_eq {m : Mutation α ρ} (hm : m.Regular) (n : Nat) (a : α) :
    ∃ output, m.apply n a = ⟨m.effect a, .ok output⟩ ∧ m.outcome a = .ok output := by
  obtain ⟨f, rfl⟩ := hm
  exact ⟨(f a).2, rfl, rfl⟩

/-- The value after the requests are applied one after the other. -/
def replay (a : α) (rs : List (Request α ρ)) : α :=
  rs.foldl (fun a r => r.mutation.effect a) a

/-- The outcomes for the writers when the requests are applied one after the other to a single
object. -/
def answers (a : α) : List (Request α ρ) → List (Nat × Except Fault ρ)
  | [] => []
  | r :: rs => (r.writer, r.mutation.outcome a) :: answers (r.mutation.effect a) rs

@[simp] lemma replay_nil (a : α) : replay a ([] : List (Request α ρ)) = a := rfl

@[simp] lemma replay_cons (a : α) (r : Request α ρ) (rs : List (Request α ρ)) :
    replay a (r :: rs) = replay (r.mutation.effect a) rs := rfl

lemma replay_append (a : α) (rs rs' : List (Request α ρ)) :
    replay a (rs ++ rs') = replay (replay a rs) rs' :=
  List.foldl_append

lemma answers_append (a : α) (rs rs' : List (Request α ρ)) :
    answers a (rs ++ rs') = answers a rs ++ answers (replay a rs) rs' := by
  induction rs generalizing a with
  | nil => rfl
  | cons r rs ih => rw [List.cons_append, answers, answers, ih, List.cons_append, replay_cons]

/-- The outcome of a request is that of its mutation on the replay of the requests before it. -/
lemma answers_eq_map {a : α} {batch : Batch α ρ} {answer : Nat × Request α ρ → Except Fault ρ}
    (h : ∀ before x after, batch = before ++ x :: after →
      x.2.mutation.outcome (replay a (before.map Prod.snd)) = answer x) :
    answers a (batch.map Prod.snd) = batch.map fun x => (x.2.writer, answer x) := by
  induction batch generalizing a with
  | nil => rfl
  | cons x batch ih =>
    have hx : x.2.mutation.outcome a = answer x := h [] x batch rfl
    have htail := ih (a := x.2.mutation.effect a) fun before y after heq =>
      h (x :: before) y after (by rw [heq, List.cons_append])
    rw [List.map_cons, List.map_cons, answers, hx, htail]

/-! ## The copies -/

namespace Task

/-- The batch that only the active copy has. -/
def ahead (u : Task α ρ) : List (Batch α ρ) :=
  match u.pass with
  | .first => []
  | .second => [u.batch]

end Task

variable [Gate γ κ δ]

/-- The copies are replays of the requests applied to them, and these are the same for both, up to
the round under way. -/
structure CopyInv (init : Copies α) (h : History γ κ δ α ρ) (s : Instance γ δ α ρ)
    (t : Option (Task α ρ)) : Prop where
  copies : ∀ side, s.copies.get side = replay (init.get side) (h.applied side)
  active : h.applied s.activeSide = requests h.turned
  inactive : h.applied s.activeSide.opposite =
    requests h.completed ++ t.elim [] (·.done.map Prod.snd)
  turned : h.turned = h.completed ++ t.elim [] Task.ahead
  taken : h.taken = h.completed ++ t.elim [] fun u => [u.batch]
  target : ∀ u ∈ t, s.activeSide = (u.pass.target u.old).opposite
  mutations : s.mutations = (requests h.completed).length
  batches : s.batches = h.completed.length

namespace Instance

/-- In a step of the leading writer only a turn changes the side, and no round is abandoned because
of its readers. -/
structure Sound (s : Instance γ δ α ρ) (actions : History γ κ δ α ρ) (s' : Instance γ δ α ρ) :
    Prop where
  side : s'.activeSide = Side.opposite^[actions.turned.length] s.activeSide
  not_abandoned : ∀ batch, actions ≠ [.abandoned batch]

/-- A regular mutation does not end in a fault. -/
lemma pass_ne_error {s s' : Instance γ δ α ρ} {side : Side} {n : Nat}
    {x : Nat × Request α ρ} {f : Fault} (hx : x.2.mutation.Regular) :
    s.pass side n [x] ≠ (.error f, s') := by
  intro h
  obtain ⟨message, gate, registry, log, note, houtcome, -⟩ := pass_error h
  obtain ⟨output, happly, -⟩ := hx.apply_eq n (s.copies.get side)
  rw [happly] at houtcome
  cases houtcome

end Instance

namespace CopyInv

variable {init : Copies α} {h : History γ κ δ α ρ} {s s' : Instance γ δ α ρ}
  {t t' : Option (Task α ρ)}

/-- `CopyInv` depends on the copies, the side and the counts only. -/
lemma congr (hl : CopyInv init h s t) (hcopies : s'.copies = s.copies)
    (hside : s'.activeSide = s.activeSide) (hmutations : s'.mutations = s.mutations)
    (hbatches : s'.batches = s.batches) : CopyInv init h s' t where
  copies := hcopies ▸ hl.copies
  active := hside ▸ hl.active
  inactive := hside ▸ hl.inactive
  turned := hl.turned
  taken := hl.taken
  target := hside ▸ hl.target
  mutations := hmutations ▸ hl.mutations
  batches := hbatches ▸ hl.batches

/-- An action without a part in a round preserves the invariant. -/
lemma cons (hl : CopyInv init h s t) {d : Action γ κ δ α ρ}
    (happlied : ∀ side, d.requestApplied side = []) (htaken : d.batchTaken = [])
    (hturned : d.batchTurned = []) (hcompleted : d.batchCompleted = []) :
    CopyInv init (d :: h) s t where
  copies side := by
    rw [History.applied_cons, happlied, List.append_nil]
    exact hl.copies side
  active := by
    rw [History.applied_cons, History.turned_cons, happlied, hturned, List.append_nil,
      List.append_nil]
    exact hl.active
  inactive := by
    rw [History.applied_cons, History.completed_cons, happlied, hcompleted, List.append_nil,
      List.append_nil]
    exact hl.inactive
  turned := by
    rw [History.turned_cons, History.completed_cons, hturned, hcompleted, List.append_nil,
      List.append_nil]
    exact hl.turned
  taken := by
    rw [History.taken_cons, History.completed_cons, htaken, hcompleted, List.append_nil,
      List.append_nil]
    exact hl.taken
  target := hl.target
  mutations := by
    rw [History.completed_cons, hcompleted, List.append_nil]
    exact hl.mutations
  batches := by
    rw [History.completed_cons, hcompleted, List.append_nil]
    exact hl.batches

/-- A round begins with equal copies. -/
lemma elect {batch : Batch α ρ} (hl : CopyInv init h s none) :
    CopyInv init (.took batch :: h) s (some ⟨.first, [], batch, s.activeSide⟩) where
  copies := by simpa using hl.copies
  active := by simpa using hl.active
  inactive := by simpa using hl.inactive
  turned := by simpa [Task.ahead] using hl.turned
  taken := by simpa [Task.batch] using hl.taken
  target := by
    rintro u ⟨⟩
    exact (Side.opposite_opposite _).symm
  mutations := by simpa using hl.mutations
  batches := by simpa using hl.batches

/-- An application adds a request to the inactive copy. -/
lemma apply {p : Pass} {done rest : Batch α ρ} {x : Nat × Request α ρ} {old : Side}
    (hl : CopyInv init h s (some ⟨p, done, x :: rest, old⟩)) (hx : x.2.mutation.Regular)
    (hpass : s.pass (p.target old) p.application [x] = (.ok (), s'))
    (hkept : s'.activeSide = s.activeSide) :
    CopyInv init (.applied s (p.target old) p x.2 :: h) s' (some ⟨p, done ++ [x], rest, old⟩) := by
  obtain ⟨output, gate, registry, log, note, houtcome, rfl, -⟩ := Instance.pass_ok hpass
  obtain ⟨output', happly, -⟩ := hx.apply_eq p.application (s.copies.get (p.target old))
  have hcopies := hl.copies
  have hactive := hl.active
  have hinactive := hl.inactive
  have hside : s.activeSide = (p.target old).opposite := hl.target _ rfl
  have hside' : Gate.side gate = (p.target old).opposite := hkept.trans hside
  have hne : (p.target old).opposite ≠ p.target old := Side.opposite_ne _
  rw [hside] at hactive
  rw [hside, Side.opposite_opposite] at hinactive
  refine ⟨fun side => ?_, ?_, ?_, ?_, ?_, ?_, ?_, ?_⟩
  · -- the copy that changes is the one not given to readers
    rcases Side.eq_or_eq_opposite side (p.target old) with rfl | rfl
    · simp only [History.applied_cons, Action.requestApplied, if_true, replay_append,
        Copies.get_set_same, happly]
      rw [hcopies]
      rfl
    · rw [Copies.get_set_opposite, hcopies]
      simp [hne.symm]
  · simp only [Instance.activeSide, hside']
    simpa [hne.symm] using hactive
  · simp only [Instance.activeSide, hside', Side.opposite_opposite]
    simp [hinactive]
  · simpa [Task.ahead, Task.batch] using hl.turned
  · simpa [Task.batch] using hl.taken
  · rintro u ⟨⟩
    exact hside'
  · simpa using hl.mutations
  · simpa using hl.batches

/-- A turn makes the copy active that has the batch. -/
lemma turn {batch : Batch α ρ} {old : Side}
    (hl : CopyInv init h s (some ⟨.first, batch, [], old⟩))
    (hopposite : Gate.side (Gate.turn s.gate).2 = (Gate.side s.gate).opposite) :
    CopyInv init (.turned batch :: h) { s with gate := (Gate.turn s.gate).2 }
      (some ⟨.second, [], batch, old⟩) := by
  have hturned : h.turned = h.completed := by simpa [Task.ahead] using hl.turned
  have hactive := hl.active
  have hinactive := hl.inactive
  have hside : s.activeSide = old := (hl.target _ rfl).trans (Side.opposite_opposite old)
  have hside' : ({ s with gate := (Gate.turn s.gate).2 } : Instance γ δ α ρ).activeSide =
      s.activeSide.opposite := hopposite
  rw [hturned] at hactive
  -- the copy that was inactive has the batch that the other one lacks
  refine ⟨?_, ?_, ?_, ?_, ?_, ?_, ?_, ?_⟩
  · simpa using hl.copies
  · rw [hside']
    simpa [hturned] using hinactive
  · rw [hside', Side.opposite_opposite]
    simpa using hactive
  · simp [Task.ahead, Task.batch, hturned]
  · simpa [Task.batch] using hl.taken
  · rintro u ⟨⟩
    rw [hside', hside]
    rfl
  · simpa using hl.mutations
  · simpa using hl.batches

/-- A completed round has made the copies equal again. -/
lemma complete {batch : Batch α ρ} {old : Side}
    (hl : CopyInv init h s (some ⟨.second, batch, [], old⟩)) :
    CopyInv init (.completed batch :: h) (s.complete batch old) none := by
  obtain ⟨cells, writers, log, finished, hcomplete⟩ := s.complete_frame batch old
  have hside : (s.complete batch old).activeSide = s.activeSide := by rw [hcomplete]; rfl
  refine ⟨?_, ?_, ?_, ?_, ?_, nofun, ?_, ?_⟩
  · rw [hcomplete]
    simpa using hl.copies
  · rw [hside]
    simpa using hl.active
  · rw [hside]
    simpa using hl.inactive
  · simpa [Task.ahead, Task.batch] using hl.turned
  · simpa [Task.batch] using hl.taken
  · rw [hcomplete]
    simp [hl.mutations]
  · rw [hcomplete]
    simp [hl.batches]

/-- Sound steps preserve the invariant if mutations are regular, as no round is abandoned. -/
lemma progress {actions : History γ κ δ α ρ} (hp : Instance.Progress s t actions s' t')
    (hsound : s.Sound actions s') (hregular : ∀ u ∈ t, ∀ x ∈ u.batch, x.2.mutation.Regular)
    (hl : CopyInv init h s t) : CopyInv init (actions ++ h) s' t' := by
  cases hp with
  | quiet => exact hl.congr rfl hsound.side rfl rfl
  | elect hpublished => exact hl.elect.congr rfl rfl rfl rfl
  | @apply _ p done rest old x h =>
    exact hl.apply (hregular _ rfl x (List.mem_append_right done List.mem_cons_self)) h hsound.side
  | @giveUp _ p done rest old x f h =>
    have hx : x.2.mutation.Regular :=
      hregular _ rfl x (List.mem_append_right done List.mem_cons_self)
    exact absurd h (Instance.pass_ne_error hx)
  | turn => exact hl.turn hsound.side
  | complete => exact hl.complete
  | surplus => exact absurd rfl (hsound.not_abandoned _)

/-- When a batch is taken, both copies have all the batches before it. -/
lemma settled {actions : History γ κ δ α ρ} (hp : Instance.Progress s t actions s' t')
    (hl : CopyInv init h s t)
    (hs : h.WheneverTaken fun _ earlier => earlier.taken = earlier.completed) :
    History.WheneverTaken (fun _ earlier => earlier.taken = earlier.completed) (actions ++ h) := by
  cases hp with
  | quiet => exact hs
  | elect => exact hs.cons fun _ _ => by simpa using hl.taken
  | giveUp => exact (hs.cons (by simp)).cons (by simp)
  | _ => exact hs.cons (by simp)

/-- The requests of the batch under way were published. -/
lemma mem_published (hl : CopyInv init h s t) (hs : h.WheneverTaken Snapshot) {u : Task α ρ}
    (hu : u ∈ t) {x : Nat × Request α ρ} (hx : x ∈ u.batch) : x.2 ∈ h.published := by
  have htaken := hl.taken
  rw [show t = some u from hu, Option.elim_some] at htaken
  refine hs.published_perm.mem_iff.2 (List.mem_append_left _ ?_)
  rw [htaken, requests_append, requests_singleton]
  exact List.mem_append_right _ (List.mem_map_of_mem hx)

end CopyInv

namespace Session

/-- A move does not change the counts of mutations and batches. -/
lemma Moved.counts_eq {s s' : Session γ κ δ α ρ} {m : Move α ρ}
    {r : Except Failure (Answer κ α)} (hm : s.Moved m r s') :
    s'.inst.mutations = s.inst.mutations ∧ s'.inst.batches = s.inst.batches := by
  cases hm <;> exact ⟨rfl, rfl⟩

end Session

/-- A move that does not change the side preserves the invariant. -/
lemma CopyInv.moved {init : Copies α} {h : History γ κ δ α ρ} {t : Option (Task α ρ)}
    {s s' : Session γ κ δ α ρ} {m : Move α ρ} {r : Except Failure (Answer κ α)}
    (hm : s.Moved m r s') (hside : s'.inst.activeSide = s.inst.activeSide)
    (hl : CopyInv init h s.inst t) : CopyInv init (.moved s m :: h) s'.inst t :=
  (hl.cons (fun _ => rfl) rfl rfl rfl).congr hm.copies_eq hside hm.counts_eq.1 hm.counts_eq.2

end TwinCopy
