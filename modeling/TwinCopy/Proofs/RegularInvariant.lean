import TwinCopy.Proofs.OutputInvariant
import TwinCopy.Proofs.Versions

/-!
# The invariants for regular mutations

`RegularInv` combines `CellInv`, `RequestInv`, `CopyInv` and `OutputInv`. It is preserved by moves
that do not change the side, and by sound steps, if mutations are regular. Over a gate of two
read-indicators it holds at every point of every schedule whose callers bring regular mutations,
under both styles.
-/

namespace TwinCopy

variable {γ κ δ α ρ : Type}

/-- The mutation of a writer started by this move is regular. -/
def Move.Regular : Move α ρ → Prop
  | .mutate _ mutation _ => mutation.Regular
  | _ => True

variable [Gate γ κ δ]

/-- The invariants of sessions whose mutations are regular. -/
structure RegularInv (init : Copies α) (s : Session γ κ δ α ρ) (h : History γ κ δ α ρ)
    (t : Option (Task α ρ)) : Prop where
  room : s.EnoughCells
  cellInv : CellInv s.inst.cells s.inst.writers s.started t
  requestInv : RequestInv h s.inst t
  numbered : Numbered h s.started
  regular : ∀ r ∈ h.published, r.mutation.Regular
  copyInv : CopyInv init h s.inst t
  settled : h.WheneverTaken fun _ earlier => earlier.taken = earlier.completed
  outputInv : ∀ a, init = ⟨a, a⟩ → OutputInv a h s.inst t

namespace RegularInv

variable {init : Copies α} {s s' : Session γ κ δ α ρ} {h : History γ κ δ α ρ}
  {t t' : Option (Task α ρ)}

/-- Every mutation of the batch under way is regular. -/
lemma regular_batch (hb : RegularInv init s h t) : ∀ u ∈ t, ∀ x ∈ u.batch, x.2.mutation.Regular :=
  fun _ hu _ hx => hb.regular _ (hb.copyInv.mem_published hb.requestInv.snapshots hu hx)

lemma moved {m : Move α ρ} {r : Except Failure (Answer κ α)}
    (hregular : ∀ q ∈ History.published (.moved s m :: h), q.mutation.Regular)
    (hact : s.act m = (r, s')) (hm : s.Moved m r s')
    (hside : s'.inst.activeSide = s.inst.activeSide)
    (hb : RegularInv init s h t) : RegularInv init s' (.moved s m :: h) t where
  room := hb.room.moved hm
  cellInv := hb.cellInv.moved hm hb.room
  requestInv := hb.requestInv.moved hact hm hb.room hb.cellInv
  numbered := hb.numbered.moved hact hm
  regular := hregular
  copyInv := hb.copyInv.moved hm hside
  settled := hb.settled.cons (by simp)
  outputInv a ha := (hb.outputInv a ha).moved hm hact

lemma progress {inst : Instance γ δ α ρ} {actions : History γ κ δ α ρ}
    (hp : Instance.Progress s.inst t actions inst t') (hsound : s.inst.Sound actions inst)
    (hb : RegularInv init s h t) : RegularInv init { s with inst } (actions ++ h) t' where
  room := hb.room.progress hp
  cellInv := hb.cellInv.progress hp
  requestInv := hb.requestInv.progress hp hb.cellInv
  numbered := hb.numbered.progress hp
  regular := by
    rw [hp.published_eq]
    exact hb.regular
  copyInv := hb.copyInv.progress hp hsound hb.regular_batch
  settled := hb.copyInv.settled hp hb.settled
  outputInv := by
    rintro a rfl
    exact (hb.outputInv a rfl).progress hp hsound hb.cellInv hb.copyInv hb.regular_batch

lemma emptied (hb : RegularInv init s h t) :
    RegularInv init { s with inst := { s.inst with finished := [], log := [] } }
      (.emptied s.inst.finished s.inst.log :: h) t where
  room := { hb.room with }
  cellInv := hb.cellInv
  requestInv := hb.requestInv.cons rfl rfl hb.requestInv.pending
  numbered := hb.numbered.emptied _ _
  regular := by
    simpa [Action.requestPublished] using hb.regular
  copyInv := (hb.copyInv.cons (fun _ => rfl) rfl rfl rfl).congr rfl rfl rfl rfl
  settled := hb.settled.cons (by simp)
  outputInv a ha := (hb.outputInv a ha).emptied

/-- The invariant of a fresh instance. -/
lemma start {style : Style} {gate : γ} {registry : Registry} {cells : Nat} {wait : WaitPolicy}
    (hroom : (Session.ofInstance (.fresh style init gate registry cells wait) :
      Session γ κ δ α ρ).EnoughCells) :
    RegularInv init (Session.ofInstance (.fresh style init gate registry cells wait) :
      Session γ κ δ α ρ) [] none where
  room := hroom
  cellInv := CellInv.fresh style init gate registry cells 0 wait
  requestInv := .fresh style init gate registry cells wait
  numbered := .refl _
  regular := nofun
  copyInv := ⟨fun _ => rfl, rfl, rfl, rfl, rfl, nofun, rfl, rfl⟩
  settled := by
    intro later batch earlier heq
    simp at heq
  outputInv a _ := ⟨nofun, .refl _⟩

end RegularInv

/-- The callers of a schedule bring regular mutations only. -/
def Regularly (ticks : List (Tick α ρ)) : Prop :=
  ∀ m, .caller m ∈ ticks → m.Regular

/-- The requests published by a regular move are regular. -/
lemma Move.Regular.published {s s' : Session γ κ δ α ρ} {m : Move α ρ}
    {r : Except Failure (Answer κ α)} (hregular : m.Regular) (hact : s.act m = (r, s'))
    (hm : s.Moved m r s') : ∀ q ∈ (Action.moved s m).requestPublished, q.mutation.Regular := by
  intro q hq
  cases hm.called hact with
  | absent hpublished | turnedAway _ hpublished => simp [hpublished] at hq
  | letIn _ hpublished =>
    rw [hpublished] at hq
    rw [List.mem_singleton.1 hq]
    exact hregular

/-! ## Two read-indicators -/

/-- Every step over two read-indicators is sound. -/
lemma Versioned.sound {s s' : Instance Versioned Version α ρ} {t t' : Option (Task α ρ)}
    {actions : History Versioned Version Version α ρ} (hp : Instance.Progress s t actions s' t')
    (hregular : ∀ u ∈ t, ∀ x ∈ u.batch, x.2.mutation.Regular) : s.Sound actions s' := by
  cases hp with
  | quiet hgate =>
    refine ⟨?_, by simp⟩
    rcases hgate with rfl | ⟨d, rfl⟩ <;> rfl
  | elect | turn => exact ⟨rfl, by simp⟩
  | apply hpass =>
    obtain ⟨registry, note, hlook⟩ := Instance.pass_look hpass
    exact ⟨hlook.sameVersions.side, by simp⟩
  | @giveUp _ p done rest old x f hpass =>
    have hx : x.2.mutation.Regular :=
      hregular _ rfl x (List.mem_append_right done List.mem_cons_self)
    exact absurd hpass (Instance.pass_ne_error hx)
  | complete =>
    refine ⟨?_, by simp⟩
    rw [Instance.activeSide, Instance.gate_complete]
    rfl
  | surplus hcleared => cases hcleared

/-- `RegularInv` holds at every point of every schedule with regular mutations. -/
theorem regularInv_after {init : Copies α} {s : Session Versioned Version Version α ρ}
    (hs : s.Exclusive .resting) (hround : s.inst.round = none) (hb : RegularInv init s [] none)
    {ticks : List (Tick α ρ)} (hticks : Regularly ticks) :
    RegularInv init ((Point.start s).after ticks).session ((Point.start s).after ticks).history
      ((Point.start s).after ticks).task? := by
  refine Point.invariant_after (P := fun s h t => RegularInv init s h t)
    (fun {s h t m r s'} hmem hact hm hb => ?_)
    (fun hp hb => hb.progress hp (Versioned.sound hp hb.regular_batch)) RegularInv.emptied hs ?_
  · have hcrossed := s.crossed_act m
    rw [hact] at hcrossed
    refine hb.moved ?_ hact hm hcrossed.sameVersions.side
    rw [History.published_cons]
    exact List.forall_mem_append.2 ⟨hb.regular, (hticks m hmem).published hact hm⟩
  · rw [Point.task?_start hround]
    exact hb

end TwinCopy
