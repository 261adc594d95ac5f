import TwinCopy.Proofs.Combining
import TwinCopy.Proofs.GateInvariant

/-!
# The copies given to queries

For every gate with `GateInv`, `RegularInv` holds as long as the readers stay within the limit of
the gate. Moreover the active side is determined by the parity of the number of turns, and every
query is given the replay of a prefix of the batches, a later query one at least as long:
`readInv_after`.
-/

namespace TwinCopy

variable {γ κ δ α ρ : Type} [Gate γ κ δ]

/-! ## The copies given -/

namespace History

omit [Gate γ κ δ] in
lemma gather_append {β : Type} (part : Action γ κ δ α ρ → List β) (actions h : History γ κ δ α ρ) :
    gather part (actions ++ h) = gather part h ++ gather part actions := by
  simp [gather]

/-- The copies given to queries when they began, in order. -/
def seen (h : History γ κ δ α ρ) : List α :=
  gather (·.given?.toList) h

/-- Every query was given the replay of a prefix of the batches with initial value `a`, and a later
query one at least as long. -/
def ReadsGiven (a : α) (h : History γ κ δ α ρ) : Prop :=
  ∃ counts : List Nat, counts.Pairwise (· ≤ ·) ∧ (∀ n ∈ counts, n ≤ h.turned.length) ∧
    h.seen = counts.map fun n => replay a (requests (h.turned.take n))

namespace ReadsGiven

variable {a : α} {actions h : History γ κ δ α ρ} {d : Action γ κ δ α ρ}

/-- Batches turned to later do not affect earlier queries. -/
lemma append (hs : ReadsGiven a h) (hseen : seen actions = []) : ReadsGiven a (actions ++ h) := by
  obtain ⟨counts, hsorted, hle, heq⟩ := hs
  have hturned : turned (actions ++ h) = h.turned ++ turned actions := gather_append _ _ _
  refine ⟨counts, hsorted, fun n hn => ?_, ?_⟩
  · rw [hturned, List.length_append]
    exact Nat.le_add_right_of_le (hle n hn)
  · rw [show seen (actions ++ h) = h.seen ++ seen actions from gather_append _ _ _, hseen,
      List.append_nil, heq]
    refine List.map_congr_left fun n hn => ?_
    rw [hturned, List.take_append_of_le_length (hle n hn)]

/-- A query that begins is given the replay of all batches turned to. -/
lemma cons (hs : ReadsGiven a h) (hturned : d.batchTurned = [])
    (hgiven : ∀ b ∈ d.given?, b = replay a (requests h.turned)) : ReadsGiven a (d :: h) := by
  rcases hd : d.given? with _ | b
  · have hseen : seen [d] = [] := by simp [seen, hd]
    exact hs.append hseen
  · obtain ⟨counts, hsorted, hle, heq⟩ := hs
    have hsame : turned (d :: h) = h.turned := by rw [turned_cons, hturned, List.append_nil]
    refine ⟨counts ++ [h.turned.length], ?_, ?_, ?_⟩
    · refine List.pairwise_append.2 ⟨hsorted, List.pairwise_singleton _ _, ?_⟩
      rintro n hn m hm
      rw [List.mem_singleton.1 hm]
      exact hle n hn
    · rw [hsame]
      exact List.forall_mem_append.2 ⟨hle, by simp⟩
    · rw [show seen (d :: h) = h.seen ++ d.given?.toList from gather_cons _ _ _, hd, hsame,
        List.map_append, heq, hgiven b hd, List.map_singleton, List.take_length]
      rfl

end ReadsGiven

end History

/-- The leading writer begins no query. -/
lemma Instance.Staged.seen_eq_nil {s t : Instance γ δ α ρ} {c c' : Control δ α ρ}
    {actions : History γ κ δ α ρ} (h : Staged s c actions t c') : actions.seen = [] := by
  cases h <;> rfl

/-! ## Gates with `GateInv` -/

/-- `RegularInv`, with the parity of the number of turns and the copies given to queries. -/
structure ReadInv (start : Side) (a : α) (s : Session γ κ δ α ρ) (h : History γ κ δ α ρ)
    (c : Control δ α ρ) : Prop where
  regularInv : RegularInv ⟨a, a⟩ s h c.task?
  side : s.inst.activeSide = Side.opposite^[h.turned.length] start
  readsGiven : h.ReadsGiven a

variable [DecidableEq κ] {current : γ → κ} {old : δ → κ} {limit : List κ → Nat → Prop}
  {Knows : γ → Option (Phase δ) → List (Nat × κ) → Nat → Prop}

/-- Over a gate with `GateInv` steps are sound. -/
lemma ReadersKnown.sound (T : GateInv current old limit Knows) {s : Session γ κ δ α ρ}
    {h : History γ κ δ α ρ} {c c' : Control δ α ρ} (hs : ReadersKnown Knows s h c)
    {actions : History γ κ δ α ρ} {inst : Instance γ δ α ρ}
    (hstaged : Instance.Staged s.inst c actions inst c')
    (hwithin : History.Within limit (actions ++ h))
    (hregular : ∀ u ∈ c.task?, ∀ x ∈ u.batch, x.2.mutation.Regular) :
      s.inst.Sound actions inst := by
  have hknows := hs.knows
  cases hstaged with
  | quiet | elect | clear => exact ⟨rfl, by simp⟩
  | apply hpass =>
    obtain ⟨registry, note, hlook⟩ := Instance.pass_look hpass
    exact ⟨(hs.look T hlook hwithin).2.1, by simp⟩
  | @giveUp t p done rest old x f hpass =>
    have hx : x.2.mutation.Regular :=
      hregular _ rfl x (List.mem_append_right done List.mem_cons_self)
    exact absurd hpass (Instance.pass_ne_error hx)
  | turn => exact ⟨(T.turn hknows).2.2, by simp⟩
  | shift hstandby => exact ⟨(T.shift hknows hstandby).2, by simp⟩
  | complete =>
    refine ⟨?_, by simp⟩
    rw [Instance.activeSide, Instance.gate_complete]
    rfl
  | surplus hcleared => exact absurd hcleared (T.sound hknows)

namespace ReadInv

variable {start : Side} {a : α} {s s' : Session γ κ δ α ρ} {h : History γ κ δ α ρ}
  {c c' : Control δ α ρ}

omit [DecidableEq κ] in
/-- The active copy has all the batches turned to. -/
lemma active (hs : ReadInv start a s h c) :
    s.inst.copies.get s.inst.activeSide = replay a (requests h.turned) := by
  have hl := hs.regularInv.copyInv
  rw [hl.copies, hl.active]
  cases s.inst.activeSide <;> rfl

lemma moved (T : GateInv current old limit Knows) (hs : ReadInv start a s h c)
    (hk : ReadersKnown Knows s h c) {m : Move α ρ} {r : Except Failure (Answer κ α)}
    (hact : s.act m = (r, s')) (hm : s.Moved m r s') (hmatched : History.Matched (.moved s m :: h))
    (hwithin : History.Within limit (.moved s m :: h))
    (hregular : ∀ q ∈ History.published (.moved s m :: h), q.mutation.Regular) :
    ReadInv start a s' (.moved s m :: h) c := by
  have hcrossed := s.crossed_act m
  rw [hact] at hcrossed
  obtain ⟨-, hside, -⟩ := hk.crossed T hcrossed hmatched hwithin
  have hturned : History.turned (.moved s m :: h) = h.turned := by simp
  refine ⟨hs.regularInv.moved hregular hact hm hside, ?_, hs.readsGiven.cons rfl fun b hb => ?_⟩
  · rw [hturned]
    exact Eq.trans hside hs.side
  · -- a query that begins is given the copy on the active side
    revert hb
    simp only [Action.given?, hact]
    generalize s.crossing m = x at hcrossed
    cases hcrossed with
    | entered _ hv =>
      rintro ⟨⟩
      rw [Instance.given, hv, hm.copies_eq, ← hs.active]
      exact congrArg s.inst.copies.get hside
    | _ => rintro ⟨⟩

lemma staged (T : GateInv current old limit Knows) (hs : ReadInv start a s h c)
    (hk : ReadersKnown Knows s h c) {actions : History γ κ δ α ρ} {inst : Instance γ δ α ρ}
    (hstaged : Instance.Staged s.inst c actions inst c')
    (hwithin : History.Within limit (actions ++ h)) :
    ReadInv start a { s with inst } (actions ++ h) c' := by
  have hsound := hk.sound T hstaged hwithin hs.regularInv.regular_batch
  refine ⟨hs.regularInv.progress hstaged.progress hsound, ?_,
    hs.readsGiven.append hstaged.seen_eq_nil⟩
  have hturned : History.turned (actions ++ h) = h.turned ++ actions.turned :=
    History.gather_append _ _ _
  rw [hturned, List.length_append, Nat.add_comm, Function.iterate_add_apply, ← hs.side]
  exact hsound.side

omit [DecidableEq κ] in
lemma emptied (hs : ReadInv start a s h c) :
    ReadInv start a { s with inst := { s.inst with finished := [], log := [] } }
      (.emptied s.inst.finished s.inst.log :: h) c where
  regularInv := hs.regularInv.emptied
  side := by
    rw [show History.turned (.emptied s.inst.finished s.inst.log :: h) = h.turned by simp]
    exact hs.side
  readsGiven := by
    let actions : History γ κ δ α ρ := [.emptied s.inst.finished s.inst.log]
    have hseen : actions.seen = [] := rfl
    exact hs.readsGiven.append hseen

end ReadInv

/-- `ReadInv` holds at every point of every schedule, if departures match arrivals, the readers stay
within the limit, and the mutations admitted are regular. -/
theorem readInv_after (T : GateInv current old limit Knows) {a : α} {s : Session γ κ δ α ρ}
    (hs : s.Exclusive .resting) (hround : s.inst.round = none)
    (hstart : ReadersKnown Knows s [] (Point.start s).stage) (hb : RegularInv ⟨a, a⟩ s [] none)
    (ticks : List (Tick α ρ)) :
    let p := (Point.start s).after ticks
    p.history.Matched → p.history.Within limit → (∀ r ∈ p.history.published, r.mutation.Regular) →
      ReadInv s.inst.activeSide a p.session p.history p.stage := by
  intro p hmatched hwithin hregular
  have hstage : (Point.start s).stage = .resting := Instance.stage_resting hround
  -- `ReadersKnown` is part of the induction, as it determines the side
  suffices h : ReadersKnown Knows p.session p.history p.stage ∧
      ReadInv s.inst.activeSide a p.session p.history p.stage from h.2
  revert hmatched hwithin hregular
  refine Point.stage_after
    (P := fun s' h c => h.Matched → h.Within limit → (∀ r ∈ h.published, r.mutation.Regular) →
      ReadersKnown Knows s' h c ∧ ReadInv s.inst.activeSide a s' h c)
    (fun {s h c m r s'} _ hact hm ih hmatched hwithin hregular => ?_)
    (fun {s h c actions inst c'} hstaged ih hmatched hwithin hregular => ?_)
    (fun {s h c} ih hmatched hwithin hregular => ?_) hs fun _ _ _ => ?_
  · have hbefore : ∀ q ∈ h.published, q.mutation.Regular := fun q hq =>
      hregular q (by rw [History.published_cons]; exact List.mem_append_left _ hq)
    obtain ⟨hk, hu⟩ := ih hmatched.1 hwithin.1 hbefore
    exact ⟨hk.moved T hact hmatched hwithin, hu.moved T hk hact hm hmatched hwithin hregular⟩
  · rw [hstaged.progress.published_eq] at hregular
    obtain ⟨hk, hu⟩ := ih hmatched.of_append hwithin.of_append hregular
    exact ⟨hk.staged T hstaged hwithin, hu.staged T hk hstaged hwithin⟩
  · have hbefore : ∀ q ∈ h.published, q.mutation.Regular := fun q hq =>
      hregular q (by simpa [Action.requestPublished] using hq)
    obtain ⟨hk, hu⟩ := ih hmatched.1 hwithin.1 hbefore
    exact ⟨hk.emptied _ _, hu.emptied⟩
  · refine ⟨hstart, ?_, rfl, [], .nil, by simp, rfl⟩
    rw [hstage]
    exact hb

end TwinCopy
