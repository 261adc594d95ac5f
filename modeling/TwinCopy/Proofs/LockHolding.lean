import TwinCopy.Proofs.AfterFault
import TwinCopy.Proofs.SlotRange

/-!
# The holder of the lock

The lock of an instance is held by a caller that took it and has not released it, or by the leading
writer of a round, and by no one else. Whether a caller holds it is determined by the answers to
callers, `History.holding`. A round releases the lock however it ends, and an application that tries
to take the lock during the round is refused: `Point.LockTracked`.

While a caller holds the lock the instance is `Frozen`: readers arrive and depart, and are given the
same copy, and a writer that is started waits until the lock is released.
-/

namespace TwinCopy

variable {γ κ δ α ρ : Type}

/-! ## Observations within applications -/

/-- The observation shows a lock that cannot be taken. -/
def Observation.Refused (o : Observation α) : Prop :=
  ∀ a free, o.found = .ok (a, free) → free = false

namespace Instance

/-- All observations recorded by the writers inside and by the finished ones show a lock that cannot
be taken. -/
structure Refuses (s : Instance γ δ α ρ) : Prop where
  inside : ∀ w ∈ s.writers, ∀ o ∈ w.seen, o.Refused
  done : ∀ f ∈ s.finished, ∀ seen ∈ f.seen, ∀ o ∈ seen, o.Refused

namespace Refuses

variable {s : Instance γ δ α ρ}

lemma congr {t : Instance γ δ α ρ} (hs : s.Refuses) (hwriters : t.writers = s.writers)
    (hfinished : t.finished = s.finished) : t.Refuses := by
  obtain ⟨hinside, hdone⟩ := hs
  rw [← hwriters] at hinside
  rw [← hfinished] at hdone
  exact ⟨hinside, hdone⟩

/-- A writer that finishes keeps its observations. -/
lemma finish (hs : s.Refuses) {w : Writer α} (hw : ∀ o ∈ w.seen, o.Refused)
    (outcome : Except Fault ρ) : (s.finish w outcome).Refuses := by
  refine ⟨fun v hv => hs.inside v (List.mem_of_mem_filter hv), fun f hf seen hseen o ho => ?_⟩
  rcases List.mem_cons.1 hf with rfl | hf
  · simp only [Option.mem_def, Option.ite_none_right_eq_some, Option.some.injEq] at hseen
    obtain ⟨-, rfl⟩ := hseen
    exact hw o (List.mem_reverse.1 ho)
  · exact hs.done f hf seen hseen o ho

lemma collect (hs : s.Refuses) {w : Writer α} (hw : ∀ o ∈ w.seen, o.Refused) :
    (s.collect w).Refuses := by
  unfold Instance.collect
  split
  · split
    · refine Refuses.finish ?_ hw _
      exact hs.congr rfl rfl
    · refine Refuses.finish ?_ hw _
      exact hs.congr rfl rfl
  · exact hs

lemma unlock (hs : s.Refuses) : s.unlock.Refuses := by
  have hfold : ∀ (ws : List (Writer α)) (t : Instance γ δ α ρ), t.Refuses →
      (∀ w ∈ ws, ∀ o ∈ w.seen, o.Refused) → (ws.foldl Instance.collect t).Refuses := by
    intro ws
    induction ws with
    | nil => exact fun t ht _ => ht
    | cons w ws ih =>
      intro t ht hws
      obtain ⟨hw, hws⟩ := List.forall_mem_cons.1 hws
      exact ih _ (ht.collect hw) hws
  exact hfold s.writers _ (hs.congr rfl rfl) hs.inside

lemma fail (hs : s.Refuses) (writer : Nat) (fault : Fault) : (s.fail writer fault).Refuses := by
  unfold Instance.fail
  split
  · next w hw => exact hs.finish (hs.inside w (List.mem_of_find?_eq_some hw)) _
  · exact hs

lemma abandon (hs : s.Refuses) (batch : Batch α ρ) (fault : Fault) :
    (s.abandon batch fault).Refuses := by
  obtain ⟨log, h⟩ := s.abandon_eq batch fault
  rw [h]
  refine Refuses.unlock ?_
  cases batch.head? with
  | none => exact hs.congr rfl rfl
  | some x =>
    refine Refuses.fail ?_ _ _
    exact hs.congr rfl rfl

variable [Gate γ κ δ]

lemma complete (hs : s.Refuses) (batch : Batch α ρ) (old : Side) :
    (s.complete batch old).Refuses := by
  obtain ⟨log, h⟩ := s.complete_eq batch old
  rw [h]
  exact Refuses.unlock (hs.congr rfl rfl)

/-- An observation that is made while the lock is held shows it as held. -/
lemma looked (hs : s.Refuses) (hlock : s.lock.locked = true) (r : Request α ρ) :
    (s.looked r).Refuses := by
  have hframe : s.readAnew.2.lock = s.lock ∧ s.readAnew.2.writers = s.writers ∧
      s.readAnew.2.finished = s.finished := by
    rcases s.readAnew_cases with
      ⟨f, registry, log, -, h⟩ | ⟨_, _, _, _, registry, log, -, -, -, h, -⟩
    · rw [h]
      exact ⟨rfl, rfl, rfl⟩
    · rw [h]
      exact ⟨rfl, rfl, rfl⟩
  obtain ⟨hlocked, hwriters, hfinished⟩ := hframe
  have hrefused : Observation.Refused ⟨s.view,
      s.readAnew.1.map (·, s.readAnew.2.lock.tryAcquire.isSome)⟩ := by
    intro a free hfound
    rw [hlocked, SpinLock.tryAcquire_eq_none_iff.2 hlock] at hfound
    rcases hread : s.readAnew.1 with f | b <;> rw [hread] at hfound <;> cases hfound
    rfl
  unfold Instance.looked
  split
  · refine ⟨fun w hw o ho => ?_, ?_⟩
    · simp only [observe, hwriters] at hw
      obtain ⟨v, hv, rfl⟩ := List.mem_map.1 hw
      split at ho
      · rcases List.mem_cons.1 ho with rfl | ho
        · exact hrefused
        · exact hs.inside v hv o ho
      · exact hs.inside v hv o ho
    · simp only [observe, hfinished]
      exact hs.done
  · exact hs

lemma pass (hs : s.Refuses) (hlock : s.lock.locked = true) {side : Side} {n : Nat}
    {x : Nat × Request α ρ} {result : Except Fault Unit} {t : Instance γ δ α ρ}
    (h : s.pass side n [x] = (result, t)) : t.Refuses := by
  obtain ⟨i, r⟩ := x
  have hlooked := hs.looked hlock r
  rcases houtcome : (r.mutation.apply n (s.copies.get side)).outcome with message | output
  · rw [pass_singleton_error s side n i r houtcome] at h
    cases h
    exact hlooked.congr rfl rfl
  · rw [pass_singleton_ok s side n i r houtcome] at h
    cases h
    exact hlooked.congr rfl rfl

lemma staged (hs : s.Refuses) {c c' : Control δ α ρ} {actions : History γ κ δ α ρ}
    {t : Instance γ δ α ρ} (hlock : c ≠ .resting → s.lock.locked = true)
    (hstaged : Staged s c actions t c') : t.Refuses := by
  cases hstaged with
  | apply hpass => exact hs.pass (hlock nofun) hpass
  | giveUp hpass => exact (hs.pass (hlock nofun) hpass).abandon _ _
  | complete => exact hs.complete _ _
  | surplus =>
    refine Refuses.abandon ?_ _ _
    exact hs.congr rfl rfl
  | _ => exact hs.congr rfl rfl

end Refuses

end Instance

variable [Gate γ κ δ]

/-! ## Callers that hold the lock -/

/-- A caller has taken the lock and not released it. -/
def History.holding : History γ κ δ α ρ → Bool
  | [] => false
  | .moved s .lock :: h => holding h || (s.act .lock).1.isOk
  | .moved s .unlock :: h => holding h && !(s.act .unlock).1.isOk
  | _ :: h => holding h

lemma History.holding_moved {s s' : Session γ κ δ α ρ} {h : History γ κ δ α ρ} {m : Move α ρ}
    {r : Except Failure (Answer κ α)} (hact : s.act m = (r, s')) (hm : s.Moved m r s')
    (hs : s.guarded = h.holding) : s'.guarded = holding (.moved s m :: h) := by
  -- only moves that take or release the lock matter
  have hother : m ≠ .lock → m ≠ .unlock → holding (.moved s m :: h) = h.holding := by
    intro hlock hunlock
    cases m <;> first | rfl | exact absurd rfl hlock | exact absurd rfl hunlock
  cases hm with
  | locked =>
    rw [holding, hact]
    simp [Except.isOk, Except.toBool]
  | unlocked =>
    rw [holding, hact]
    simp [Except.isOk, Except.toBool]
  | refused =>
    cases m <;> simp [holding, hact, Except.isOk, Except.toBool, hs]
  | @looked m _ hlook =>
    rw [hother (by rintro rfl; cases hlook) (by rintro rfl; cases hlook)]
    exact hs
  | _ =>
    rw [hother (by simp) (by simp)]
    exact hs

/-- The history agrees with the state of the lock and with the observations made so far. -/
structure Recorded (s : Session γ κ δ α ρ) (h : History γ κ δ α ρ) : Prop where
  guarded : s.guarded = h.holding
  applied : ∀ found side p r, .applied found side p r ∈ h → found.lock.locked = true
  refuses : s.inst.Refuses
  emptied : ∀ f ∈ h.emptied, ∀ seen ∈ f.seen, ∀ o ∈ seen, o.Refused

namespace Recorded

variable {s s' : Session γ κ δ α ρ} {h : History γ κ δ α ρ}

lemma moved (hs : Recorded s h) {m : Move α ρ} {r : Except Failure (Answer κ α)}
    (hact : s.act m = (r, s')) (hm : s.Moved m r s') : Recorded s' (.moved s m :: h) where
  guarded := History.holding_moved hact hm hs.guarded
  applied found side p r hmem := hs.applied found side p r (by simpa using hmem)
  refuses := by
    have hrefuses := hs.refuses
    cases hm with
    | published =>
      refine ⟨fun w hw => ?_, hrefuses.done⟩
      rcases List.mem_append.1 hw with hw | hw
      · exact hrefuses.inside w hw
      · rw [List.mem_singleton.1 hw]
        exact List.forall_mem_nil _
    | turnedAway =>
      refine Instance.Refuses.finish ?_ (List.forall_mem_nil _) _
      exact hrefuses.congr rfl rfl
    | _ => exact hrefuses.congr rfl rfl
  emptied := by simpa using hs.emptied

lemma staged (hs : Recorded s h) {c c' : Control δ α ρ} {actions : History γ κ δ α ρ}
    {inst : Instance γ δ α ρ} (hlock : c ≠ .resting → s.inst.lock.locked = true)
    (hstaged : Instance.Staged s.inst c actions inst c') :
    Recorded { s with inst } (actions ++ h) where
  guarded := by
    have hguarded := hs.guarded
    cases hstaged <;> exact hguarded
  applied found side p r hmem := by
    rcases List.mem_append.1 hmem with hmem | hmem
    · obtain ⟨rfl, -⟩ := hstaged.eq_append_of_applied hmem
      refine hlock ?_
      rintro rfl
      -- at rest nothing is applied
      cases hstaged with
      | quiet => cases hmem
      | elect => cases List.mem_singleton.1 hmem
    · exact hs.applied found side p r hmem
  refuses := hs.refuses.staged hlock hstaged
  emptied := by
    have hemptied := hs.emptied
    cases hstaged <;> simpa using hemptied

lemma emptying (hs : Recorded s h) :
    Recorded { s with inst := { s.inst with finished := [], log := [] } }
      (.emptied s.inst.finished s.inst.log :: h) where
  guarded := hs.guarded
  applied found side p r hmem := hs.applied found side p r (by simpa using hmem)
  refuses := ⟨hs.refuses.inside, List.forall_mem_nil _⟩
  emptied f hf := by
    rw [History.emptied_cons, Action.writersEmptied] at hf
    rcases List.mem_append.1 hf with hf | hf
    · exact hs.emptied f hf
    · exact hs.refuses.done f (List.mem_reverse.1 hf)

/-- The invariant of a session without history. -/
lemma start (hguarded : s.guarded = false) (hwriters : s.inst.writers = [])
    (hfinished : s.inst.finished = []) : Recorded s [] where
  guarded := hguarded
  applied found side p r hmem := absurd hmem List.not_mem_nil
  refuses := by
    refine ⟨?_, ?_⟩
    · rw [hwriters]
      exact List.forall_mem_nil _
    · rw [hfinished]
      exact List.forall_mem_nil _
  emptied := List.forall_mem_nil _

end Recorded

/-- `Recorded` holds at every point of every schedule. -/
theorem recorded_after {s : Session γ κ δ α ρ} (hs : s.Exclusive .resting)
    (hstart : Recorded s []) (ticks : List (Tick α ρ)) :
    let p := (Point.start s).after ticks
    Recorded p.session p.history := by
  refine (Point.after_induction (p := Point.start s)
    (P := fun q => q.session.Exclusive q.control ∧ Recorded q.session q.history) ⟨hs, hstart⟩ ?_).2
  rintro q t - ⟨hq, hr⟩
  refine ⟨Point.exclusive_next hq t, ?_⟩
  cases t with
  | caller m => exact hr.moved rfl (q.session.moved_act m)
  | writer =>
    refine hr.staged (fun hstage => ?_) (Point.staged_next_writer hq)
    obtain ⟨hround, hcontrol⟩ := hq.inCharge
    rcases hcontrol with hresting | ⟨hlocked, -⟩
    · refine hround fun hnone => hstage ?_
      rw [Point.stage, hresting]
      exact Instance.stage_resting hnone
    · exact hlocked
  | outbox => exact hr.emptying

/-! ## The holder of the lock -/

/-- The lock is held exactly if a caller or the leading writer of a round holds it; in a still
state, this means that a caller holds it or a writer is inside. Every attempt to take it is answered
accordingly, also from within an application. -/
structure Point.LockTracked (p : Point γ κ δ α ρ) : Prop where
  held : p.inst.lock.locked = true ↔ p.history.holding = true ∨ p.task? ≠ none
  inside : p.still = true →
    (p.inst.lock.locked = true ↔ p.history.holding = true ∨ p.inst.writers ≠ [])
  tried : Gate.slotted γ = true →
    (p.session.act .tryLock).1 = .ok (.held (!p.history.holding && p.task?.isNone)) ∧
      (p.still = true → (p.session.act .tryLock).1 =
        .ok (.held (!p.history.holding && p.inst.writers.isEmpty)))
  applied : ∀ found side pass r, .applied found side pass r ∈ p.history →
    found.lock.tryAcquire = none
  seen : ∀ w ∈ p.inst.writers, ∀ o ∈ w.seen, o.Refused
  observedRefused : ∀ f ∈ p.history.emptied ++ p.inst.finished, ∀ seen ∈ f.seen,
    ∀ o ∈ seen, o.Refused

section

variable {p : Point γ κ δ α ρ}

omit [Gate γ κ δ] in
/-- No round is under way if there is neither a leading writer nor a suspended round. -/
lemma Point.task?_eq_none : p.task? = none ↔ p.control = .resting ∧ p.inst.round = none := by
  unfold Point.task?
  rcases p.control with _ | _ | _
  · simp [Instance.task?]
  · simp [Instance.task?]
  · simp [Instance.task?]

omit [Gate γ κ δ] in
/-- The lock is held exactly if a caller holds it or a round is under way. -/
lemma Session.Exclusive.locked_iff (hp : p.session.Exclusive p.control) :
    p.inst.lock.locked = true ↔ p.session.guarded = true ∨ p.task? ≠ none := by
  rw [ne_eq, Point.task?_eq_none]
  constructor
  · intro hlocked
    rcases hp.held hlocked with hguarded | hcontrol | hround
    · exact .inl hguarded
    · exact .inr fun hidle => hcontrol hidle.1
    · exact .inr fun hidle => hround hidle.2
  · rintro (hguarded | hbusy)
    · exact (hp.guarded hguarded).1
    · obtain ⟨hround, hresting | ⟨hlocked, -⟩⟩ := hp.inCharge
      · exact hround fun hnone => hbusy ⟨hresting, hnone⟩
      · exact hlocked

omit [Gate γ κ δ] in
/-- While a writer is inside there is a pending request. -/
lemma CellInv.published_ne_nil {s : Instance γ δ α ρ} {n : Nat} {t : Option (Task α ρ)}
    (hd : CellInv s.cells s.writers n t) (hwriters : s.writers ≠ []) : s.published ≠ [] := by
  obtain ⟨w, hw⟩ := List.exists_mem_of_ne_nil _ hwriters
  obtain ⟨r, hr, -⟩ := hd.request w hw
  have hmem : (w.cell, r) ∈ s.published := Instance.mem_published.2 hr
  exact List.ne_nil_of_mem hmem

/-- In a still state a round is under way if a writer is inside and no caller holds the lock. -/
lemma Queued.locked_iff (hq : Queued p.session p.history p.task?)
    (hp : p.session.Exclusive p.control) (hstill : p.still = true) :
    p.inst.lock.locked = true ↔ p.session.guarded = true ∨ p.inst.writers ≠ [] := by
  constructor
  · intro hlocked
    rcases hp.locked_iff.1 hlocked with hguarded | htask
    · exact .inl hguarded
    · obtain ⟨u, hu⟩ := Option.ne_none_iff_exists'.1 htask
      exact .inr (hq.writers_ne_nil hu)
  · rintro (hguarded | hwriters)
    · exact (hp.guarded hguarded).1
    · rcases Instance.still_iff.1 (Point.still_iff.1 hstill).2 with
        habsent | ⟨-, hnone | hlocked⟩ | ⟨_, -, hlocked, -⟩
      · exact absurd habsent hwriters
      · exact absurd hnone (hq.cellInv.published_ne_nil hwriters)
      · exact hlocked
      · exact hlocked

lemma Recorded.lockTracked (hr : Recorded p.session p.history)
    (hq : Queued p.session p.history p.task?) (hp : p.session.Exclusive p.control)
    (hstyle : p.inst.style = .exclusive) : p.LockTracked := by
  have hheld := hp.locked_iff
  rw [hr.guarded] at hheld
  have hinside : p.still = true →
      (p.inst.lock.locked = true ↔ p.history.holding = true ∨ p.inst.writers ≠ []) := by
    intro hstill
    rw [← hr.guarded]
    exact hq.locked_iff hp hstill
  have htry : Gate.slotted γ = true →
      (p.session.act .tryLock).1 = .ok (.held (!p.inst.lock.locked)) := by
    intro hslotted
    have hfree : p.inst.lock.tryAcquire.isSome = !p.inst.lock.locked := by
      unfold SpinLock.tryAcquire
      cases p.inst.lock.locked <;> rfl
    rw [← hfree]
    simp only [Session.act, show p.session.inst.style = .exclusive from hstyle, hslotted]
    rfl
  refine ⟨hheld, hinside, fun hslotted => ⟨?_, fun hstill => ?_⟩, fun found side pass r hmem => ?_,
    hr.refuses.inside, fun f hf => ?_⟩
  · rw [htry hslotted]
    have hlocked : p.inst.lock.locked = (p.history.holding || !p.task?.isNone) := by
      rw [Bool.eq_iff_iff, hheld]
      cases p.task? <;> simp
    rw [hlocked, Bool.not_or, Bool.not_not]
  · rw [htry hslotted]
    have hlocked : p.inst.lock.locked = (p.history.holding || !p.inst.writers.isEmpty) := by
      rw [Bool.eq_iff_iff, hinside hstill]
      simp
    rw [hlocked, Bool.not_or, Bool.not_not]
  · exact SpinLock.tryAcquire_eq_none_iff.2 (hr.applied found side pass r hmem)
  · rcases List.mem_append.1 hf with hf | hf
    · exact hr.emptied f hf
    · exact hr.refuses.done f hf

end

/-! ## While a caller holds the lock -/

variable [DecidableEq κ]

/-- Since the point `q` at which a caller took the lock, the copy given to readers has not changed,
also for reads that begin now. A writer inside has applied nothing, and begins as soon as the lock
is released. -/
structure Frozen (fits : History γ κ δ α ρ → Prop) (q p : Point γ κ δ α ρ) : Prop where
  locked : p.inst.lock.locked = true
  copies : p.inst.copies = q.inst.copies
  side : p.inst.activeSide = q.inst.activeSide
  version : (Gate.view p.inst.gate).current? = (Gate.view q.inst.gate).current?
  mutations : p.inst.mutations = q.inst.mutations
  given : ∀ k slot, p.session.own? k = some slot → fits (p.next (.caller (.enter k))).history →
    (p.session.act (.enter k)).1 = .ok (.copy (q.inst.copies.get q.inst.activeSide))
  applied : ∀ side, p.history.applied side = q.history.applied side
  waiting : p.session.started = q.session.started + p.inst.writers.length
  released : p.inst.writers ≠ [] →
    (p.session.act .unlock).1 = .ok .done ∧ ((p.next (.caller .unlock)).next .writer).control =
      .passing .first [] p.inst.published p.inst.activeSide

section

variable {current : γ → κ} {old : δ → κ} {limit : List κ → Nat → Prop}
  {Knows : γ → Option (Phase δ) → List (Nat × κ) → Nat → Prop}

/-- What holds of a session while a caller holds the lock that it took at `q`. -/
structure WhileLocked (current : γ → κ) (Knows : γ → Option (Phase δ) → List (Nat × κ) → Nat → Prop)
    (limit : List κ → Nat → Prop) (q : Point γ κ δ α ρ) (s : Session γ κ δ α ρ)
    (h : History γ κ δ α ρ) (c : Control δ α ρ) : Prop where
  guarded : s.guarded = true
  locked : s.inst.lock.locked = true
  resting : c = .resting
  style : s.inst.style = .exclusive
  copies : s.inst.copies = q.inst.copies
  mutations : s.inst.mutations = q.inst.mutations
  applied : ∀ side, h.applied side = q.history.applied side
  waiting : s.started = q.session.started + s.inst.writers.length
  readersKnown : h.Matched → h.Within limit → ReadersKnown Knows s h c
  same : h.Matched → h.Within limit → Gate.side s.inst.gate = Gate.side q.inst.gate ∧
    current s.inst.gate = current q.inst.gate

namespace WhileLocked

variable {q : Point γ κ δ α ρ} {s s' : Session γ κ δ α ρ} {h : History γ κ δ α ρ}
  {c c' : Control δ α ρ}

/-- A move preserves `WhileLocked` unless it releases the lock: readers may arrive and depart, and a
writer may be started. -/
lemma moved (T : GateInv current old limit Knows) (hs : WhileLocked current Knows limit q s h c)
    {m : Move α ρ} {r : Except Failure (Answer κ α)} (hunlock : m ≠ .unlock)
    (hact : s.act m = (r, s')) (hm : s.Moved m r s') :
    WhileLocked current Knows limit q s' (.moved s m :: h) c := by
  have hcrossed := s.crossed_act m
  rw [hact] at hcrossed
  have hreadersKnown : History.Matched (.moved s m :: h) → History.Within limit (.moved s m :: h) →
      ReadersKnown Knows s' (.moved s m :: h) c := fun hmatched hwithin =>
    (hs.readersKnown hmatched.1 hwithin.1).moved T hact hmatched hwithin
  have hsame : History.Matched (.moved s m :: h) → History.Within limit (.moved s m :: h) →
      Gate.side s'.inst.gate = Gate.side q.inst.gate ∧
        current s'.inst.gate = current q.inst.gate := by
    intro hmatched hwithin
    obtain ⟨hside, hcurrent⟩ := hs.same hmatched.1 hwithin.1
    obtain ⟨-, hkept, hunchanged⟩ :=
      (hs.readersKnown hmatched.1 hwithin.1).crossed T hcrossed hmatched hwithin
    exact ⟨hkept.trans hside, hunchanged.trans hcurrent⟩
  have happlied : ∀ side, History.applied (.moved s m :: h) side = q.history.applied side := by
    simpa using hs.applied
  obtain ⟨hguarded, hlocked, hresting, hstyle, hcopies, hmutations, -, hwaiting, -, -⟩ := hs
  cases hm with
  | locked hfree =>
    rw [hguarded] at hfree
    cases hfree
  | unlocked => exact absurd rfl hunlock
  | published =>
    refine ⟨hguarded, hlocked, hresting, hstyle, hcopies, hmutations, happlied, ?_,
      hreadersKnown, hsame⟩
    simp only [Instance.publish, Instance.modifyCell, List.length_append, List.length_singleton]
    omega
  | turnedAway hcombining =>
    rw [hstyle] at hcombining
    cases hcombining
  | _ =>
    exact ⟨hguarded, hlocked, hresting, hstyle, hcopies, hmutations, happlied, hwaiting,
      hreadersKnown, hsame⟩

/-- A step of the leading writer preserves `WhileLocked`, as no writer takes the lock. -/
lemma staged (T : GateInv current old limit Knows) (hs : WhileLocked current Knows limit q s h c)
    {actions : History γ κ δ α ρ} {inst : Instance γ δ α ρ}
    (hstaged : Instance.Staged s.inst c actions inst c') :
    WhileLocked current Knows limit q { s with inst } (actions ++ h) c' := by
  have hreadersKnown : History.Matched (actions ++ h) → History.Within limit (actions ++ h) →
      ReadersKnown Knows { s with inst } (actions ++ h) c' := fun hmatched hwithin =>
    (hs.readersKnown hmatched.of_append hwithin.of_append).staged T hstaged hwithin
  obtain ⟨hguarded, hlocked, rfl, hstyle, hcopies, hmutations, happlied, hwaiting, -, hsame⟩ := hs
  cases hstaged with
  | quiet =>
    exact ⟨hguarded, hlocked, rfl, hstyle, hcopies, hmutations, happlied, hwaiting,
      hreadersKnown, hsame⟩
  | elect _ hfree =>
    rw [hlocked] at hfree
    cases hfree

lemma emptied (hs : WhileLocked current Knows limit q s h c) :
    WhileLocked current Knows limit q { s with inst := { s.inst with finished := [], log := [] } }
      (.emptied s.inst.finished s.inst.log :: h) c :=
  { hs with
    applied := by simpa using hs.applied
    readersKnown := fun hmatched hwithin => (hs.readersKnown hmatched.1 hwithin.1).emptied _ _
    same := fun hmatched hwithin => hs.same hmatched.1 hwithin.1 }

/-- `WhileLocked` holds when a caller has taken the lock. -/
lemma start {p : Point γ κ δ α ρ} (hp : p.session.Exclusive p.control)
    (hstyle : p.inst.style = .exclusive) (hlock : (p.session.act .lock).1 = .ok .done)
    (hreadersKnown : let q := p.next (.caller .lock)
      q.history.Matched → q.history.Within limit → ReadersKnown Knows q.session q.history q.stage) :
    let q := p.next (.caller .lock)
    WhileLocked current Knows limit q q.session q.history q.stage := by
  intro q
  have hq : q.session.Exclusive q.control := Point.exclusive_next hp (.caller .lock)
  have hmoved := p.session.moved_act .lock
  rw [hlock] at hmoved
  have hsession : q.session = (p.session.act .lock).2 := rfl
  rw [← hsession] at hmoved
  have hgiven : q.session.guarded = true ∧ q.inst.writers = [] := by
    have hinst : q.inst = q.session.inst := rfl
    rw [hinst]
    generalize q.session = t at hmoved
    cases hmoved with
    | looked _ hlook => cases hlook
    | locked _ hwriters => exact ⟨rfl, hwriters⟩
  obtain ⟨hguarded, hwriters⟩ := hgiven
  obtain ⟨hlocked, hresting, hround⟩ := hq.guarded hguarded
  have hstage : q.stage = .resting := by
    rw [Point.stage, hresting]
    exact Instance.stage_resting hround
  refine ⟨hguarded, hlocked, hstage, hmoved.style_eq.trans hstyle, rfl, rfl, fun _ => rfl, ?_,
    hreadersKnown, fun _ _ => ⟨rfl, rfl⟩⟩
  have habsent : q.session.inst.writers = [] := hwriters
  rw [habsent]
  rfl

/-- `WhileLocked` holds until the lock is released. -/
lemma after (T : GateInv current old limit Knows) {later : List (Tick α ρ)}
    (hlater : .caller .unlock ∉ later) (hq : q.session.Exclusive q.control)
    (hs : WhileLocked current Knows limit q q.session q.history q.stage) :
    let p := q.after later
    WhileLocked current Knows limit q p.session p.history p.stage := by
  refine Point.stage_after (fun hm hact hmoved hd => hd.moved T ?_ hact hmoved)
    (fun hstaged hd => hd.staged T hstaged) (fun hd => hd.emptied) hq hs
  intro hunlock
  rw [hunlock] at hm
  exact hlater hm

/-- While a caller holds the lock the instance is frozen. -/
lemma frozen (T : GateInv current old limit Knows) {p : Point γ κ δ α ρ}
    (hs : WhileLocked current Knows limit q p.session p.history p.stage)
    (hp : p.session.Exclusive p.control) (hcellInv : CellInv p.inst.cells p.inst.writers
      p.session.started p.task?)
    {fits : History γ κ δ α ρ → Prop} (hfits : ∀ h, fits h → h.Within limit)
    (hshown : ∀ {g g' : γ}, current g' = current g →
      (Gate.view g').current? = (Gate.view g).current?)
    (hadmits : ∀ k slot, p.session.own? k = some slot →
      ∃ ticket gate, Gate.arrive p.inst.gate slot.index = .ok (ticket, gate))
    (hmatched : p.history.Matched) (hp' : fits p.history) : Frozen fits q p := by
  obtain ⟨hside, hcurrent⟩ := hs.same hmatched (hfits _ hp')
  obtain ⟨hlocked, hresting, hround⟩ := hp.guarded hs.guarded
  refine ⟨hlocked, hs.copies, hside, hshown hcurrent, hs.mutations, fun k slot hslot hnext => ?_,
    hs.applied, hs.waiting, fun hwriters => ?_⟩
  · obtain ⟨ticket, gate, harrive⟩ := hadmits k slot hslot
    obtain ⟨hslot', hissuer⟩ := Option.filter_eq_some_iff.1 hslot
    -- the begin of a query is no departure
    have hmatched' : History.Matched (.moved p.session (.enter k) :: p.history) :=
      ⟨hmatched, p.session.covered_enter k _⟩
    have hact : p.session.act (.enter k) =
        (.ok (.copy (p.inst.copies.get (Gate.side gate))),
          { p.session with
            inst := { p.inst with gate }
            visits := ⟨slot, ticket, Gate.side gate⟩ :: p.session.visits }) := by
      have harrive' : Gate.arrive p.session.inst.gate slot.index = .ok (ticket, gate) := harrive
      simp only [Session.act, hslot', Instance.enter, Instance.arrive,
        if_pos (of_decide_eq_true hissuer), harrive']
      rfl
    obtain ⟨-, hkept, -⟩ := (hs.readersKnown hmatched (hfits _ hp')).crossed T
      (p.session.crossed_act (.enter k)) hmatched' (hfits _ hnext)
    rw [hact] at hkept ⊢
    have hgate : Gate.side gate = q.inst.activeSide := hkept.trans hside
    have hcopies : p.inst.copies = q.inst.copies := hs.copies
    rw [hgate, hcopies]
  · have hact : p.session.act .unlock =
        (.ok .done,
          { p.session with
            inst := { p.inst with lock := p.inst.lock.release.2 }
            guarded := false }) := by
      simp only [Session.act, if_pos hs.guarded]
      rfl
    refine ⟨by rw [hact], ?_⟩
    have hstep := (Instance.Stepped.elect (s := { p.inst with lock := p.inst.lock.release.2 })
      hround (hcellInv.published_ne_nil hwriters) (SpinLock.locked_release _)).eq
    simp only [Point.next, Point.inst, hact, hresting] at hstep ⊢
    rw [hstep]
    rfl

end WhileLocked

/-! ## At every point -/

/-- For a session without writers: the holder of the lock is known at every point, and from the
point at which a caller takes the lock until it is released the instance is frozen, if departures
match arrivals and the history satisfies `fits`. In particular this holds after every operation of
every script. -/
structure Session.TracksLock (fits : History γ κ δ α ρ → Prop) (s : Session γ κ δ α ρ) : Prop where
  lockTracked : ∀ ticks, ((Point.start s).after ticks).LockTracked
  frozen : ∀ before later,
    let p := (Point.start s).after before
    let q := p.next (.caller .lock)
    (p.session.act .lock).1 = .ok .done → .caller .unlock ∉ later →
      (q.after later).history.Matched → fits (q.after later).history →
        Frozen fits q (q.after later)
  operations : ∀ script, ∀ t ∈ s.instantsOfAll script, ∃ ticks history,
    (Point.start s).after ticks = ⟨history, t, .resting⟩ ∧
      (t.inst.lock.locked = true ↔ history.holding = true ∨ t.inst.writers ≠ [])
  script : ∀ first during,
    let t := (s.steps first).2
    (t.act .lock).1 = .ok .done → .unlock ∉ Operation.movesOfAll during →
      ∀ u ∈ (t.step (.single .lock)).2.instantsOfAll during, ∃ before h later history,
        (Point.start s).after before = ⟨h, t, .resting⟩ ∧
          let q := (Point.mk h t .resting).next (.caller .lock)
          q.after later = ⟨history, u, .resting⟩ ∧
            (history.Matched → fits history → Frozen fits q ⟨history, u, .resting⟩)

omit [DecidableEq κ] in
/-- A caller that takes the lock finds no writer inside, so the writers make no step. -/
lemma Session.step_lock {s : Session γ κ δ α ρ} (h : (s.act .lock).1 = .ok .done)
    (history : History γ κ δ α ρ) :
    let q := (Point.mk history s .resting).next (.caller .lock)
    (s.step (.single .lock)).2 = (q.next .outbox).session := by
  intro q
  have hmoved := s.moved_act .lock
  rw [h] at hmoved
  have habsent : (s.act .lock).2.inst.writers = [] := by
    generalize (s.act .lock).2 = t at hmoved
    cases hmoved with
    | looked _ hlook => cases hlook
    | locked _ hwriters => exact hwriters
  have hsettle : (s.act .lock).2.inst.settle = (s.act .lock).2.inst := by
    rw [Instance.settle, if_pos (List.isEmpty_iff.2 habsent)]
  simp only [step, perform, close, hsettle]
  rfl

omit [DecidableEq κ] in
/-- After a caller has taken the lock, the operations of a script are a schedule that does not
release it, provided that none of their moves does. -/
lemma Session.exists_schedule_held {s : Session γ κ δ α ρ} (hs : s.Exclusive .resting)
    (hlock : (s.act .lock).1 = .ok .done) {during : List (Operation α ρ)}
    (hduring : .unlock ∉ Operation.movesOfAll during) {u : Session γ κ δ α ρ}
    (hu : u ∈ (s.step (.single .lock)).2.instantsOfAll during) (h : History γ κ δ α ρ) :
    ∃ later history, .caller .unlock ∉ later ∧
      ((Point.mk h s .resting).next (.caller .lock)).after later = ⟨history, u, .resting⟩ := by
  set q := (Point.mk h s .resting).next (.caller .lock)
  have hq : (q.next .outbox).session.Exclusive .resting :=
    Point.exclusive_next (p := q) (hs.act .lock) .outbox
  rw [Session.step_lock hlock h] at hu
  obtain ⟨ticks, history, hmoves, hafter⟩ :=
    Session.reaches_runRelation.instantsOfAll _ during (fun m hm => hm) u hu hq
      (q.next .outbox).history
  refine ⟨.outbox :: ticks, history, fun hmem => ?_, hafter⟩
  rcases List.mem_cons.1 hmem with hmem | hmem
  · cases hmem
  · exact hduring (hmoves _ hmem)

/-- Over a gate with `GateInv` the lock of an instance with exclusive writers is tracked. -/
theorem tracksLock_of_gateInv (T : GateInv current old limit Knows) {copies : Copies α} {gate : γ}
    {registry : Registry} {wait : WaitPolicy} (hknows : Knows gate none [] 0)
    {fits : History γ κ δ α ρ → Prop} (hfits : ∀ h, fits h → h.Within limit)
    (hshown : ∀ {g g' : γ}, current g' = current g →
      (Gate.view g').current? = (Gate.view g).current?)
    (hadmits : ∀ ticks,
      let p := (Point.start (Session.ofInstance (.fresh .exclusive copies gate registry 1 wait) :
        Session γ κ δ α ρ)).after ticks
      ∀ k slot, p.session.own? k = some slot →
        ∃ ticket gate, Gate.arrive p.inst.gate slot.index = .ok (ticket, gate)) :
    (Session.ofInstance (.fresh .exclusive copies gate registry 1 wait) :
      Session γ κ δ α ρ).TracksLock fits := by
  set s : Session γ κ δ α ρ := .ofInstance (.fresh .exclusive copies gate registry 1 wait)
  have hs : s.Exclusive .resting := Session.exclusive_fresh _ _ _ _ _ _
  have hqueued := queued_after (α := α) (ρ := ρ)
    (Session.enoughCells_exclusive copies gate registry wait)
  have hreadersKnown := readersKnown_after T hs (.start rfl rfl hknows)
  have hstyle : ∀ ticks, ((Point.start s).after ticks).inst.style = .exclusive := fun ticks =>
    Point.style_after (p := .start s) hs ticks
  have hlockTracked : ∀ ticks, ((Point.start s).after ticks).LockTracked := by
    intro ticks
    have hrecorded := recorded_after hs (.start rfl rfl rfl) ticks
    exact hrecorded.lockTracked (hqueued ticks) (Point.exclusive_after hs ticks) (hstyle ticks)
  have hfrozen : ∀ before later,
      let p := (Point.start s).after before
      let q := p.next (.caller .lock)
      (p.session.act .lock).1 = .ok .done → .caller .unlock ∉ later →
        (q.after later).history.Matched → fits (q.after later).history →
          Frozen fits q (q.after later) := by
    intro before later p q hlock hlater
    -- what comes before the lock, the lock, and what comes after it are one schedule
    have hq : (Point.start s).after (before ++ [.caller .lock]) = q := Point.after_append _ _ _
    have hr : (Point.start s).after (before ++ [.caller .lock] ++ later) = q.after later := by
      rw [Point.after_append, hq]
    have hexclusive : p.session.Exclusive p.control := Point.exclusive_after hs before
    have hreadersKnown' := hreadersKnown (before ++ [.caller .lock])
    rw [hq] at hreadersKnown'
    have hwhileLocked : WhileLocked current Knows limit q (q.after later).session
        (q.after later).history (q.after later).stage :=
      .after T hlater (Point.exclusive_next hexclusive _)
        (.start hexclusive (hstyle before) hlock hreadersKnown')
    have hafter := Point.exclusive_after (p := .start s) hs (before ++ [.caller .lock] ++ later)
    have hcellInv := (hqueued (before ++ [.caller .lock] ++ later)).cellInv
    have hadmitted := hadmits (before ++ [.caller .lock] ++ later)
    rw [hr] at hafter hcellInv hadmitted
    exact hwhileLocked.frozen T hafter hcellInv hfits hshown hadmitted
  refine ⟨hlockTracked, hfrozen, fun script t ht => ?_, fun first during => ?_⟩
  · obtain ⟨ticks, history, -, -, hafter, hstill⟩ :=
      Session.exists_patient_of_mem_instants hs rfl script ht
    have hinside := (hlockTracked ticks).inside
    rw [hafter] at hinside
    exact ⟨ticks, history, hafter, hinside hstill⟩
  · intro t hlock hduring u hu
    obtain ⟨before, h, -, hbefore⟩ := Session.exists_schedule_steps hs first
    change _ = (⟨h, t, .resting⟩ : Point γ κ δ α ρ) at hbefore
    clear_value t
    have ht : t.Exclusive .resting := by
      have hexclusive := Point.exclusive_after (p := .start s) hs before
      rwa [hbefore] at hexclusive
    obtain ⟨later, history, hkept, hlater⟩ := Session.exists_schedule_held ht hlock hduring hu h
    have hfrozenBetween := hfrozen before later
    simp only [hbefore, hlater] at hfrozenBetween
    exact ⟨before, h, later, history, hbefore, hlater, hfrozenBetween hlock hkept⟩

end

/-! ## The three gates -/

/-- The lock is held exactly when a caller has taken it and not released it or a writer is inside,
and while a caller holds it the instance is frozen. This holds over two read-indicators of every
kind, without a limit; over a word with versions while no version has `2 ^ 30` readers at once; and
over a word without versions while no more than `2 ^ 19` readers are in flight. Mutations and
queries may end in faults. -/
theorem held_lock_freezes (c : Config) (init : Copies α) :
    (∀ kind, (Session.ofInstance (.classic kind c init) :
      Session Versioned Version Version α ρ).TracksLock fun _ => True) ∧
    (Session.ofInstance (.versionedWord c init) :
      Session VersionedWord Version Version α ρ).TracksLock (·.Within VersionedWord.Limit) ∧
    (Session.ofInstance (.ingressWord c init) :
      Session IngressWord Side IngressWord.Backlog α ρ).TracksLock (·.peak ≤ 2 ^ 19) := by
  refine ⟨fun kind => ?_, ?_, ?_⟩
  · refine tracksLock_of_gateInv Versioned.gateInv (Versioned.clean_ofConfig kind c)
      (fun h _ => .of_forall (fun _ _ => trivial) h) (fun hcurrent => congrArg some hcurrent) ?_
    intro ticks p k slot hslot
    obtain ⟨hslot, hissuer⟩ := Option.filter_eq_some_iff.1 hslot
    have hissuer : slot.issuer = p.inst.registry.id := of_decide_eq_true hissuer
    have hinRange : p.session.SlotsInRange := (slotsInRange_after .exclusive kind c init ticks).1
    obtain ⟨gate, harrive, -⟩ :=
      Instance.arrive_of_hasEntry hissuer (hinRange.hasEntry_of_slot? hslot hissuer)
    exact ⟨_, gate, harrive⟩
  · exact tracksLock_of_gateInv VersionedWord.exactGateInv.toGateInv VersionedWord.knows_fresh
      (fun _ => id) (fun hcurrent => congrArg some hcurrent) (fun _ _ _ _ => ⟨_, _, rfl⟩)
  · exact tracksLock_of_gateInv IngressWord.exactGateInv.toGateInv IngressWord.knows_fresh
      (fun _ => .of_peak) (fun _ => rfl) (fun _ _ _ _ => ⟨_, _, rfl⟩)

/-- Two slots are claimed and a query begins. -/
def oneReading : List (Tick Nat Nat) :=
  [.caller .register, .caller .register, .caller (.enter 0)]

/-- While a caller holds the lock a query begins, a writer is started and makes no step, another one
is refused, and the latter of the two queries under way ends in a fault. -/
def meanwhile : List (Tick Nat Nat) :=
  let count : Mutation Nat Nat := .ofFunction fun n => (n + 1, n)
  [.caller (.enter 1), .caller (.mutate 0 count true), .writer, .caller (.mutate 1 count false),
    .writer, .caller (.leave true), .outbox, .writer]

theorem held_lock_freezes_meanwhile :
    let start : Session Versioned Version Version Nat Nat :=
      .ofInstance (.classic .hashed .standard ⟨5, 6⟩)
    let p := (Point.start start).after oneReading
    let q := p.next (.caller .lock)
    let r := q.after meanwhile
    (p.session.act .lock).1 = .ok .done ∧ .caller .unlock ∉ meanwhile ∧ r.history.Matched ∧
      Frozen (fun _ => True) q r ∧ r.inst.writers.map Writer.id = [0] ∧
      r.session.visits.length = 1 ∧ r.still = true ∧ r.history.holding = true ∧
      ((Point.start start).after (oneReading ++ .caller .lock :: meanwhile)).LockTracked := by
  have htracks := (held_lock_freezes .standard (⟨5, 6⟩ : Copies Nat) (ρ := Nat)).1 .hashed
  exact ⟨by decide +kernel, by simp [meanwhile], by decide +kernel,
    htracks.frozen oneReading meanwhile (by decide +kernel) (by simp [meanwhile])
      (by decide +kernel) trivial,
    by decide +kernel, by decide +kernel, by decide +kernel, by decide +kernel,
    htracks.lockTracked (oneReading ++ .caller .lock :: meanwhile)⟩

end TwinCopy
