import Mathlib.Data.List.Induction
import TwinCopy.Proofs.CopyInvariant

/-!
# The beginning of a round

A round begins with a tick of the leading writer. `Since` describes the effect of everything after
it: until the second pass the copy given to readers is as it was, and the other one is what the
first pass has made of it. `exists_since` finds the point at which the round under way began. It
takes a further condition that holds from there on, which depends on the gate.
-/

namespace TwinCopy

variable {γ κ δ α ρ : Type}

/-- All mutations return when they are applied for the first time, one after the other. -/
def Returns : List (Request α ρ) → α → Prop
  | [], _ => True
  | r :: rs, a => (∃ output, (r.mutation.apply 1 a).outcome = .ok output) ∧
      Returns rs (r.mutation.effect a)

lemma Returns.append {rs : List (Request α ρ)} {r : Request α ρ} {a : α} {output : ρ}
    (h : Returns rs a) (hr : (r.mutation.apply 1 (replay a rs)).outcome = .ok output) :
    Returns (rs ++ [r]) a := by
  induction rs generalizing a with
  | nil => exact ⟨⟨output, hr⟩, trivial⟩
  | cons q rs ih => exact ⟨h.1, ih h.2 hr⟩

variable [Gate γ κ δ]

/-- The round under way began with a tick of the leading writer at the point `p₀`. -/
structure Since (p₀ : Point γ κ δ α ρ) (s : Instance γ δ α ρ) (h : History γ κ δ α ρ)
    (u : Task α ρ) : Prop where
  took : (p₀.next .writer).history = .took u.batch :: p₀.history
  taken : h.taken = p₀.history.taken ++ [u.batch]
  old : u.old = p₀.inst.activeSide
  inactive : s.copies.get u.old.opposite =
    replay (p₀.inst.copies.get u.old.opposite) (u.served.map Prod.snd)
  active : u.pass = .first ∨ u.done = [] → s.copies.get u.old = p₀.inst.copies.get u.old
  returned : Returns (u.served.map Prod.snd) (p₀.inst.copies.get u.old.opposite)
  counts : s.mutations = p₀.inst.mutations ∧ s.batches = p₀.inst.batches

namespace Since

variable {p₀ : Point γ κ δ α ρ} {s s' : Instance γ δ α ρ} {h : History γ κ δ α ρ} {u u' : Task α ρ}

/-- Readers and the emptying of the outboxes do not affect `Since`. -/
lemma congr (hb : Since p₀ s h u) {d : Action γ κ δ α ρ} (htaken : d.batchTaken = [])
    (hcopies : s'.copies = s.copies) (hmutations : s'.mutations = s.mutations)
    (hbatches : s'.batches = s.batches) : Since p₀ s' (d :: h) u where
  took := hb.took
  taken := by rw [History.taken_cons, htaken, List.append_nil, hb.taken]
  old := hb.old
  inactive := hcopies ▸ hb.inactive
  active := hcopies ▸ hb.active
  returned := hb.returned
  counts := ⟨hmutations.trans hb.counts.1, hbatches.trans hb.counts.2⟩

/-- An application changes the copy not given to readers. -/
lemma apply {p : Pass} {done rest : Batch α ρ} {x : Nat × Request α ρ} {old : Side}
    (hb : Since p₀ s h ⟨p, done, x :: rest, old⟩)
    (hpass : s.pass (p.target old) p.application [x] = (.ok (), s')) :
    Since p₀ s' (.applied s (p.target old) p x.2 :: h) ⟨p, done ++ [x], rest, old⟩ := by
  have hbatch : (⟨p, done ++ [x], rest, old⟩ : Task α ρ).batch =
      Task.batch ⟨p, done, x :: rest, old⟩ := by simp [Task.batch]
  have hinactive := hb.inactive
  have hreturned := hb.returned
  obtain ⟨output, gate, registry, log, note, houtput, rfl, -⟩ := Instance.pass_ok hpass
  refine ⟨hbatch ▸ hb.took, by simpa [hbatch] using hb.taken, hb.old, ?_, ?_, ?_, hb.counts⟩
  · cases p with
    | first =>
      simp only [Task.served, Pass.target, Copies.get_set_same, List.map_append, List.map_cons,
        List.map_nil, replay_append, replay_cons, replay_nil] at hinactive ⊢
      rw [hinactive]
      rfl
    | second =>
      simp only [Task.served, hbatch, Pass.target, Copies.get_set_opposite] at hinactive ⊢
      exact hinactive
  · rintro (rfl | hdone)
    · have hget := Copies.get_set_opposite s.copies old.opposite
        (x.2.mutation.apply 1 (s.copies.get old.opposite)).copy
      rw [Side.opposite_opposite] at hget
      exact hget.trans (hb.active (.inl rfl))
    · simp at hdone
  · cases p with
    | first =>
      simp only [Task.served, Pass.target] at hinactive hreturned houtput ⊢
      rw [List.map_append, List.map_singleton]
      rw [hinactive] at houtput
      exact hreturned.append houtput
    | second =>
      simp only [Task.served, hbatch] at hreturned ⊢
      exact hreturned

/-- `Since` is preserved by a step of the leading writer that does not end the round. -/
lemma staged (hb : Since p₀ s h u) {c c' : Control δ α ρ} {actions : History γ κ δ α ρ}
    (hstaged : Instance.Staged s c actions s' c') (hu : c.task? = some u)
    (hu' : c'.task? = some u') :
    Since p₀ s' (actions ++ h) u' := by
  cases hstaged with
  | quiet =>
    cases hu.symm.trans hu'
    exact { hb with }
  | elect => cases hu
  | apply hpass =>
    cases hu
    cases hu'
    exact hb.apply hpass
  | giveUp | complete | surplus => cases hu'
  | @turn batch old =>
    cases hu
    cases hu'
    have hbatch : (Round.task ⟨batch, old, .standby (Gate.turn s.gate).1⟩ : Task α ρ).batch =
        Task.batch ⟨.first, batch, [], old⟩ := by simp [Round.task, Task.batch]
    refine ⟨hbatch ▸ hb.took, by simpa [hbatch] using hb.taken, hb.old, ?_,
      fun _ => hb.active (.inl rfl), ?_, hb.counts⟩
    · simpa [Round.task, Task.served, Task.batch] using hb.inactive
    · simpa [Round.task, Task.served, Task.batch] using hb.returned
  | shift | clear =>
    cases hu
    cases hu'
    exact { hb with }

/-- A round begins with all pending requests. -/
lemma elect {p : Point γ κ δ α ρ} (lock : SpinLock)
    (htook : (p.next .writer).history = .took p.inst.published :: p.history) :
    Since p { p.inst with lock } (.took p.inst.published :: p.history)
      ⟨.first, [], p.inst.published, p.inst.activeSide⟩ :=
  ⟨htook, by simp [Task.batch], rfl, rfl, fun _ => rfl, trivial, rfl, rfl⟩

/-- No other round was under way when a round began. -/
lemma resting (hb : Since p₀ s h u) (hp : p₀.session.Exclusive p₀.control) :
    p₀.stage = .resting := by
  have hstaged := Point.staged_next_writer hp
  have htook : (p₀.inst.advance p₀.control).1 ++ p₀.history = [.took u.batch] ++ p₀.history :=
    hb.took
  rw [List.append_cancel_right htook] at hstaged
  generalize p₀.stage = c, u.batch = batch, (p₀.next .writer).inst = t,
    (p₀.next .writer).stage = c' at hstaged
  cases hstaged with
  | elect => rfl

end Since

/-- The step that begins a round takes all pending requests. -/
lemma Instance.Staged.elected {s t : Instance γ δ α ρ} {c c' : Control δ α ρ}
    {actions : History γ κ δ α ρ} (h : Staged s c actions t c') (hc : c.task? = none)
    (hc' : c'.task? ≠ none) : ∃ lock, actions = [.took s.published] ∧ t = { s with lock } ∧
      c' = .passing .first [] s.published s.activeSide := by
  cases h with
  | quiet => exact absurd hc hc'
  | elect => exact ⟨_, rfl, rfl, rfl⟩
  | apply | turn | shift | clear => cases hc
  | giveUp | complete | surplus => exact absurd rfl hc'

/-- A round under way began at some point of the schedule. A condition `P` that holds when a round
begins, and is preserved by moves and stages, holds of it; `Q` holds at all points. -/
theorem exists_since {Q : Session γ κ δ α ρ → History γ κ δ α ρ → Control δ α ρ → Prop}
    {P : Point γ κ δ α ρ → Session γ κ δ α ρ → History γ κ δ α ρ → Control δ α ρ → Prop}
    {s : Session γ κ δ α ρ} (hs : s.Exclusive .resting) (hround : s.inst.round = none)
    (known : ∀ ticks, let p := (Point.start s).after ticks; Q p.session p.history p.stage)
    (elected : ∀ (p : Point γ κ δ α ρ) lock,
      P p { p.session with inst := { p.inst with lock } } (.took p.inst.published :: p.history)
        (.passing .first [] p.inst.published p.inst.activeSide))
    (moved : ∀ {p₀ s h c} m, Q s h c → P p₀ s h c → P p₀ (s.act m).2 (.moved s m :: h) c)
    (staged : ∀ {p₀ s h c actions inst c'}, Instance.Staged s.inst c actions inst c' →
      c.task? ≠ none → c'.task? ≠ none → Q s h c → P p₀ s h c →
        P p₀ { s with inst } (actions ++ h) c')
    (emptied : ∀ {p₀ s h c}, P p₀ s h c →
      P p₀ { s with inst := { s.inst with finished := [], log := [] } }
        (.emptied s.inst.finished s.inst.log :: h) c)
    (ticks : List (Tick α ρ)) :
    let p := (Point.start s).after ticks
    ∀ u ∈ p.stage.task?, ∃ before mid, ticks = before ++ .writer :: mid ∧
      let p₀ := (Point.start s).after before
      Since p₀ p.inst p.history u ∧ P p₀ p.session p.history p.stage := by
  induction ticks using List.reverseRecOn with
  | nil =>
    intro p u hu
    have hstage : (Point.start s).stage = .resting := Instance.stage_resting hround
    rw [show p.stage = .resting from hstage] at hu
    cases hu
  | append_singleton ticks t ih =>
    have hexclusive := Point.exclusive_after (p := Point.start s) hs ticks
    have hknown := known ticks
    have hlonger : ∀ {before mid : List (Tick α ρ)}, ticks = before ++ .writer :: mid →
        ticks ++ [t] = before ++ .writer :: (mid ++ [t]) := by
      rintro before mid rfl
      simp
    rw [Point.after_append]
    generalize hp : (Point.start s).after ticks = p at ih hexclusive hknown ⊢
    intro q u hu
    change u ∈ (p.next t).stage.task? at hu
    cases t with
    | caller m =>
      rw [p.stage_next_caller m] at hu
      obtain ⟨before, mid, hticks, hb, hP⟩ := ih u hu
      have hmoved := p.session.moved_act m
      refine ⟨before, mid ++ [.caller m], hlonger hticks, ?_, ?_⟩
      · exact hb.congr rfl hmoved.copies_eq hmoved.counts_eq.1 hmoved.counts_eq.2
      · change P _ _ _ (p.next (.caller m)).stage
        rw [p.stage_next_caller m]
        exact moved m hknown hP
    | writer =>
      have hstaged := Point.staged_next_writer hexclusive
      have hunder : (p.next .writer).stage.task? ≠ none := Option.ne_none_iff_exists'.2 ⟨u, hu⟩
      rcases htask : p.stage.task? with _ | u₀
      · -- the round begins here
        obtain ⟨lock, hactions, hinst, hstage⟩ := hstaged.elected htask hunder
        have htook : (p.next .writer).history = .took p.inst.published :: p.history :=
          congrArg (· ++ p.history) hactions
        rw [hstage] at hu
        cases hu
        refine ⟨ticks, [], rfl, ?_⟩
        rw [hp]
        change Since p (p.next .writer).inst (p.next .writer).history _ ∧
          P p { p.session with inst := (p.next .writer).inst } (p.next .writer).history
            (p.next .writer).stage
        rw [hinst, htook, hstage]
        exact ⟨.elect lock htook, elected p lock⟩
      · obtain ⟨before, mid, hticks, hb, hP⟩ := ih u₀ htask
        refine ⟨before, mid ++ [.writer], hlonger hticks, hb.staged hstaged htask hu, ?_⟩
        exact staged hstaged (by rw [htask]; exact Option.some_ne_none _) hunder hknown hP
    | outbox =>
      obtain ⟨before, mid, hticks, hb, hP⟩ := ih u hu
      exact ⟨before, mid ++ [.outbox], hlonger hticks, hb.congr rfl rfl rfl rfl, emptied hP⟩

/-- The step in which an application ends in a fault. -/
lemma next_of_raised {p : Point γ κ δ α ρ} {pass : Pass} {done rest : Batch α ρ}
    {x : Nat × Request α ρ} {old : Side} {message : String}
    (hcontrol : p.control = .passing pass done (x :: rest) old)
    (hraised : (x.2.mutation.apply pass.application
      (p.inst.copies.get (pass.target old))).outcome = .error message) :
    ∃ t, p.inst.pass (pass.target old) pass.application [x] = (.error (.raised message), t) ∧
      p.next .writer =
        ⟨[.abandoned (done ++ x :: rest), .applied p.inst (pass.target old) pass x.2] ++ p.history,
          { p.session with inst := t.abandon (done ++ x :: rest) (.raised message) },
          .resting⟩ := by
  obtain ⟨i, r⟩ := x
  have hpass := p.inst.pass_singleton_error (pass.target old) pass.application i r hraised
  refine ⟨_, hpass, ?_⟩
  simp only [Point.next, hcontrol, Instance.advance, hpass]

/-- After an application has ended in a fault, no round is under way and the lock is free. -/
lemma rests_of_raised {p : Point γ κ δ α ρ} {pass : Pass} {done rest : Batch α ρ}
    {x : Nat × Request α ρ} {old : Side} {message : String} (hp : p.session.Exclusive p.control)
    (hcontrol : p.control = .passing pass done (x :: rest) old)
    (hraised : (x.2.mutation.apply pass.application
      (p.inst.copies.get (pass.target old))).outcome = .error message) :
    (p.next .writer).control = .resting ∧ (p.next .writer).inst.round = none ∧
      (p.next .writer).inst.lock.locked = false ∧ (p.next .writer).task? = none := by
  obtain ⟨t, hpass, hnext⟩ := next_of_raised hcontrol hraised
  obtain ⟨copies, gate, registry, cells, writers, log, ht⟩ :=
    Instance.pass_frame [x] p.inst (pass.target old) pass.application
  have hround : t.round = none := by
    have hcharge := hp.inCharge.2
    rw [hcontrol] at hcharge
    rw [show t = _ from (congrArg Prod.snd hpass).symm.trans ht]
    exact (hcharge.resolve_left nofun).2
  obtain ⟨cells', writers', log', finished, hend⟩ :=
    t.abandon_frame (done ++ x :: rest) (.raised message)
  have hcontrol' : (p.next .writer).control = .resting := by rw [hnext]
  have hinst : (p.next .writer).inst = t.abandon (done ++ x :: rest) (.raised message) := by
    rw [hnext]
    rfl
  rw [hend] at hinst
  have hround' : (p.next .writer).inst.round = none := by
    rw [hinst]
    exact hround
  refine ⟨hcontrol', hround', ?_, ?_⟩
  · rw [hinst]
    exact SpinLock.locked_release _
  · rw [Point.task?, hcontrol', Instance.task?, hround']
    rfl

end TwinCopy
