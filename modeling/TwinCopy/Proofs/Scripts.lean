import TwinCopy.Proofs.Schedule
import TwinCopy.Session.Script

/-!
# Scripts are schedules

`settle` makes the steps of the leading writer one after the other, so that the run of a script is a
schedule: `exists_schedule_steps`. This depends on the discipline of the lock, `Exclusive`.

A relation on sessions that is preserved by moves and by the end of steps holds between the sessions
before and after a script: `RunRelation.steps`. If it also depends on the moves made, on the
sessions in which steps end, or on the events of the steps, `TracedRelation.steps` applies, which is
the one induction on operations.
-/

namespace TwinCopy

variable {γ κ δ α ρ : Type}

namespace Instance

variable [Gate γ κ δ]

/-- The leading writer gets from one state to another by steps of its own. -/
inductive Leads : Instance γ δ α ρ → Control δ α ρ → Instance γ δ α ρ → Control δ α ρ → Prop where
  | refl (s : Instance γ δ α ρ) (c : Control δ α ρ) : Leads s c s c
  | step {s t : Instance γ δ α ρ} {c c' : Control δ α ρ}
      (h : Leads (s.advance c).2.1 (s.advance c).2.2 t c') : Leads s c t c'

lemma Leads.trans {s t u : Instance γ δ α ρ} {c c' c'' : Control δ α ρ} (h : Leads s c t c')
    (h' : Leads t c' u c'') : Leads s c u c'' := by
  induction h with
  | refl => exact h'
  | step _ ih => exact .step (ih h')

lemma Leads.of_stepped {s t u : Instance γ δ α ρ} {c c' c'' : Control δ α ρ}
    {actions : History γ κ δ α ρ} (h : Stepped s c actions t c') (h' : Leads t c' u c'') :
    Leads s c u c'' :=
  .step (by rw [h.eq]; exact h')

/-- A pass is made request by request. -/
lemma leads_of_pass (p : Pass) (old : Side) (rest done : Batch α ρ) (s : Instance γ δ α ρ) :
    match s.pass (p.target old) p.application rest with
    | (.ok (), t) => Leads s (.passing p done rest old) t (.passing p (done ++ rest) [] old)
    | (.error f, t) =>
      Leads s (.passing p done rest old) (t.abandon (done ++ rest) f) .resting := by
  induction rest generalizing done s with
  | nil =>
    rw [List.append_nil]
    exact .refl _ _
  | cons x rest ih =>
    rw [pass_cons]
    rcases hx : s.pass (p.target old) p.application [x] with ⟨f | ⟨⟨⟩⟩, t⟩
    · exact .of_stepped (.giveUp hx) (.refl _ _)
    · have ih := ih (done ++ [x]) t
      simp only [List.append_assoc, List.singleton_append] at ih ⊢
      revert ih
      rcases t.pass (p.target old) p.application rest with ⟨f | ⟨⟨⟩⟩, u⟩
      · exact .of_stepped (.apply hx)
      · exact .of_stepped (.apply hx)

lemma leads_clear (s : Instance γ δ α ρ) (batch : Batch α ρ) (old : Side) (d : δ) :
    Leads s (.waiting ⟨batch, old, .clearing d⟩) (s.clear batch old d) .resting := by
  unfold clear
  rcases hcleared : Gate.cleared s.gate d with m | _ | _
  · exact .of_stepped (.surplus hcleared) (.refl _ _)
  · exact .of_stepped (.suspend hcleared) (.refl _ _)
  · refine .of_stepped (.clear hcleared) ?_
    have hpass := leads_of_pass .second old batch [] (s.report (Gate.clearedEvent γ d))
    simp only [Pass.target, Pass.application, List.nil_append] at hpass
    rcases hsecond : pass (s.report (Gate.clearedEvent γ d)) old 2 batch with ⟨f | ⟨⟨⟩⟩, t⟩
    · simpa only [hsecond] using hpass
    · simp only [hsecond] at hpass ⊢
      exact hpass.trans (.of_stepped .complete (.refl _ _))

lemma leads_proceed (s : Instance γ δ α ρ) (r : Round δ α ρ) :
    Leads s (.waiting r) (s.proceed r) .resting := by
  obtain ⟨batch, old, d | d⟩ := r
  · rcases hstandby : Gate.standby s.gate d with _ | _
    · simp only [proceed, hstandby, Bool.false_eq_true, if_false]
      exact .of_stepped (.hold hstandby) (.refl _ _)
    · simp only [proceed, hstandby, if_true]
      exact .of_stepped (.shift hstandby) (leads_clear _ _ _ _)
  · exact leads_clear _ _ _ _

lemma leads_begin (s : Instance γ δ α ρ) (batch : Batch α ρ) :
    Leads s (.passing .first [] batch s.activeSide) (s.begin batch) .resting := by
  have hpass := leads_of_pass .first s.activeSide batch [] s
  simp only [Pass.target, Pass.application, List.nil_append] at hpass
  unfold begin
  rcases hfirst : s.pass s.activeSide.opposite 1 batch with ⟨f | ⟨⟨⟩⟩, t⟩
  · simpa only [hfirst] using hpass
  · simp only [hfirst] at hpass ⊢
    exact hpass.trans (.of_stepped .turn (leads_proceed _ _))

lemma leads_resume (s : Instance γ δ α ρ) : Leads s .resting s.resume .resting := by
  unfold resume
  cases hround : s.round with
  | none => exact .refl _ _
  | some r => exact .of_stepped (.takeUp hround) (leads_proceed _ _)

lemma elect_of_idle {s : Instance γ δ α ρ} (h : s.published = [] ∨ s.lock.locked = true) :
    s.elect = s := by
  unfold elect
  rcases h with h | h
  · rw [h]
  · rw [SpinLock.tryAcquire_eq_none_iff.2 h]
    cases s.published <;> rfl

lemma elect_of_free {s : Instance γ δ α ρ} (hpublished : s.published ≠ [])
    (hlock : s.lock.locked = false) :
    s.elect = begin { s with lock := { s.lock with locked := true } } s.published := by
  have hacquire : s.lock.tryAcquire = some { s.lock with locked := true } := by
    simp [SpinLock.tryAcquire, hlock]
  unfold elect
  rcases h : s.published with _ | ⟨x, batch⟩
  · exact absurd h hpublished
  · rw [hacquire]

lemma leads_elect {s : Instance γ δ α ρ} (hround : s.round = none) :
    Leads s .resting s.elect .resting := by
  by_cases hidle : s.published = [] ∨ s.lock.locked = true
  · rw [elect_of_idle hidle]
    exact .refl _ _
  · obtain ⟨hpublished, hlock⟩ := not_or.1 hidle
    have hfree : s.lock.locked = false := by simpa using hlock
    rw [elect_of_free hpublished hfree]
    exact .of_stepped (.elect hround hpublished hfree)
      (leads_begin { s with lock := { s.lock with locked := true } } s.published)

lemma Leads.inCharge {s t : Instance γ δ α ρ} {c c' : Control δ α ρ} (h : Leads s c t c')
    (hs : s.InCharge c) : t.InCharge c' := by
  induction h with
  | refl => exact hs
  | step _ ih => exact ih ((stepped_advance _ _).inCharge hs)

/-- `settle` is a sequence of steps of the leading writer. -/
lemma leads_settle {s : Instance γ δ α ρ} (hs : s.InCharge .resting) :
    Leads s .resting s.settle .resting := by
  unfold settle
  split
  · exact .refl _ _
  · refine s.leads_resume.trans ?_
    -- a round that still waits keeps its lock, and then no writer is elected
    by_cases hround : s.resume.round = none
    · exact leads_elect hround
    · rw [elect_of_idle (.inr ((s.leads_resume.inCharge hs).1 hround))]
      exact .refl _ _

end Instance

namespace Point

variable [Gate γ κ δ]

/-- A sequence of steps of the leading writer is a schedule. -/
lemma exists_after_of_leads {s t : Instance γ δ α ρ} {c c' : Control δ α ρ}
    (h : Instance.Leads s c t c') (history : History γ κ δ α ρ) (session : Session γ κ δ α ρ)
    (hs : session.inst = s) :
    ∃ n history', after ⟨history, session, c⟩ (List.replicate n .writer) =
      ⟨history', { session with inst := t }, c'⟩ := by
  induction h generalizing history session with
  | refl s c => exact ⟨0, history, by subst hs; rfl⟩
  | step _ ih =>
    subst hs
    obtain ⟨n, history', h⟩ := ih (_ ++ history) { session with inst := _ } rfl
    exact ⟨n + 1, history', by rw [List.replicate_succ, after_cons]; exact h⟩

end Point

namespace Session

variable [Gate γ κ δ]

/-! ### Operations as sequences of moves -/

/-- A reflexive and transitive relation that contains every move with the steps of writers after it,
and every end of a step. -/
structure RunRelation (allowed : Move α ρ → Prop)
    (R : Session γ κ δ α ρ → Session γ κ δ α ρ → Prop) : Prop where
  refl : ∀ s, R s s
  trans : ∀ {s t u}, R s t → R t u → R s u
  perform : ∀ s {m}, allowed m → R s (s.perform m).2
  close : ∀ s answer inner, R s (s.close answer inner).2

/-- A relation as above that records the moves made, the sessions in which steps end, and the events
that they report, in order. -/
structure TracedRelation (allowed : Move α ρ → Prop) (R : Session γ κ δ α ρ → List (Move α ρ) →
    List (Session γ κ δ α ρ) → List Event → Session γ κ δ α ρ → Prop) : Prop where
  refl : ∀ s, R s [] [] [] s
  trans : ∀ {s t u moves moves' passed passed' events events'}, R s moves passed events t →
    R t moves' passed' events' u → R s (moves ++ moves') (passed ++ passed') (events ++ events') u
  perform : ∀ s {m}, allowed m → R s [m] [] [] (s.perform m).2
  close : ∀ s answer inner,
    R s [] [(s.close answer inner).2] s.inst.log.reverse (s.close answer inner).2

end Session

mutual

/-- The events of a step, in order: those of the steps inside it, and then its own. -/
def Step.events : Step κ α ρ → List Event
  | .mk _ _ none _ log => log
  | .mk _ _ (some inner) _ log => eventsOfAll inner ++ log

/-- The events of a list of steps, in order. -/
def Step.eventsOfAll : List (Step κ α ρ) → List Event
  | [] => []
  | step :: rest => step.events ++ eventsOfAll rest

end

mutual

/-- The moves that an operation may make. -/
def Operation.moves : Operation α ρ → List (Move α ρ)
  | .single m => [m]
  | .times _ m => [m]
  | .churn _ => [.churn]
  | .read k _ gaveUp => [.enter k, .leave gaveUp]
  | .query k gaveUp body => .enter k :: .leave gaveUp :: movesOfAll body
  | .refused _ => []

/-- The moves that a list of operations may make. -/
def Operation.movesOfAll : List (Operation α ρ) → List (Move α ρ)
  | [] => []
  | o :: rest => o.moves ++ movesOfAll rest

end

namespace Session

variable [Gate γ κ δ] {allowed : Move α ρ → Prop}

/-- The moves of `n` repetitions, up to the first that fails. -/
def callsOfRepeating (act : Session γ κ δ α ρ → Except Failure (Answer κ α) × Session γ κ δ α ρ)
    (calls : Session γ κ δ α ρ → List (Move α ρ)) : Nat → Session γ κ δ α ρ → List (Move α ρ)
  | 0, _ => []
  | n + 1, s => calls s ++ match act s with
      | (.ok _, s) => callsOfRepeating act calls n s
      | (.error _, _) => []

/-- The moves of one read without operations of its own. -/
def callsOfRead (s : Session γ κ δ α ρ) (k : Nat) (gaveUp : Bool) : List (Move α ρ) :=
  .enter k :: match s.perform (.enter k) with
    | (.ok _, _) => [.leave gaveUp]
    | (.error _, _) => []

mutual

/-- The moves that an operation makes, in order. -/
def calls (s : Session γ κ δ α ρ) : Operation α ρ → List (Move α ρ)
  | .single m => [m]
  | .times n m => callsOfRepeating (·.perform m) (fun _ => [m]) n s
  | .churn n =>
      if Gate.slotted γ then callsOfRepeating (·.perform .churn) (fun _ => [.churn]) n s else []
  | .read k n gaveUp => callsOfRepeating (·.readOnce k gaveUp) (·.callsOfRead k gaveUp) n s
  | .query k gaveUp body => .enter k :: match s.perform (.enter k) with
      | (.ok (.copy _), t) => t.callsOfAll body ++ [.leave gaveUp]
      | _ => []
  | .refused _ => []

/-- The moves that a list of operations makes, in order. -/
def callsOfAll (s : Session γ κ δ α ρ) : List (Operation α ρ) → List (Move α ρ)
  | [] => []
  | o :: rest => s.calls o ++ (s.step o).2.callsOfAll rest

end

mutual

/-- The sessions after the operations inside an operation, and after the operation itself. -/
def instants (s : Session γ κ δ α ρ) : Operation α ρ → List (Session γ κ δ α ρ)
  | .query k gaveUp body =>
      (match s.perform (.enter k) with
        | (.ok (.copy _), t) => t.instantsOfAll body
        | _ => []) ++ [(s.step (.query k gaveUp body)).2]
  | o => [(s.step o).2]

/-- The sessions after each operation of a list, those inside queries included. -/
def instantsOfAll (s : Session γ κ δ α ρ) : List (Operation α ρ) → List (Session γ κ δ α ρ)
  | [] => []
  | o :: rest => s.instants o ++ (s.step o).2.instantsOfAll rest

end

omit [Gate γ κ δ] in
lemma callsOfRepeating_subset
    {act : Session γ κ δ α ρ → Except Failure (Answer κ α) × Session γ κ δ α ρ}
    {calls : Session γ κ δ α ρ → List (Move α ρ)} {moves : List (Move α ρ)}
    (h : ∀ s, calls s ⊆ moves) (n : Nat) (s : Session γ κ δ α ρ) :
    callsOfRepeating act calls n s ⊆ moves := by
  induction n generalizing s with
  | zero => exact List.nil_subset _
  | succ n ih =>
    refine List.append_subset.2 ⟨h s, ?_⟩
    split
    · exact ih _
    · exact List.nil_subset _

lemma callsOfRead_subset (s : Session γ κ δ α ρ) (k : Nat) (gaveUp : Bool) :
    s.callsOfRead k gaveUp ⊆ [.enter k, .leave gaveUp] := by
  refine List.cons_subset.2 ⟨List.mem_cons_self, ?_⟩
  split
  · exact List.subset_cons_self _ _
  · exact List.nil_subset _

mutual

/-- The moves that an operation makes are among those that it may make. -/
lemma calls_subset (s : Session γ κ δ α ρ) (o : Operation α ρ) : s.calls o ⊆ o.moves := by
  match o with
  | .single m =>
    rw [calls, Operation.moves]
    exact List.Subset.refl _
  | .times n m =>
    rw [calls, Operation.moves]
    exact callsOfRepeating_subset (fun _ => List.Subset.refl _) n s
  | .churn n =>
    rw [calls, Operation.moves]
    split
    · exact callsOfRepeating_subset (fun _ => List.Subset.refl _) n s
    · exact List.nil_subset _
  | .read k n gaveUp =>
    rw [calls, Operation.moves]
    exact callsOfRepeating_subset (fun t => t.callsOfRead_subset k gaveUp) n s
  | .query k gaveUp body =>
    rw [calls, Operation.moves]
    refine List.cons_subset.2 ⟨List.mem_cons_self, ?_⟩
    split
    · next t hperform =>
      refine List.append_subset.2 ⟨fun m hm => ?_, by simp⟩
      exact List.mem_cons_of_mem _ (List.mem_cons_of_mem _ (callsOfAll_subset t body hm))
    · exact List.nil_subset _
  | .refused r =>
    rw [calls]
    exact List.nil_subset _

lemma callsOfAll_subset (s : Session γ κ δ α ρ) (os : List (Operation α ρ)) :
    s.callsOfAll os ⊆ Operation.movesOfAll os := by
  match os with
  | [] =>
    rw [callsOfAll]
    exact List.nil_subset _
  | o :: os =>
    rw [callsOfAll, Operation.movesOfAll]
    exact List.append_subset.2 ⟨fun m hm => List.mem_append_left _ (calls_subset s o hm),
      fun m hm => List.mem_append_right _ (callsOfAll_subset _ os hm)⟩

end

namespace TracedRelation

variable {R : Session γ κ δ α ρ → List (Move α ρ) → List (Session γ κ δ α ρ) → List Event →
  Session γ κ δ α ρ → Prop}

lemma events_close_some (s : Session γ κ δ α ρ) (answer : Except Failure (Answer κ α))
    (inner : List (Step κ α ρ)) :
    (s.close answer (some inner)).1.events = Step.eventsOfAll inner ++ s.inst.log.reverse := by
  rw [Session.close, Step.events]

/-- At the end of its moves an operation ends its step. -/
lemma closed (A : TracedRelation allowed R) {s t : Session γ κ δ α ρ} {moves : List (Move α ρ)}
    (h : R s moves [] [] t) (answer : Except Failure (Answer κ α)) :
    R s moves [(t.close answer none).2] (t.close answer none).1.events (t.close answer none).2 := by
  have hroundEnded := A.trans h (A.close t answer none)
  rw [List.append_nil] at hroundEnded
  exact hroundEnded

lemma readOnce (A : TracedRelation allowed R) (s : Session γ κ δ α ρ) {k : Nat} {gaveUp : Bool}
    (henter : allowed (.enter k)) (hleave : allowed (.leave gaveUp)) :
    R s (s.callsOfRead k gaveUp) [] [] (s.readOnce k gaveUp).2 := by
  unfold Session.readOnce callsOfRead
  have hentered := A.perform s henter
  rcases hperform : s.perform (.enter k) with ⟨f | a, t⟩ <;> rw [hperform] at hentered
  · exact hentered
  · exact A.trans hentered (A.perform t hleave)

lemma repeating (A : TracedRelation allowed R)
    {act : Session γ κ δ α ρ → Except Failure (Answer κ α) × Session γ κ δ α ρ}
    (calls : Session γ κ δ α ρ → List (Move α ρ)) (hact : ∀ s, R s (calls s) [] [] (act s).2)
    (n done : Nat) (last : Answer κ α) (s : Session γ κ δ α ρ) :
    R s (callsOfRepeating act calls n s) [] [] (Session.repeating act done n last s).2 := by
  induction n generalizing done last s with
  | zero => exact A.refl s
  | succ n ih =>
    have hfirst := hact s
    unfold Session.repeating callsOfRepeating
    rcases hresult : act s with ⟨e | a, t⟩ <;> rw [hresult] at hfirst
    · rw [List.append_nil]
      cases e <;> exact hfirst
    · exact A.trans hfirst (ih _ _ _)

lemma repeatedly (A : TracedRelation allowed R) (s : Session γ κ δ α ρ) (n : Nat)
    {act : Session γ κ δ α ρ → Except Failure (Answer κ α) × Session γ κ δ α ρ}
    {calls : Session γ κ δ α ρ → List (Move α ρ)} (hact : ∀ s, R s (calls s) [] [] (act s).2) :
    R s (callsOfRepeating act calls n s) [] [] (s.repeatedly n act).2 := by
  unfold Session.repeatedly
  split
  · next hone =>
    have honce : callsOfRepeating act calls 1 s = calls s := by
      simp only [callsOfRepeating]
      split <;> exact List.append_nil _
    rw [hone, honce]
    exact hact s
  · exact A.repeating _ hact n 0 .done s

mutual

lemma step (A : TracedRelation allowed R) (s : Session γ κ δ α ρ) (o : Operation α ρ)
    (ho : ∀ m ∈ o.moves, allowed m) :
    R s (s.calls o) (s.instants o) (s.step o).1.events (s.step o).2 := by
  match o with
  | .single m =>
    simp only [Session.step, calls, Session.instants]
    exact A.closed (A.perform s (ho m (by simp [Operation.moves]))) _
  | .times n m =>
    have hm : allowed m := ho m (by simp [Operation.moves])
    simp only [Session.step, calls, Session.instants]
    exact A.closed (A.repeatedly s n fun t => A.perform t hm) _
  | .churn n =>
    have hm : allowed .churn := ho .churn (by simp [Operation.moves])
    simp only [Session.step, calls, Session.instants]
    split
    · exact A.closed (A.repeatedly s n fun t => A.perform t hm) _
    · exact A.close _ _ none
  | .read k n gaveUp =>
    have henter : allowed (.enter k) := ho _ (by simp [Operation.moves])
    have hleave : allowed (.leave gaveUp) := ho _ (by simp [Operation.moves])
    simp only [Session.step, calls, Session.instants]
    exact A.closed (A.repeatedly s n fun t => A.readOnce t henter hleave) _
  | .query k gaveUp body =>
    have henter : allowed (.enter k) := ho _ (by simp [Operation.moves])
    have hleave : allowed (.leave gaveUp) := ho _ (by simp [Operation.moves])
    have hentered := A.perform s henter
    simp only [Session.step, calls, Session.instants]
    rcases hperform : s.perform (.enter k) with ⟨f | a, t⟩ <;> rw [hperform] at hentered
    · exact A.trans hentered (A.close _ _ (some []))
    · cases a with
      | copy before =>
        -- a query consists of its begin, its body and its end
        have hbody : R t (t.callsOfAll body) (t.instantsOfAll body)
            (Step.eventsOfAll (t.steps body).1) (t.steps body).2 :=
          A.steps t body fun m hm => ho m (by simp [Operation.moves, hm])
        have hleft := A.trans (A.trans hentered hbody) (A.perform (t.steps body).2 hleave)
        simpa only [events_close_some, List.append_nil, List.nil_append, List.cons_append,
          List.singleton_append] using A.trans hleft (A.close _ _ (some (t.steps body).1))
      | _ => exact A.trans hentered (A.close _ _ (some []))
  | .refused r =>
    simp only [Session.step, calls, Session.instants]
    exact A.close _ _ none

lemma steps (A : TracedRelation allowed R) (s : Session γ κ δ α ρ) (os : List (Operation α ρ))
    (hos : ∀ m ∈ Operation.movesOfAll os, allowed m) :
    R s (s.callsOfAll os) (s.instantsOfAll os) (Step.eventsOfAll (s.steps os).1)
      (s.steps os).2 := by
  match os with
  | [] =>
    simp only [Session.steps, callsOfAll, Session.instantsOfAll]
    exact A.refl s
  | o :: os =>
    simp only [Session.steps, callsOfAll, Session.instantsOfAll]
    exact A.trans (A.step s o fun m hm => hos m (by simp [Operation.movesOfAll, hm]))
      (A.steps _ os fun m hm => hos m (by simp [Operation.movesOfAll, hm]))

end

end TracedRelation

namespace RunRelation

variable {R : Session γ κ δ α ρ → Session γ κ δ α ρ → Prop}

/-- A run relation, with the moves, sessions and events recorded. -/
lemma tracedRelation (A : RunRelation allowed R) :
    TracedRelation allowed fun s _ passed _ t => R s t ∧ ∀ u ∈ passed, R s u where
  refl s := ⟨A.refl s, nofun⟩
  trans h h' := by
    refine ⟨A.trans h.1 h'.1, fun u hu => ?_⟩
    rcases List.mem_append.1 hu with hu | hu
    · exact h.2 u hu
    · exact A.trans h.1 (h'.2 u hu)
  perform s _ hm := ⟨A.perform s hm, nofun⟩
  close s answer inner := by
    refine ⟨A.close s answer inner, fun u hu => ?_⟩
    rw [List.mem_singleton.1 hu]
    exact A.close s answer inner

lemma performAll (A : RunRelation allowed R) (s : Session γ κ δ α ρ) {moves : List (Move α ρ)}
    (hmoves : ∀ m ∈ moves, allowed m) : R s (s.performAll moves) := by
  induction moves generalizing s with
  | nil => exact A.refl s
  | cons m moves ih =>
    obtain ⟨hm, hmoves⟩ := List.forall_mem_cons.1 hmoves
    exact A.trans (A.perform s hm) (ih _ hmoves)

lemma readOnce (A : RunRelation allowed R) (s : Session γ κ δ α ρ) {k : Nat} {gaveUp : Bool}
    (henter : allowed (.enter k)) (hleave : allowed (.leave gaveUp)) :
    R s (s.readOnce k gaveUp).2 :=
  (A.tracedRelation.readOnce s henter hleave).1

lemma repeating (A : RunRelation allowed R)
    {act : Session γ κ δ α ρ → Except Failure (Answer κ α) × Session γ κ δ α ρ}
    (hact : ∀ s, R s (act s).2) (n done : Nat) (last : Answer κ α) (s : Session γ κ δ α ρ) :
    R s (Session.repeating act done n last s).2 :=
  (A.tracedRelation.repeating (fun _ => []) (fun s => ⟨hact s, nofun⟩) n done last s).1

lemma step (A : RunRelation allowed R) (s : Session γ κ δ α ρ) (o : Operation α ρ)
    (ho : ∀ m ∈ o.moves, allowed m) : R s (s.step o).2 :=
  (A.tracedRelation.step s o ho).1

lemma steps (A : RunRelation allowed R) (s : Session γ κ δ α ρ) (os : List (Operation α ρ))
    (hos : ∀ m ∈ Operation.movesOfAll os, allowed m) : R s (s.steps os).2 :=
  (A.tracedRelation.steps s os hos).1

lemma instants (A : RunRelation allowed R) (s : Session γ κ δ α ρ) (o : Operation α ρ)
    (ho : ∀ m ∈ o.moves, allowed m) : ∀ t ∈ s.instants o, R s t :=
  (A.tracedRelation.step s o ho).2

lemma instantsOfAll (A : RunRelation allowed R) (s : Session γ κ δ α ρ) (os : List (Operation α ρ))
    (hos : ∀ m ∈ Operation.movesOfAll os, allowed m) : ∀ t ∈ s.instantsOfAll os, R s t :=
  (A.tracedRelation.steps s os hos).2

end RunRelation

/-! ### Scripts -/

/-- The outboxes are empty after an operation. -/
lemma emptied_step (s : Session γ κ δ α ρ) (o : Operation α ρ) :
    (s.step o).2.inst.log = [] ∧ (s.step o).2.inst.finished = [] := by
  cases o with
  | query k gaveUp body =>
    simp only [step]
    split <;> exact ⟨rfl, rfl⟩
  | _ => exact ⟨rfl, rfl⟩

/-- A schedule whose callers make allowed moves only leads from one session at rest to another. -/
def Reaches (allowed : Move α ρ → Prop) (s t : Session γ κ δ α ρ) : Prop :=
  s.Exclusive .resting → ∀ history, ∃ ticks history', (∀ m, .caller m ∈ ticks → allowed m) ∧
    (Point.mk history s .resting).after ticks = ⟨history', t, .resting⟩

lemma Reaches.refl (s : Session γ κ δ α ρ) : s.Reaches allowed s :=
  fun _ history => ⟨[], history, by simp, rfl⟩

lemma Reaches.trans {s t u : Session γ κ δ α ρ} (h : s.Reaches allowed t)
    (h' : t.Reaches allowed u) : s.Reaches allowed u := by
  intro hs history
  obtain ⟨ticks, history', hticks, hafter⟩ := h hs history
  have ht : t.Exclusive .resting := by
    have hexclusive := Point.exclusive_after (p := ⟨history, s, .resting⟩) hs ticks
    rwa [hafter] at hexclusive
  obtain ⟨ticks', history'', hticks', hafter'⟩ := h' ht history'
  refine ⟨ticks ++ ticks', history'', ?_, by rw [Point.after_append, hafter, hafter']⟩
  intro m hm
  rcases List.mem_append.1 hm with hm | hm
  · exact hticks m hm
  · exact hticks' m hm

/-- A move of a script is a tick of a caller followed by ticks of the leading writer. -/
lemma exists_after_perform {s : Session γ κ δ α ρ} (hs : s.Exclusive .resting) (m : Move α ρ)
    (history : History γ κ δ α ρ) :
    ∃ n history', (Point.mk history s .resting).after (.caller m :: List.replicate n .writer) =
      ⟨history', (s.perform m).2, .resting⟩ :=
  Point.exists_after_of_leads (Instance.leads_settle (hs.act m).inCharge) (.moved s m :: history)
    (s.act m).2 rfl

lemma reaches_perform (s : Session γ κ δ α ρ) {m : Move α ρ} (hm : allowed m) :
    s.Reaches allowed (s.perform m).2 := by
  intro hs history
  obtain ⟨n, history', h⟩ := exists_after_perform hs m history
  refine ⟨.caller m :: List.replicate n .writer, history', ?_, h⟩
  intro m' hm'
  rcases List.mem_cons.1 hm' with h | h
  · cases h
    exact hm
  · cases List.eq_of_mem_replicate h

lemma reaches_runRelation : RunRelation allowed (Reaches (γ := γ) allowed) where
  refl := .refl
  trans := .trans
  perform s _ hm := s.reaches_perform hm
  close _ _ _ _ history := ⟨[.outbox], _, by simp, rfl⟩

/-- The run of a script is a schedule in which callers make the moves of the script. -/
theorem exists_schedule_steps {s : Session γ κ δ α ρ} (hs : s.Exclusive .resting)
    (script : List (Operation α ρ)) :
    ∃ ticks history, (∀ m, .caller m ∈ ticks → m ∈ Operation.movesOfAll script) ∧
      (Point.start s).after ticks = ⟨history, (s.steps script).2, .resting⟩ :=
  reaches_runRelation.steps s script (fun _ hm => hm) hs []

end Session

end TwinCopy
