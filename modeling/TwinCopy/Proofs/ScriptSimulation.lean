import TwinCopy.Proofs.ObservationalEq
import TwinCopy.Proofs.BackwardClosed
import TwinCopy.Proofs.Patience

/-!
# Simulations of scripts

`ScriptSim l rule R` says that `R` is a relation between sessions under which moves that obey `rule`
have answers with the same projection and lead to related sessions. From this it follows for whole
scripts, operations inside queries included, that all steps have the same projection and that the
final sessions are related (`ScriptSim.steps`), and so are the sessions after each operation
(`ScriptSim.instantsOfAll`). The rule is a condition on the second session; `Obeys` lifts it from
moves to operations, and for a backward closed condition on gates it suffices that it holds at the
end (`BackwardClosed.obeysAll`).
-/

namespace TwinCopy

variable {γ κ δ γ' δ' α ρ : Type}

/-! ## Projections of steps -/

/-- The projection of an answer. -/
def Answer.project (l : Projection) : Answer κ α → Answer κ α
  | .text t => .text (l.text t)
  | a => a

mutual

/-- The projection of a step, and of the steps inside it. -/
def Step.project (l : Projection) : Step κ α ρ → Step κ α ρ
  | .mk answer view none finished log =>
      .mk (answer.map (·.project l)) (view.mapGate l.gate) none (finished.map (·.mapGate l.gate))
        (log.filter l.event)
  | .mk answer view (some inner) finished log =>
      .mk (answer.map (·.project l)) (view.mapGate l.gate) (some (projectAll l inner))
        (finished.map (·.mapGate l.gate)) (log.filter l.event)

/-- The projection of every step of a list. -/
def Step.projectAll (l : Projection) : List (Step κ α ρ) → List (Step κ α ρ)
  | [] => []
  | step :: rest => step.project l :: projectAll l rest

end

/-! ## Rules for the moves of an operation -/

/-- Whether the answer is a copy. -/
def Answer.gives : Except Failure (Answer κ α) → Bool
  | .ok (.copy _) => true
  | _ => false

namespace Session

variable [Gate γ κ δ]

/-- A rule holds before each of `n` repetitions, up to the first that fails. -/
def ObeysRepeating (obeys : Session γ κ δ α ρ → Prop)
    (act : Session γ κ δ α ρ → Except Failure (Answer κ α) × Session γ κ δ α ρ) :
    Nat → Session γ κ δ α ρ → Prop
  | 0, _ => True
  | n + 1, s => obeys s ∧ ((act s).1.isOk = true → ObeysRepeating obeys act n (act s).2)

instance decidableObeysRepeating (obeys : Session γ κ δ α ρ → Prop) [DecidablePred obeys]
    (act : Session γ κ δ α ρ → Except Failure (Answer κ α) × Session γ κ δ α ρ) :
    (n : Nat) → (s : Session γ κ δ α ρ) → Decidable (ObeysRepeating obeys act n s)
  | 0, _ => inferInstanceAs (Decidable True)
  | n + 1, s =>
      have := decidableObeysRepeating obeys act n (act s).2
      inferInstanceAs (Decidable (_ ∧ (_ → _)))

variable (rule : Session γ κ δ α ρ → Move α ρ → Prop)

/-- A rule holds for both moves of a read without operations of its own. -/
def ObeysOnce (s : Session γ κ δ α ρ) (k : Nat) (gaveUp : Bool) : Prop :=
  rule s (.enter k) ∧
    ((s.perform (.enter k)).1.isOk = true → rule (s.perform (.enter k)).2 (.leave gaveUp))

mutual

/-- A rule holds for every move of an operation, in the session in which the move is made. -/
def Obeys (s : Session γ κ δ α ρ) : Operation α ρ → Prop
  | .single m => rule s m
  | .times n m => ObeysRepeating (rule · m) (·.perform m) n s
  | .churn n => Gate.slotted γ = true → ObeysRepeating (rule · .churn) (·.perform .churn) n s
  | .read k n gaveUp => ObeysRepeating (·.ObeysOnce rule k gaveUp) (·.readOnce k gaveUp) n s
  | .query k gaveUp body =>
      rule s (.enter k) ∧ (Answer.gives (s.perform (.enter k)).1 = true →
        (s.perform (.enter k)).2.ObeysAll body ∧
          rule ((s.perform (.enter k)).2.steps body).2 (.leave gaveUp))
  | .refused _ => True

/-- A rule holds for every move of a list of operations. -/
def ObeysAll (s : Session γ κ δ α ρ) : List (Operation α ρ) → Prop
  | [] => True
  | o :: rest => s.Obeys o ∧ (s.step o).2.ObeysAll rest

end

section

variable {rule} [∀ s, DecidablePred (rule s)]

instance (s : Session γ κ δ α ρ) (k : Nat) (gaveUp : Bool) :
    Decidable (s.ObeysOnce rule k gaveUp) :=
  inferInstanceAs (Decidable (_ ∧ (_ → _)))

mutual

instance decidableObeys (s : Session γ κ δ α ρ) : (o : Operation α ρ) → Decidable (s.Obeys rule o)
  | .single _ => inferInstanceAs (Decidable (rule _ _))
  | .times _ _ => inferInstanceAs (Decidable (ObeysRepeating _ _ _ _))
  | .churn _ => inferInstanceAs (Decidable (_ → _))
  | .read _ _ _ => inferInstanceAs (Decidable (ObeysRepeating _ _ _ _))
  | .query k _ body =>
      have := decidableObeysAll (s.perform (.enter k)).2 body
      inferInstanceAs (Decidable (_ ∧ (_ → _ ∧ _)))
  | .refused _ => inferInstanceAs (Decidable True)

instance decidableObeysAll (s : Session γ κ δ α ρ) :
    (os : List (Operation α ρ)) → Decidable (s.ObeysAll rule os)
  | [] => inferInstanceAs (Decidable True)
  | o :: rest =>
      have := decidableObeys s o
      have := decidableObeysAll (s.step o).2 rest
      inferInstanceAs (Decidable (_ ∧ _))

end

end

end Session

/-! ## Backward closed conditions as rules -/

namespace Session

variable [Gate γ κ δ]

/-- The rule that a condition holds of the gate after the move. -/
def FineAfter (fine : γ → Prop) (s : Session γ κ δ α ρ) (m : Move α ρ) : Prop :=
  fine (s.perform m).2.inst.gate

/-- From `s` to `t` the lock discipline is preserved and the condition on the gate is reflected. -/
def Reflects (fine : γ → Prop) (s t : Session γ κ δ α ρ) : Prop :=
  s.Exclusive .resting → t.Exclusive .resting ∧ (fine t.inst.gate → fine s.inst.gate)

end Session

namespace BackwardClosed

open Session

variable [Gate γ κ δ] {fine : γ → Prop} {s : Session γ κ δ α ρ}

lemma along (L : BackwardClosed fine) :
    RunRelation (fun _ : Move α ρ => True) (Reflects (γ := γ) fine) where
  refl _ hs := ⟨hs, id⟩
  trans h h' hs := ⟨(h' (h hs).1).1, fun hfine => (h hs).2 ((h' (h hs).1).2 hfine)⟩
  perform s m _ hs := by
    have hreach : s.Reaches (fun _ => True) (s.perform m).2 := s.reaches_perform ⟨⟩
    exact ⟨hreach.exclusive hs, L.reaches hreach hs⟩
  close _ _ _ hs := ⟨hs.congr rfl rfl rfl, id⟩

section Repeating

variable {obeys : Session γ κ δ α ρ → Prop}
  {act : Session γ κ δ α ρ → Except Failure (Answer κ α) × Session γ κ δ α ρ}

lemma obeysRepeating (L : BackwardClosed fine) (hact : ∀ s, Reflects fine s (act s).2)
    (hobeys : ∀ {s}, s.Exclusive .resting → fine (act s).2.inst.gate → obeys s) (n done : Nat)
    (last : Answer κ α) (hs : s.Exclusive .resting)
    (hfine : fine (Session.repeating act done n last s).2.inst.gate) :
    ObeysRepeating obeys act n s := by
  induction n generalizing done last s with
  | zero => exact ⟨⟩
  | succ n ih =>
    have hreflects := hact s hs
    have hfirst : fine (act s).2.inst.gate → obeys s := hobeys hs
    show obeys s ∧ (_ → _)
    unfold Session.repeating at hfine
    rcases hresult : act s with ⟨f | a, t⟩ <;> rw [hresult] at hfine hreflects hfirst
    · -- a failure ends the repetition, so the rule is not required after it
      cases f <;> exact ⟨hfirst hfine, fun hok => absurd hok Bool.false_ne_true⟩
    · have hrest := (L.along.repeating hact n (done + 1) a t hreflects.1).2 hfine
      exact ⟨hfirst hrest, fun _ => ih _ _ hreflects.1 hfine⟩

lemma obeysRepeatedly (L : BackwardClosed fine) (hact : ∀ s, Reflects fine s (act s).2)
    (hobeys : ∀ {s}, s.Exclusive .resting → fine (act s).2.inst.gate → obeys s) (n : Nat)
    (hs : s.Exclusive .resting) (hfine : fine (s.repeatedly n act).2.inst.gate) :
    ObeysRepeating obeys act n s := by
  unfold Session.repeatedly at hfine
  by_cases hn : n = 1
  · rw [if_pos hn] at hfine
    subst hn
    exact ⟨hobeys hs hfine, fun _ => ⟨⟩⟩
  · rw [if_neg hn] at hfine
    exact L.obeysRepeating hact hobeys n 0 .done hs hfine

end Repeating

lemma obeysOnce (L : BackwardClosed fine) {k : Nat} {gaveUp : Bool} (hs : s.Exclusive .resting)
    (hfine : fine (s.readOnce k gaveUp).2.inst.gate) : s.ObeysOnce (FineAfter fine) k gaveUp := by
  have hentered := L.along.perform s (m := .enter k) ⟨⟩ hs
  unfold Session.readOnce at hfine
  rw [ObeysOnce, FineAfter, FineAfter]
  rcases hperform : s.perform (.enter k) with ⟨f | a, t⟩ <;> rw [hperform] at hfine hentered
  · exact ⟨hfine, nofun⟩
  · exact ⟨((L.along.perform t (m := .leave gaveUp) ⟨⟩) hentered.1).2 hfine, fun _ => hfine⟩

mutual

/-- If a backward closed condition holds after an operation, it holds after each of its moves. -/
lemma obeys (L : BackwardClosed fine) {s : Session γ κ δ α ρ} (hs : s.Exclusive .resting)
    (o : Operation α ρ) (hfine : fine (s.step o).2.inst.gate) : s.Obeys (FineAfter fine) o := by
  match o with
  | .single m =>
    simp only [Session.step] at hfine
    exact hfine
  | .times n m =>
    simp only [Session.step] at hfine
    exact L.obeysRepeatedly (fun s => L.along.perform s ⟨⟩) (fun _ => id) n hs hfine
  | .churn n =>
    intro hslotted
    simp only [Session.step, hslotted, if_true] at hfine
    exact L.obeysRepeatedly (fun s => L.along.perform s ⟨⟩) (fun _ => id) n hs hfine
  | .read k n gaveUp =>
    simp only [Session.step] at hfine
    exact L.obeysRepeatedly (fun s => L.along.readOnce s ⟨⟩ ⟨⟩) L.obeysOnce n hs hfine
  | .query k gaveUp body =>
    have hentered := L.along.perform s (m := .enter k) ⟨⟩ hs
    show FineAfter fine s _ ∧ (_ → _)
    rw [FineAfter]
    simp only [Session.step] at hfine
    rcases hbegun : s.perform (.enter k) with ⟨f | a, t⟩ <;> rw [hbegun] at hentered
    · rw [hbegun] at hfine
      exact ⟨hfine, nofun⟩
    · cases a with
      | copy before =>
        rw [hbegun] at hfine
        have hbody := L.along.steps t body (fun _ _ => ⟨⟩) hentered.1
        have hleft := (L.along.perform _ (m := .leave gaveUp) ⟨⟩ hbody.1).2 hfine
        exact ⟨hbody.2 hleft, fun _ => ⟨obeysAll L hentered.1 body hleft, hfine⟩⟩
      | _ =>
        rw [hbegun] at hfine
        exact ⟨hfine, nofun⟩
  | .refused _ => exact ⟨⟩

lemma obeysAll (L : BackwardClosed fine) {s : Session γ κ δ α ρ} (hs : s.Exclusive .resting)
    (os : List (Operation α ρ)) (hfine : fine (s.steps os).2.inst.gate) :
    s.ObeysAll (FineAfter fine) os := by
  match os with
  | [] => exact ⟨⟩
  | o :: os =>
    simp only [Session.steps] at hfine
    have hfirst := L.along.step s o (fun _ _ => ⟨⟩) hs
    have hrest := (L.along.steps _ os (fun _ _ => ⟨⟩) hfirst.1).2 hfine
    exact ⟨obeys L hs o hrest, obeysAll L hfirst.1 os hfine⟩

end

end BackwardClosed

/-! ## Simulation -/

/-- Two results have answers with the same projection and related sessions. -/
structure Session.AnswersAgree (l : Projection) (R : Session γ κ δ α ρ → Session γ' κ δ' α ρ → Prop)
    (r : Except Failure (Answer κ α) × Session γ κ δ α ρ)
    (r' : Except Failure (Answer κ α) × Session γ' κ δ' α ρ) : Prop where
  answer : r'.1.map (·.project l) = r.1.map (·.project l)
  state : R r.2 r'.2

/-- `R` is preserved by moves that obey the rule, and related sessions have the same projection. -/
structure ScriptSim [Gate γ κ δ] [Gate γ' κ δ'] (l : Projection)
    (rule : Session γ' κ δ' α ρ → Move α ρ → Prop)
    (R : Session γ κ δ α ρ → Session γ' κ δ' α ρ → Prop) : Prop where
  slotted_eq : Gate.slotted γ' = Gate.slotted γ
  perform : ∀ {s t m}, R s t → rule t m → Session.AnswersAgree l R (s.perform m) (t.perform m)
  view : ∀ {s t}, R s t → t.inst.view.mapGate l.gate = s.inst.view.mapGate l.gate
  finished : ∀ {s t}, R s t →
    t.inst.finished.map (·.mapGate l.gate) = s.inst.finished.map (·.mapGate l.gate)
  log : ∀ {s t}, R s t → t.inst.log.filter l.event = s.inst.log.filter l.event
  emptied : ∀ {s t}, R s t → R { s with inst := { s.inst with finished := [], log := [] } }
    { t with inst := { t.inst with finished := [], log := [] } }

namespace ScriptSim

open Session

variable {l : Projection} {rule : Session γ' κ δ' α ρ → Move α ρ → Prop}
  {R : Session γ κ δ α ρ → Session γ' κ δ' α ρ → Prop} {s : Session γ κ δ α ρ}
  {t : Session γ' κ δ' α ρ}

lemma refuse (h : R s t) (r : Refusal) : AnswersAgree l R (s.refuse r) (t.refuse r) :=
  ⟨rfl, h⟩

/-- Either both results are the same failure, or both are answers with the same projection. -/
lemma answersAgree_cases {r : Except Failure (Answer κ α) × Session γ κ δ α ρ}
    {r' : Except Failure (Answer κ α) × Session γ' κ δ' α ρ} (h : AnswersAgree l R r r') :
    (∃ f s t, r = (.error f, s) ∧ r' = (.error f, t) ∧ R s t) ∨
      ∃ a a' s t, r = (.ok a, s) ∧ r' = (.ok a', t) ∧ a'.project l = a.project l ∧ R s t := by
  obtain ⟨result, s⟩ := r
  obtain ⟨result', t⟩ := r'
  obtain ⟨hanswer, hstate⟩ := h
  cases result <;> cases result' <;>
    simp only [Except.map, Except.error.injEq, Except.ok.injEq, reduceCtorEq] at hanswer
  · exact .inl ⟨_, _, _, rfl, by rw [hanswer], hstate⟩
  · exact .inr ⟨_, _, _, _, rfl, rfl, hanswer, hstate⟩

section Repeating

variable {obeys : Session γ' κ δ' α ρ → Prop}
  {act : Session γ κ δ α ρ → Except Failure (Answer κ α) × Session γ κ δ α ρ}
  {act' : Session γ' κ δ' α ρ → Except Failure (Answer κ α) × Session γ' κ δ' α ρ}

/-- The simulation of one action carries over to its repetition. -/
lemma repeating (hact : ∀ {s t}, R s t → obeys t → AnswersAgree l R (act s) (act' t)) (n done : Nat)
    {last last' : Answer κ α} (hlast : last'.project l = last.project l) (h : R s t)
    (hrule : ObeysRepeating obeys act' n t) :
    AnswersAgree l R (Session.repeating act done n last s)
      (Session.repeating act' done n last' t) := by
  induction n generalizing done last last' s t with
  | zero => exact ⟨congrArg Except.ok hlast, h⟩
  | succ n ih =>
    obtain ⟨hfirst, hrest⟩ := hrule
    unfold Session.repeating
    rcases answersAgree_cases (hact h hfirst) with
      ⟨f, s', t', hs, ht, hstate⟩ | ⟨a, a', s', t', hs, ht, hanswer, hstate⟩ <;>
      rw [ht] at hrest <;> rw [hs, ht]
    · cases f <;> exact ⟨rfl, hstate⟩
    · exact ih (done + 1) hanswer hstate (hrest rfl)

lemma repeatedly (hact : ∀ {s t}, R s t → obeys t → AnswersAgree l R (act s) (act' t)) (n : Nat)
    (h : R s t) (hrule : ObeysRepeating obeys act' n t) :
    AnswersAgree l R (s.repeatedly n act) (t.repeatedly n act') := by
  unfold Session.repeatedly
  by_cases hn : n = 1
  · subst hn
    rw [if_pos rfl, if_pos rfl]
    exact hact h hrule.1
  · rw [if_neg hn, if_neg hn]
    exact repeating hact n 0 rfl h hrule

end Repeating

/-- The answer of a query with operations of its own, made from the answer at its end. -/
lemma both {r : Except Failure (Answer κ α) × Session γ κ δ α ρ}
    {r' : Except Failure (Answer κ α) × Session γ' κ δ' α ρ} (h : AnswersAgree l R r r')
    (before : α) :
    AnswersAgree l R (r.1.map fun | .copy after => .copies before after | a => a, r.2)
      (r'.1.map fun | .copy after => .copies before after | a => a, r'.2) := by
  rcases answersAgree_cases h with
    ⟨f, s, t, rfl, rfl, hstate⟩ | ⟨a, a', s, t, rfl, rfl, hanswer, hstate⟩
  · exact ⟨rfl, hstate⟩
  · refine ⟨?_, hstate⟩
    cases a <;> cases a' <;> simp_all [Answer.project, Except.map]

variable [Gate γ κ δ] [Gate γ' κ δ']

lemma readOnce (P : ScriptSim l rule R) (h : R s t) {k : Nat} {gaveUp : Bool}
    (hrule : t.ObeysOnce rule k gaveUp) :
    AnswersAgree l R (s.readOnce k gaveUp) (t.readOnce k gaveUp) := by
  obtain ⟨henter, hleave⟩ := hrule
  unfold Session.readOnce
  rcases answersAgree_cases (P.perform h henter) with
    ⟨f, s', t', hs, ht, hstate⟩ | ⟨a, a', s', t', hs, ht, -, hstate⟩ <;> rw [ht] at hleave <;>
    rw [hs, ht]
  · exact ⟨rfl, hstate⟩
  · exact P.perform hstate (hleave rfl)

lemma close (P : ScriptSim l rule R) {r : Except Failure (Answer κ α) × Session γ κ δ α ρ}
    {r' : Except Failure (Answer κ α) × Session γ' κ δ' α ρ} (h : AnswersAgree l R r r')
    {inner inner' : Option (List (Step κ α ρ))}
    (hinner : inner'.map (Step.projectAll l) = inner.map (Step.projectAll l)) :
    (r'.2.close r'.1 inner').1.project l = (r.2.close r.1 inner).1.project l ∧
      R (r.2.close r.1 inner).2 (r'.2.close r'.1 inner').2 := by
  refine ⟨?_, P.emptied h.state⟩
  have hlog : r'.2.inst.log.reverse.filter l.event = r.2.inst.log.reverse.filter l.event := by
    rw [List.filter_reverse, List.filter_reverse, P.log h.state]
  cases inner <;> cases inner' <;>
    simp only [Option.map_none, Option.map_some, Option.some.injEq, reduceCtorEq] at hinner
  · simp only [Session.close, Step.project, h.answer, P.view h.state, Finished.map_inOrder,
      P.finished h.state, hlog]
  · simp only [Session.close, Step.project, h.answer, P.view h.state, Finished.map_inOrder,
      P.finished h.state, hlog, hinner]

mutual

lemma step (P : ScriptSim l rule R) {s : Session γ κ δ α ρ} {t : Session γ' κ δ' α ρ} (h : R s t)
    (o : Operation α ρ) (hrule : t.Obeys rule o) :
    (t.step o).1.project l = (s.step o).1.project l ∧ R (s.step o).2 (t.step o).2 := by
  match o with
  | .single m =>
    simp only [Session.step]
    exact P.close (P.perform h hrule) rfl
  | .times n m =>
    simp only [Session.step]
    exact P.close (repeatedly P.perform n h hrule) rfl
  | .churn n =>
    simp only [Session.step, P.slotted_eq]
    split
    · next hslotted =>
      exact P.close (repeatedly P.perform n h (hrule (P.slotted_eq.trans hslotted))) rfl
    · exact P.close (refuse h .unsupported) rfl
  | .read k n gaveUp =>
    simp only [Session.step]
    exact P.close (repeatedly (fun h hrule => P.readOnce h hrule) n h hrule) rfl
  | .query k gaveUp body =>
    obtain ⟨henter, hbody⟩ := hrule
    simp only [Session.step]
    rcases answersAgree_cases (P.perform h henter) with
      ⟨f, s', t', hs, ht, hstate⟩ | ⟨a, a', s', t', hs, ht, hanswer, hstate⟩
    · rw [hs, ht]
      have hfailed : AnswersAgree l R (Except.error f, s') (Except.error f, t') := ⟨rfl, hstate⟩
      exact P.close hfailed rfl
    · rw [ht] at hbody
      rw [hs, ht]
      have hsame : AnswersAgree l R (Except.ok a, s') (Except.ok a', t') :=
        ⟨congrArg Except.ok hanswer, hstate⟩
      cases a with
      | copy before =>
        cases a' with
        | copy before' =>
          cases hanswer
          obtain ⟨hbody, hleave⟩ := hbody rfl
          obtain ⟨hsteps, hend⟩ := steps P hstate body hbody
          exact P.close (both (P.perform hend hleave) before) (congrArg some hsteps)
        | _ => cases hanswer
      | _ =>
        -- a query that was not given a copy has no operations of its own
        cases a' with
        | copy before' => cases hanswer
        | _ => exact P.close hsame rfl
  | .refused r =>
    simp only [Session.step]
    exact P.close (refuse h r) rfl

lemma steps (P : ScriptSim l rule R) {s : Session γ κ δ α ρ} {t : Session γ' κ δ' α ρ} (h : R s t)
    (os : List (Operation α ρ)) (hrule : t.ObeysAll rule os) :
    Step.projectAll l (t.steps os).1 = Step.projectAll l (s.steps os).1 ∧
      R (s.steps os).2 (t.steps os).2 := by
  match os with
  | [] =>
    simp only [Session.steps, Step.projectAll]
    exact ⟨trivial, h⟩
  | o :: os =>
    obtain ⟨hfirst, hrest⟩ := hrule
    obtain ⟨hstep, hstate⟩ := step P h o hfirst
    obtain ⟨hsteps, hend⟩ := steps P hstate os hrest
    simp only [Session.steps, Step.projectAll]
    exact ⟨by rw [hstep, hsteps], hend⟩

end

/-! ## Intermediate sessions -/

mutual

lemma instants (P : ScriptSim l rule R) {s : Session γ κ δ α ρ} {t : Session γ' κ δ' α ρ}
    (h : R s t) (o : Operation α ρ) (hrule : t.Obeys rule o) :
    List.Forall₂ R (s.instants o) (t.instants o) := by
  match o with
  | .query k gaveUp body =>
    have hend := (P.step h (.query k gaveUp body) hrule).2
    obtain ⟨henter, hbody⟩ := hrule
    rw [Session.instants, Session.instants]
    refine List.rel_append ?_ (.cons hend .nil)
    rcases answersAgree_cases (P.perform h henter) with
      ⟨f, s', t', hs, ht, -⟩ | ⟨a, a', s', t', hs, ht, hanswer, hstate⟩
    · rw [hs, ht]
      exact .nil
    · rw [ht] at hbody
      rw [hs, ht]
      cases a with
      | copy before =>
        cases a' with
        | copy before' => exact instantsOfAll P hstate body (hbody rfl).1
        | _ => cases hanswer
      | _ =>
        cases a' with
        | copy before' => cases hanswer
        | _ => exact .nil
  | .single _ | .times _ _ | .churn _ | .read _ _ _ | .refused _ =>
    simp only [Session.instants]
    exact .cons (P.step h _ hrule).2 .nil

lemma instantsOfAll (P : ScriptSim l rule R) {s : Session γ κ δ α ρ} {t : Session γ' κ δ' α ρ}
    (h : R s t) (os : List (Operation α ρ)) (hrule : t.ObeysAll rule os) :
    List.Forall₂ R (s.instantsOfAll os) (t.instantsOfAll os) := by
  match os with
  | [] =>
    simp only [Session.instantsOfAll]
    exact .nil
  | o :: os =>
    obtain ⟨hfirst, hrest⟩ := hrule
    simp only [Session.instantsOfAll]
    exact List.rel_append (instants P h o hfirst) (instantsOfAll P (P.step h o hfirst).2 os hrest)

end

end ScriptSim

end TwinCopy
