import TwinCopy.Proofs.ReadTransparency

/-!
# Scripts with additional reads

`Woven` is a script with additional reads between its operations and between those of its queries,
to any depth. `fullAll` is the script with these reads, `plainAll` the one without, and `thinAll`
drops the steps of the reads from what is recorded. At a read-transparent gate the additional reads
lead to a gate that is related to the same gates as before (`AfterReads`); a writer that waited
still waits. So the operations of the script have the same steps with the reads and without them
(`ReadSim.weaveAll`).
-/

namespace TwinCopy

variable {γ κ δ α ρ : Type}

/-! ## Woven scripts -/

/-- An operation of a script, or an additional read. -/
inductive Woven (α ρ : Type) where
  /-- an operation of the script, without additional reads -/
  | own (o : Operation α ρ)
  /-- a query of the script, with additional reads among its operations -/
  | query (k : Nat) (gaveUp : Bool) (body : List (Woven α ρ))
  /-- `n` additional reads with the slot at place `k`, which may give up -/
  | read (k n : Nat) (gaveUp : Bool)

namespace Woven

mutual

/-- The operation with the additional reads. -/
def full : Woven α ρ → Operation α ρ
  | own o => o
  | query k gaveUp body => .query k gaveUp (fullAll body)
  | read k n gaveUp => .read k n gaveUp

/-- The script with the additional reads. -/
def fullAll : List (Woven α ρ) → List (Operation α ρ)
  | [] => []
  | w :: ws => w.full :: fullAll ws

end

mutual

/-- The operation without the additional reads: none for a read that is additional itself. -/
def plain : Woven α ρ → List (Operation α ρ)
  | own o => [o]
  | query k gaveUp body => [.query k gaveUp (plainAll body)]
  | read .. => []

/-- The script without the additional reads. -/
def plainAll : List (Woven α ρ) → List (Operation α ρ)
  | [] => []
  | w :: ws => w.plain ++ plainAll ws

end

mutual

/-- Drops the steps of the additional reads from the step of an operation. -/
def thin : Woven α ρ → Step κ α ρ → List (Step κ α ρ)
  | own _, step => [step]
  | query _ _ body, .mk answer view inner finished log =>
      [.mk answer view (inner.map (thinAll body)) finished log]
  | read .., _ => []

/-- Drops the steps of the additional reads from the steps of a script. -/
def thinAll : List (Woven α ρ) → List (Step κ α ρ) → List (Step κ α ρ)
  | w :: ws, step :: steps => w.thin step ++ thinAll ws steps
  | _, _ => []

end

lemma thinAll_nil (ws : List (Woven α ρ)) : thinAll ws ([] : List (Step κ α ρ)) = [] := by
  cases ws <;> rfl

end Woven

lemma Step.projectAll_append (l : Projection) (steps others : List (Step κ α ρ)) :
    projectAll l (steps ++ others) = projectAll l steps ++ projectAll l others := by
  induction steps with
  | nil => rfl
  | cons step steps ih => simp only [List.cons_append, projectAll, ih]

namespace Session

section

variable [Gate γ κ δ]

lemma steps_append (s : Session γ κ δ α ρ) (os others : List (Operation α ρ)) :
    s.steps (os ++ others) =
      ((s.steps os).1 ++ ((s.steps os).2.steps others).1, ((s.steps os).2.steps others).2) := by
  induction os generalizing s with
  | nil => simp only [List.nil_append, steps]
  | cons o os ih => simp only [List.cons_append, steps, ih]

lemma steps_singleton (s : Session γ κ δ α ρ) (o : Operation α ρ) :
    s.steps [o] = ([(s.step o).1], (s.step o).2) := by
  simp only [steps]

end

variable [DecidableEq κ] [Gate γ κ δ]

/-! ## Slots of the additional reads -/

/-- There is a slot of the instance at this place of the table and, where readers need slots, no
reader inside has its index. -/
def Vacant (s : Session (LoggedGate γ κ) κ δ α ρ) (k : Nat) : Prop :=
  ∃ slot ∈ s.own? k,
    Gate.slotted γ = true → slot.index ∉ (Transit.inside s.inst.gate.transits).map Prod.fst

instance (s : Session (LoggedGate γ κ) κ δ α ρ) (k : Nat) : Decidable (s.Vacant k) :=
  inferInstanceAs (Decidable (∃ slot ∈ s.own? k, _ → _))

mutual

/-- Additional reads are made with vacant slots only. -/
def FreeSlots (s : Session (LoggedGate γ κ) κ δ α ρ) : Woven α ρ → Prop
  | .own _ => True
  | .query k _ body =>
      Answer.gives (s.perform (.enter k)).1 = true → (s.perform (.enter k)).2.FreeSlotsAll body
  | .read k _ _ => s.Vacant k

/-- Additional reads are made with vacant slots only, throughout the script. -/
def FreeSlotsAll (s : Session (LoggedGate γ κ) κ δ α ρ) : List (Woven α ρ) → Prop
  | [] => True
  | w :: ws => s.FreeSlots w ∧ (s.step w.full).2.FreeSlotsAll ws

end

mutual

instance decidableFreeSlots (s : Session (LoggedGate γ κ) κ δ α ρ) :
    (w : Woven α ρ) → Decidable (s.FreeSlots w)
  | .own _ => inferInstanceAs (Decidable True)
  | .query k _ body =>
      have := decidableFreeSlotsAll (s.perform (.enter k)).2 body
      inferInstanceAs (Decidable (_ → _))
  | .read k _ _ => inferInstanceAs (Decidable (s.Vacant k))

instance decidableFreeSlotsAll (s : Session (LoggedGate γ κ) κ δ α ρ) :
    (ws : List (Woven α ρ)) → Decidable (s.FreeSlotsAll ws)
  | [] => inferInstanceAs (Decidable True)
  | w :: ws =>
      have := decidableFreeSlots s w
      have := decidableFreeSlotsAll (s.step w.full).2 ws
      inferInstanceAs (Decidable (_ ∧ _))

end

/-! ## The simulation -/

variable {l : Projection} {fine : LoggedGate γ κ → Prop}
  {Rel : γ → LoggedGate γ κ → Option (Phase (δ × δ)) → Prop}
  {s : Session γ κ δ α ρ} {t t' : Session (LoggedGate γ κ) κ δ α ρ}

/-- The relation between a session without the additional reads and one with them, between two
operations. -/
structure ReadSim (l : Projection) (Rel : γ → LoggedGate γ κ → Option (Phase (δ × δ)) → Prop)
    (s : Session γ κ δ α ρ) (t : Session (LoggedGate γ κ) κ δ α ρ) : Prop where
  settled : SettledSim l Rel s t
  log : t.inst.log = []
  finished : t.inst.finished = []

/-- `t'` is `t` after some reads: they have changed the log and the gate only, and the new gate is
related to every gate to which the old one was. -/
structure AfterReads (Rel : γ → LoggedGate γ κ → Option (Phase (δ × δ)) → Prop)
    (t t' : Session (LoggedGate γ κ) κ δ α ρ) : Prop where
  frame : ∃ gate log, t' = { t with inst := { t.inst with gate, log } }
  rel : ∀ {g p}, Rel g t.inst.gate p → Rel g t'.inst.gate p
  inside : Transit.inside t'.inst.gate.transits = Transit.inside t.inst.gate.transits

omit [Gate γ κ δ] in
lemma AfterReads.refl (t : Session (LoggedGate γ κ) κ δ α ρ) : AfterReads Rel t t :=
  ⟨⟨_, _, rfl⟩, id, rfl⟩

lemma AfterReads.vacant (h : AfterReads Rel t t') {k : Nat} (hvacant : t.Vacant k) :
    t'.Vacant k := by
  obtain ⟨⟨gate, log, rfl⟩, -, hinside⟩ := h
  obtain ⟨slot, hslot, hindex⟩ := hvacant
  refine ⟨slot, hslot, ?_⟩
  rw [hinside]
  exact hindex

/-- Writers that waited still wait. -/
lemma AfterReads.still (H : ReadTransparent l fine Rel) (h : SettledSim l Rel s t)
    (hu : AfterReads Rel t t') :
    t'.inst.still = true := by
  obtain ⟨⟨gate, log, rfl⟩, hrel, -⟩ := hu
  refine Instance.still_of_blocks h.still fun r hround hheld => ?_
  obtain ⟨ph, hphase, hfound⟩ := h.exists_rel hround
  rw [hphase] at hheld ⊢
  rw [H.blocks_eq (hrel hfound), ← H.blocks_eq hfound]
  exact hheld

/-! ## One read -/

omit [DecidableEq κ] in
/-- If the writers are done or wait after a move, no steps of writers follow it. -/
lemma perform_of_still {s : Session γ κ δ α ρ} {m : Move α ρ}
    (h : (s.act m).2.inst.still = true) : s.perform m = s.act m := by
  simp only [perform, Instance.settle_of_still h]

/-- A query is refused or admitted, and no steps of writers follow. -/
lemma perform_enter (H : ReadTransparent l fine Rel) (h : SettledSim l Rel s t)
    (hu : AfterReads Rel t t')
    {k : Nat} {slot : Slot} (hslot : t'.slot? k = some slot)
    (hfine : FineAfter fine t' (.enter k)) :
    (∃ f log, t'.perform (.enter k) = (.error f, { t' with inst := { t'.inst with log } })) ∨
      ∃ ticket u a, Gate.arrive t'.inst.gate slot.index = .ok (ticket, u) ∧
        t'.perform (.enter k) = (.ok a, { t' with
          inst := { t'.inst with gate := u }
          visits := ⟨slot, ticket, Gate.side u⟩ :: t'.visits }) := by
  rcases t'.inst.enter_cases slot with ⟨m, -, henter⟩ | ⟨ticket, u, -, harrive, henter⟩
  · have hact : t'.act (.enter k) = (.error (.fault (.misuse m) none),
        { t' with inst := t'.inst.report (.misused m) }) := by
      simp only [act, hslot, henter]
    have hstill : (t'.inst.report (.misused m)).still = true := hu.still H h
    rw [perform_of_still (by rw [hact]; exact hstill), hact]
    exact .inl ⟨_, _, rfl⟩
  · set entered : Instance (LoggedGate γ κ) δ α ρ := { t'.inst with gate := u } with hentered
    have hact : t'.act (.enter k) = (.ok (.copy (entered.given ⟨slot, ticket, Gate.side u⟩)),
        { t' with
          inst := entered
          visits := ⟨slot, ticket, Gate.side u⟩ :: t'.visits }) := by
      simp only [act, hslot, henter]
    have hadmitted : fine u := by
      rw [FineAfter, perform, hact] at hfine
      exact H.backwardClosed.settle hfine
    have hstill : entered.still = true := by
      refine Instance.still_of_blocks (hu.still H h) fun r hround hheld => ?_
      obtain ⟨⟨gate, log, rfl⟩, hrel, -⟩ := hu
      obtain ⟨ph, hphase, hfound⟩ := h.exists_rel hround
      rw [hphase] at hheld ⊢
      exact H.blocks (hrel hfound) harrive hadmitted hheld
    rw [perform_of_still (by rw [hact]; exact hstill), hact]
    exact .inr ⟨ticket, u, _, harrive, rfl⟩

/-- One more read. -/
lemma AfterReads.readOnce (H : ReadTransparent l fine Rel) (h : SettledSim l Rel s t)
    (hu : AfterReads Rel t t') {k : Nat} {gaveUp : Bool} (hvacant : t.Vacant k)
    (hobeys : t'.ObeysOnce (FineAfter fine) k gaveUp) :
      AfterReads Rel t (t'.readOnce k gaveUp).2 := by
  obtain ⟨slot, hown, hindex⟩ := hu.vacant hvacant
  obtain ⟨hentered, hleft⟩ := hobeys
  have hslot : t'.slot? k = some slot := (Option.filter_eq_some_iff.1 hown).1
  rcases perform_enter H h hu hslot hentered with
    ⟨f, log', hperform⟩ | ⟨ticket, u, a, harrive, hperform⟩ <;> rw [hperform] at hleft <;>
    obtain ⟨⟨gate, log, rfl⟩, hrel, hinside⟩ := hu <;> rw [Session.readOnce, hperform]
  · exact ⟨⟨gate, log', rfl⟩, hrel, hinside⟩
  · -- the query just begun is the latest one, so it is the one that ends
    set visited : Session (LoggedGate γ κ) κ δ α ρ :=
      { t with
        inst := { t.inst with gate := u, log }
        visits := ⟨slot, ticket, Gate.side u⟩ :: t.visits } with hvisited
    have hact : (visited.act (.leave gaveUp)).2 =
        { t with inst := (visited.inst.dismiss slot ticket).2 } := rfl
    obtain ⟨log', hdismiss⟩ := visited.inst.dismiss_state slot ticket
    rw [hdismiss] at hact
    have hfine : fine (Gate.depart u slot.index ticket).2 := by
      have hend : fine (visited.act (.leave gaveUp)).2.inst.gate :=
        H.backwardClosed.settle (hleft rfl)
      rwa [hact] at hend
    have hreturned : AfterReads Rel t (visited.act (.leave gaveUp)).2 := by
      rw [hact]
      refine ⟨⟨_, _, rfl⟩, fun hfound => H.returns (hrel hfound) hindex harrive hfine, ?_⟩
      show Transit.inside (.departed slot.index ticket :: u.transits) = _
      rw [(LoggedGate.eq_of_arrive harrive).2, Transit.inside_visit]
      exact hinside
    show AfterReads Rel t (visited.perform (.leave gaveUp)).2
    rw [perform_of_still (hreturned.still H h)]
    exact hreturned

section Repeating

variable {obeys : Session (LoggedGate γ κ) κ δ α ρ → Prop}
  {act : Session (LoggedGate γ κ) κ δ α ρ →
    Except Failure (Answer κ α) × Session (LoggedGate γ κ) κ δ α ρ}

omit [Gate γ κ δ] in
/-- Some more reads, up to the first that fails. -/
lemma AfterReads.repeating (hact : ∀ {u}, AfterReads Rel t u → obeys u → AfterReads Rel t (act u).2)
    (n done : Nat) (last : Answer κ α) (hu : AfterReads Rel t t')
    (hobeys : ObeysRepeating obeys act n t') :
    AfterReads Rel t (Session.repeating act done n last t').2 := by
  induction n generalizing done last t' with
  | zero => exact hu
  | succ n ih =>
    obtain ⟨hfirst, hrest⟩ := hobeys
    have hvisited := hact hu hfirst
    unfold Session.repeating
    rcases hresult : act t' with ⟨f | a, u⟩ <;> rw [hresult] at hvisited hrest
    · cases f <;> exact hvisited
    · exact ih _ _ hvisited (hrest rfl)

omit [Gate γ κ δ] in
lemma AfterReads.repeatedly
    (hact : ∀ {u}, AfterReads Rel t u → obeys u → AfterReads Rel t (act u).2)
    (n : Nat) (hobeys : ObeysRepeating obeys act n t) :
      AfterReads Rel t (t.repeatedly n act).2 := by
  unfold Session.repeatedly
  by_cases hn : n = 1
  · subst hn
    rw [if_pos rfl]
    exact hact (.refl t) hobeys.1
  · rw [if_neg hn]
    exact .repeating hact n 0 .done (.refl t) hobeys

end Repeating

/-- After some reads, and with the outboxes emptied, the session is still related to the one without
them. -/
lemma AfterReads.readSim (hu : AfterReads Rel t t') (h : ReadSim l Rel s t)
    (H : ReadTransparent l fine Rel) :
    ReadSim l Rel s { t' with inst := { t'.inst with finished := [], log := [] } } := by
  have hstill := hu.still H h.settled
  obtain ⟨⟨gate, log, rfl⟩, hrel, -⟩ := hu
  obtain ⟨p, hsim, hheld⟩ := h.settled.sim.inst
  have hlog := hsim.obsEq.log
  have hfinished := hsim.obsEq.finished
  rw [h.log] at hlog
  rw [h.finished] at hfinished
  refine ⟨⟨{ h.settled.sim with inst := ?_ }, h.settled.style, hstill⟩, rfl, rfl⟩
  exact ⟨p, ⟨{ hsim.obsEq with log := hlog, finished := hfinished }, hrel hsim.gate⟩,
    hheld.congr rfl rfl⟩

lemma ReadSim.read (H : ReadTransparent l fine Rel) (h : ReadSim l Rel s t) {k n : Nat}
    {gaveUp : Bool} (hvacant : t.Vacant k) (hobeys : t.Obeys (FineAfter fine) (.read k n gaveUp)) :
    ReadSim l Rel s (t.step (.read k n gaveUp)).2 := by
  have hvisited : AfterReads Rel t (t.repeatedly n (·.readOnce k gaveUp)).2 :=
    .repeatedly (fun hu hobeys => hu.readOnce H h.settled hvacant hobeys) n hobeys
  simp only [Session.step]
  exact hvisited.readSim h H

/-! ## Scripts -/

/-- An operation of the script. -/
lemma ReadSim.own (H : ReadTransparent l fine Rel) (hfaithful : l.Faithful) (h : ReadSim l Rel s t)
    (o : Operation α ρ) (hobeys : t.Obeys (FineAfter fine) o) :
    (t.step o).1.project l = (s.step o).1.project l ∧ ReadSim l Rel (s.step o).2 (t.step o).2 := by
  obtain ⟨hstep, hstate⟩ := (SettledSim.scriptSim H.toGateSim hfaithful).step h.settled o hobeys
  exact ⟨hstep, hstate, (t.emptied_step o).1, (t.emptied_step o).2⟩

/-- The admission to a query reports nothing and finishes no writer. -/
lemma ReadSim.enter (H : ReadTransparent l fine Rel) (h : ReadSim l Rel s t) {k : Nat}
    {a : Answer κ α} {s' : Session γ κ δ α ρ} (hfine : FineAfter fine t (.enter k))
    (hperform : t.perform (.enter k) = (.ok a, t')) (hsettled : SettledSim l Rel s' t') :
    ReadSim l Rel s' t' := by
  rcases hslot : t.slot? k with _ | slot
  · have hrefused : (t.perform (.enter k)).1 = .error (.refused .noSuchSlot) := by
      simp only [perform, act, hslot, refuse]
    rw [hperform] at hrefused
    cases hrefused
  · rcases perform_enter H h.settled (.refl t) hslot hfine with
      ⟨f, log, hentered⟩ | ⟨ticket, u, a, -, hentered⟩ <;> cases hperform.symm.trans hentered
    exact ⟨hsettled, h.log, h.finished⟩

omit [DecidableEq κ] in
/-- The end of a query, with the additional reads dropped from its steps. -/
lemma ReadSim.close (P : ScriptSim l (FineAfter fine) (SettledSim (α := α) (ρ := ρ) l Rel))
    {r : Except Failure (Answer κ α) × Session γ κ δ α ρ}
    {r' : Except Failure (Answer κ α) × Session (LoggedGate γ κ) κ δ α ρ}
    (h : AnswersAgree l (SettledSim l Rel) r r') {k : Nat} {gaveUp : Bool} {body : List (Woven α ρ)}
    {inner inner' : List (Step κ α ρ)}
    (hinner : Step.projectAll l (Woven.thinAll body inner') = Step.projectAll l inner) :
    Step.projectAll l ((Woven.query k gaveUp body).thin (r'.2.close r'.1 (some inner')).1) =
        Step.projectAll l [(r.2.close r.1 (some inner)).1] ∧
      ReadSim l Rel (r.2.close r.1 (some inner)).2 (r'.2.close r'.1 (some inner')).2 := by
  have hthinned : (some (Woven.thinAll body inner')).map (Step.projectAll l) =
      (some inner).map (Step.projectAll l) := congrArg some hinner
  obtain ⟨hstep, hstate⟩ := P.close h hthinned
  refine ⟨?_, hstate, rfl, rfl⟩
  simp only [Session.close, Woven.thin, Option.map_some, Step.projectAll] at hstep ⊢
  rw [hstep]

mutual

/-- An operation has the same step with the additional reads and without them. -/
lemma ReadSim.weave (H : ReadTransparent l fine Rel) (hfaithful : l.Faithful)
    {s : Session γ κ δ α ρ}
    {t : Session (LoggedGate γ κ) κ δ α ρ} (h : ReadSim l Rel s t) (w : Woven α ρ)
    (hobeys : t.Obeys (FineAfter fine) w.full) (hslots : t.FreeSlots w) :
    Step.projectAll l (w.thin (t.step w.full).1) = Step.projectAll l (s.steps w.plain).1 ∧
      ReadSim l Rel (s.steps w.plain).2 (t.step w.full).2 := by
  match w with
  | .own o =>
    obtain ⟨hstep, hstate⟩ := h.own H hfaithful o hobeys
    simp only [Woven.plain, Woven.full, steps_singleton, Woven.thin, Step.projectAll]
    exact ⟨by rw [hstep], hstate⟩
  | .read k n gaveUp =>
    simp only [Woven.plain, Woven.full, Session.steps, Woven.thin, Step.projectAll]
    exact ⟨trivial, h.read H hslots hobeys⟩
  | .query k gaveUp body =>
    have P := SettledSim.scriptSim (α := α) (ρ := ρ) H.toGateSim hfaithful
    obtain ⟨henter, hbody⟩ := hobeys
    have hnone : Step.projectAll l (Woven.thinAll body ([] : List (Step κ α ρ))) =
        Step.projectAll l ([] : List (Step κ α ρ)) := by rw [Woven.thinAll_nil]
    simp only [Woven.plain, Woven.full, steps_singleton, Session.step]
    rcases ScriptSim.answersAgree_cases (P.perform h.settled henter) with
      ⟨f, s', t', hs, ht, hstate⟩ | ⟨a, a', s', t', hs, ht, hanswer, hstate⟩
    · rw [hs, ht]
      have hfailed : AnswersAgree l (SettledSim l Rel) (Except.error f, s') (Except.error f, t') :=
        ⟨rfl, hstate⟩
      exact ReadSim.close P hfailed hnone
    · have hreads := h.enter H henter ht hstate
      rw [Session.FreeSlots, ht] at hslots
      rw [ht] at hbody
      rw [hs, ht]
      have hsame : AnswersAgree l (SettledSim l Rel) (Except.ok a, s') (Except.ok a', t') :=
        ⟨congrArg Except.ok hanswer, hstate⟩
      cases a with
      | copy before =>
        cases a' with
        | copy before' =>
          cases hanswer
          obtain ⟨hbody, hleave⟩ := hbody rfl
          obtain ⟨hsteps, hend⟩ := ReadSim.weaveAll H hfaithful hreads body hbody (hslots rfl)
          exact ReadSim.close P (ScriptSim.both (P.perform hend.settled hleave) before) hsteps
        | _ => cases hanswer
      | _ =>
        -- a query that was not given a copy has no operations of its own
        cases a' with
        | copy before' => cases hanswer
        | _ => exact ReadSim.close P hsame hnone

/-- A script has the same steps with the additional reads and without them. -/
lemma ReadSim.weaveAll (H : ReadTransparent l fine Rel) (hfaithful : l.Faithful)
    {s : Session γ κ δ α ρ}
    {t : Session (LoggedGate γ κ) κ δ α ρ} (h : ReadSim l Rel s t) (ws : List (Woven α ρ))
    (hobeys : t.ObeysAll (FineAfter fine) (Woven.fullAll ws)) (hslots : t.FreeSlotsAll ws) :
    Step.projectAll l (Woven.thinAll ws (t.steps (Woven.fullAll ws)).1) =
        Step.projectAll l (s.steps (Woven.plainAll ws)).1 ∧
      ReadSim l Rel (s.steps (Woven.plainAll ws)).2 (t.steps (Woven.fullAll ws)).2 := by
  match ws with
  | [] =>
    simp only [Woven.plainAll, Woven.fullAll, Session.steps, Woven.thinAll, Step.projectAll]
    exact ⟨trivial, h⟩
  | w :: ws =>
    obtain ⟨hfirst, hrest⟩ := hobeys
    obtain ⟨hcome, hothers⟩ := hslots
    obtain ⟨hstep, hreads⟩ := ReadSim.weave H hfaithful h w hfirst hcome
    obtain ⟨hsteps, hend⟩ := ReadSim.weaveAll H hfaithful hreads ws hrest hothers
    simp only [Woven.plainAll, Woven.fullAll, Session.steps, steps_append, Woven.thinAll,
      Step.projectAll_append]
    exact ⟨by rw [hstep, hsteps], hend⟩

end

end Session

end TwinCopy
