import TwinCopy.Proofs.Scripts

/-!
# Backward closed conditions on gates

A condition on gates is `BackwardClosed` if it held before every operation of the gate after which
it holds. It can then be assumed of the last state of a pass, of a sequence of steps of the leading
writer or of a script, and it follows for all states before.
-/

namespace TwinCopy

variable {γ κ δ α ρ : Type} [Gate γ κ δ]

/-- If the condition holds after an operation of the gate, it held before. -/
structure BackwardClosed (fine : γ → Prop) : Prop where
  arrive : ∀ {g g' : γ} {index : Nat} {ticket : κ}, Gate.arrive g index = .ok (ticket, g') →
    fine g' → fine g
  depart : ∀ {g : γ} {index : Nat} {ticket : κ}, fine (Gate.depart g index ticket).2 → fine g
  turn : ∀ {g : γ}, fine (Gate.turn g).2 → fine g
  shift : ∀ {g : γ} {d : δ}, fine (Gate.shift g d) → fine g

namespace BackwardClosed

variable {fine : γ → Prop}

/-- The trivial condition is backward closed. -/
lemma always : BackwardClosed fun _ : γ => True :=
  ⟨fun _ => id, id, id, id⟩

/-! ## Writers -/

/-- A read within an application is at most one arrival and the departure that matches it. -/
lemma look (L : BackwardClosed fine) {s : Instance γ δ α ρ} {r : Request α ρ} {gate : γ}
    {registry : Registry} {note : Writer α → Writer α} (h : s.Look r gate registry note)
    (hfine : fine gate) : fine s.gate := by
  rcases h.gate with rfl | ⟨-, slot, ticket, entered, -, harrive, rfl⟩
  · exact hfine
  · exact L.arrive harrive (L.depart hfine)

lemma pass (L : BackwardClosed fine) (batch : Batch α ρ) (s : Instance γ δ α ρ)
    (side : Side) (n : Nat) (hfine : fine (s.pass side n batch).2.gate) : fine s.gate := by
  induction batch generalizing s with
  | nil => exact hfine
  | cons x batch ih =>
    rw [Instance.pass_cons] at hfine
    rcases hx : s.pass side n [x] with ⟨f | ⟨⟨⟩⟩, t⟩ <;> rw [hx] at hfine
    · obtain ⟨registry, note, hlook⟩ := Instance.pass_look hx
      exact L.look hlook hfine
    · obtain ⟨registry, note, hlook⟩ := Instance.pass_look hx
      exact L.look hlook (ih t hfine)

lemma stepped (L : BackwardClosed fine) {s t : Instance γ δ α ρ} {c c' : Control δ α ρ}
    {actions : History γ κ δ α ρ} (h : Instance.Stepped s c actions t c') (hfine : fine t.gate) :
    fine s.gate := by
  cases h with
  | apply h =>
    obtain ⟨registry, note, hlook⟩ := Instance.pass_look h
    exact L.look hlook hfine
  | giveUp h =>
    obtain ⟨registry, note, hlook⟩ := Instance.pass_look h
    rw [Instance.gate_abandon] at hfine
    exact L.look hlook hfine
  | turn => exact L.turn hfine
  | shift => exact L.shift hfine
  | complete => rwa [Instance.gate_complete] at hfine
  | surplus h => rwa [Instance.gate_abandon] at hfine
  | _ => exact hfine

lemma leads (L : BackwardClosed fine) {s t : Instance γ δ α ρ} {c c' : Control δ α ρ}
    (h : Instance.Leads s c t c') (hfine : fine t.gate) : fine s.gate := by
  induction h with
  | refl => exact hfine
  | step _ ih => exact L.stepped (Instance.stepped_advance _ _) (ih hfine)

lemma elect (L : BackwardClosed fine) {s : Instance γ δ α ρ} (hfine : fine s.elect.gate) :
    fine s.gate := by
  by_cases hidle : s.published = [] ∨ s.lock.locked = true
  · rwa [Instance.elect_of_idle hidle] at hfine
  · obtain ⟨hpublished, hlock⟩ := not_or.1 hidle
    rw [Instance.elect_of_free hpublished (by simpa using hlock)] at hfine
    have hbegun :=
      Instance.leads_begin { s with lock := { s.lock with locked := true } } s.published
    have hmid := L.leads hbegun hfine
    exact hmid

lemma settle (L : BackwardClosed fine) {s : Instance γ δ α ρ} (hfine : fine s.settle.gate) :
    fine s.gate := by
  unfold Instance.settle at hfine
  split at hfine
  · exact hfine
  · exact L.leads s.leads_resume (L.elect hfine)

/-! ## Sessions -/

lemma moved (L : BackwardClosed fine) {s s' : Session γ κ δ α ρ} {m : Move α ρ}
    {r : Except Failure (Answer κ α)} (h : s.Moved m r s') (hfine : fine s'.inst.gate) :
    fine s.inst.gate := by
  have hdeparted : ∀ {g : γ} {e : Except Misuse (List Event)} {index : Nat} {ticket : κ},
      Gate.depart s.inst.gate index ticket = (e, g) → fine g → fine s.inst.gate := by
    intro g e index ticket hdepart hg
    have hleft : fine (Gate.depart s.inst.gate index ticket).2 := by rwa [hdepart]
    exact L.depart hleft
  cases h with
  | arrived _ _ _ harrive => exact L.arrive harrive hfine
  | entered _ _ harrive => exact L.arrive harrive hfine
  | departed _ _ _ hdepart => exact hdeparted hdepart hfine
  | departFailed _ _ _ hdepart => exact hdeparted hdepart hfine
  | left _ hdepart => exact hdeparted hdepart hfine
  | leaveFailed _ hdepart => exact hdeparted hdepart hfine
  | _ => exact hfine

lemma reaches (L : BackwardClosed fine) {allowed : Move α ρ → Prop} {s t : Session γ κ δ α ρ}
    (h : s.Reaches allowed t) (hs : s.Exclusive .resting) (hfine : fine t.inst.gate) :
    fine s.inst.gate := by
  obtain ⟨ticks, history, -, hafter⟩ := h hs []
  have hkept : fine ((Point.mk [] s .resting).after ticks).inst.gate → fine s.inst.gate :=
    Point.after_induction (P := fun p : Point γ κ δ α ρ => fine p.inst.gate → fine s.inst.gate)
      id fun p tick _ hp hnext => by
        cases tick with
        | caller m => exact hp (L.moved (p.session.moved_act m) hnext)
        | writer => exact hp (L.stepped (p.inst.stepped_advance p.control) hnext)
        | outbox => exact hp hnext
  rw [hafter] at hkept
  exact hkept hfine

end BackwardClosed

/-- The lock discipline is preserved by every schedule that leads from one session to another. -/
lemma Session.Reaches.exclusive {allowed : Move α ρ → Prop} {s t : Session γ κ δ α ρ}
    (h : s.Reaches allowed t) (hs : s.Exclusive .resting) : t.Exclusive .resting := by
  obtain ⟨ticks, history, -, hafter⟩ := h hs []
  have hexclusive := Point.exclusive_after (p := ⟨[], s, .resting⟩) hs ticks
  rwa [hafter] at hexclusive

end TwinCopy
