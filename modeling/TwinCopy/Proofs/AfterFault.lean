import TwinCopy.Proofs.Waiting
import TwinCopy.Proofs.Withdrawal

/-!
# Faults of exclusive writers

Under the exclusive style a mutation may end in a fault in either application, after any change. The
writer then answers with the fault, and the instance is usable as before: no writer is inside, the
lock is free, and the next writer takes it at once.

The remaining effect depends on the application. After a fault in the first one readers are given
the same copy as before, and only the other copy may have changed. After a fault in the second one
the side has been turned, the readers that the writer waited for are gone, and readers are given the
copy with the whole first application. `giving_up_leaves_a_frame` states this for all three gates.
-/

namespace TwinCopy

variable {γ κ δ α ρ : Type}

/-! ## Tickets in a round -/

/-- The status of the ticket `v`, current before a round, at a stage of the round: it is still
current, or the writer waits for the readers that have it, or it is no longer current. -/
def Control.Outdates (current : γ → κ) (old : δ → κ) (v : κ) (g : γ) : Control δ α ρ → Prop
  | .resting => True
  | .passing .first .. => current g = v
  | .waiting r => old r.phase.awaited = v
  | .passing .second .. => current g ≠ v

lemma Control.Outdates.congr {current : γ → κ} {old : δ → κ} {v : κ} {g g' : γ} {c : Control δ α ρ}
    (h : c.Outdates current old v g) (hcurrent : current g' = current g) :
    c.Outdates current old v g' := by
  match c with
  | .resting => trivial
  | .passing .first .. => exact hcurrent.trans h
  | .waiting r => exact h
  | .passing .second .. => exact fun heq => h (hcurrent.symm.trans heq)

variable [Gate γ κ δ]

section

variable [DecidableEq κ] {current : γ → κ} {old : δ → κ} {limit : List κ → Nat → Prop}
  {Knows : γ → Option (Phase δ) → List (Nat × κ) → Nat → Prop}

lemma Control.Outdates.staged (T : GateInv current old limit Knows) {s : Session γ κ δ α ρ}
    {h : History γ κ δ α ρ} {c c' : Control δ α ρ} {actions : History γ κ δ α ρ}
    {inst : Instance γ δ α ρ} {v : κ} (hstaged : Instance.Staged s.inst c actions inst c')
    (htask : c.task? ≠ none) (htask' : c'.task? ≠ none) (hs : ReadersKnown Knows s h c)
    (hwithin : History.Within limit (actions ++ h)) (hv : c.Outdates current old v s.inst.gate) :
    c'.Outdates current old v inst.gate := by
  have hknows := hs.knows
  cases hstaged with
  | quiet => exact hv
  | elect => exact absurd rfl htask
  | giveUp | complete | surplus => exact absurd rfl htask'
  | @apply _ p done rest side x hpass =>
    obtain ⟨registry, note, hlook⟩ := Instance.pass_look hpass
    obtain ⟨-, -, hcurrent⟩ := hs.look T hlook hwithin
    have hsame : (Control.passing p (done ++ [x]) rest side : Control δ α ρ).Outdates current old v
        s.inst.gate := by cases p <;> exact hv
    exact hsame.congr hcurrent
  | turn =>
    obtain ⟨-, hold, -⟩ := T.turn hknows
    exact hold.trans hv
  | shift => exact hv
  | clear => exact fun heq => T.current_ne hknows (heq.trans (Eq.symm hv))

end

/-! ## The end of the round -/

/-- The next writer takes the lock at once, and begins with the copies as they are. -/
def Point.Ready (q : Point γ κ δ α ρ) : Prop :=
  ∀ k mutation observed,
    let p := (q.next (.caller (.mutate k mutation observed))).next .writer
    (q.session.act (.mutate k mutation observed)).1 = .ok (.writer q.session.started) ∧
      p.control =
        .passing .first [] [(0, ⟨q.session.started, mutation, observed⟩)] q.inst.activeSide ∧
      p.inst.copies = q.inst.copies

/-- The effect of a mutation that ends in a fault with this message; `p` is the point before and `q`
the one after. -/
structure AfterFault (message : String) (r : Request α ρ) (p q : Point γ κ δ α ρ) : Prop where
  answered : q.inst.finished.map Finished.answer =
    (r.writer, .error (.raised message)) :: p.inst.finished.map Finished.answer
  free : q.inst.lock.locked = false
  idle : q.task? = none
  writers_nil : q.inst.writers = []
  /-- the gate is as after the read, if any, that the mutation made -/
  gate : q.inst.gate = (p.inst.looked r).gate
  ready : q.Ready

/-- If no writer is inside the next one is ready to begin. -/
lemma Point.ready_of_free {q : Point γ κ δ α ρ} (hstyle : q.inst.style = .exclusive)
    (hlength : q.inst.cells.length = 1) (hwriters : q.inst.writers = [])
    (hcontrol : q.control = .resting) (hround : q.inst.round = none)
    (hfree : q.inst.lock.locked = false) : q.Ready := by
  intro k mutation observed p
  obtain ⟨c, hcells⟩ := List.length_eq_one_iff.1 hlength
  set r : Request α ρ := ⟨q.session.started, mutation, observed⟩
  have hact : q.session.act (.mutate k mutation observed) =
      (.ok (.writer q.session.started),
        { q.session with inst := q.inst.publish 0 r, started := q.session.started + 1 }) := by
    rw [Session.mutate_of_style hstyle]
    exact if_pos (by rw [show q.session.inst.writers = [] from hwriters]; rfl)
  have hpublished : (q.inst.publish 0 r).published = [(0, r)] := by
    simp [Instance.published, Instance.publish, Instance.modifyCell, hcells]
  have hstep := (Instance.Stepped.elect (s := q.inst.publish 0 r) hround
    (by rw [hpublished]; exact List.cons_ne_nil _ _) hfree).eq
  rw [hpublished] at hstep
  have hp : p = (q.next (.caller (.mutate k mutation observed))).next .writer := rfl
  simp only [Point.inst] at hstep
  simp only [Point.next, Point.inst, hact, hcontrol, hstep] at hp
  refine ⟨by rw [hact], ?_, ?_⟩
  · rw [hp]
    rfl
  · rw [hp]
    rfl

section

variable {p : Point γ κ δ α ρ} {pass : Pass} {done rest : Batch α ρ}
  {x : Nat × Request α ρ} {old : Side} {message : String}

/-- There is one cell, so that a batch is a single request. -/
lemma Queued.batch_singleton (hq : Queued p.session p.history p.task?)
    (hstyle : p.inst.style = .exclusive)
    (hcontrol : p.control = .passing pass done (x :: rest) old) : done = [] ∧ rest = [] := by
  have htask : p.task? = some ⟨pass, done, x :: rest, old⟩ := Point.task?_of_passing hcontrol
  have hlength := (htask ▸ hq.cellInv).length_batch_le
  have hone : p.session.inst.cells.length = 1 := hq.room.exclusive hstyle
  simp only [hone, Task.batch, List.length_append, List.length_cons] at hlength
  constructor
  · exact List.length_eq_zero_iff.1 (by omega)
  · exact List.length_eq_zero_iff.1 (by omega)

lemma Queued.afterFault (hq : Queued p.session p.history p.task?)
    (hq' : Queued (p.next .writer).session (p.next .writer).history (p.next .writer).task?)
    (hp : p.session.Exclusive p.control) (hstyle : p.inst.style = .exclusive)
    (hcontrol : p.control = .passing pass [] [x] old)
    (hraised : (x.2.mutation.apply pass.application
      (p.inst.copies.get (pass.target old))).outcome = .error message) :
    AfterFault message x.2 p (p.next .writer) ∧
      (p.next .writer).inst.copies = p.inst.copies.set (pass.target old)
        (x.2.mutation.apply pass.application (p.inst.copies.get (pass.target old))).copy ∧
      (p.next .writer).inst.mutations = p.inst.mutations ∧
      (p.next .writer).inst.batches = p.inst.batches := by
  obtain ⟨t, hpass, hnext⟩ := next_of_raised hcontrol hraised
  have htask : p.task? = some ⟨pass, [], [x], old⟩ := Point.task?_of_passing hcontrol
  have hd : CellInv p.inst.cells p.inst.writers p.session.started _ := htask ▸ hq.cellInv
  obtain ⟨hcontrol', hround', hfree, hidle⟩ := rests_of_raised hp hcontrol hraised
  obtain ⟨registry, cells, log, gone, note, hspec, hnote, -, hgone⟩ :=
    Instance.giveUp_spec hd hpass
  have hinst : (p.next .writer).inst = t.abandon ([] ++ [x]) (.raised message) := by
    rw [hnext]
    rfl
  rw [hspec] at hinst
  have hstyle' : (p.next .writer).inst.style = .exclusive := by
    rw [hinst]
    exact hstyle
  -- the only cell is that of the writer, so no other one is inside
  have hone : p.inst.cells.length = 1 := hq.room.exclusive hstyle
  have hwriters : (p.next .writer).inst.writers = [] := by
    rw [hinst]
    refine List.filter_eq_nil_iff.2 fun w hw => ?_
    obtain ⟨v, hv, rfl⟩ := List.mem_map.1 hw
    have hcell := hd.lt_length hv
    have hx := Instance.length_cells_of_request (hd.batch _ rfl x (by simp [Task.batch]))
    rw [(hnote v).2.1]
    simp only [List.nil_append, List.map_singleton, List.mem_singleton, decide_eq_true_eq, not_not]
    omega
  refine ⟨⟨?_, hfree, hidle, hwriters, by rw [hinst], ?_⟩, by rw [hinst], ?_⟩
  · rw [hinst, List.map_append, List.perm_singleton.1 hgone]
    rfl
  · exact Point.ready_of_free hstyle' (hq'.room.exclusive hstyle') hwriters hcontrol' hround' hfree
  · rw [hinst]
    exact ⟨rfl, rfl⟩

end

/-! ## Until the next batch -/

variable [DecidableEq κ]

/-- Until a batch is taken the copies and the side do not change, and readers are given the copy on
the active side. -/
def Point.Unchanged (fits : History γ κ δ α ρ → Prop) (q : Point γ κ δ α ρ) : Prop :=
  ∀ later,
    let p := q.after later
    p.history.Matched → fits p.history → p.history.taken = q.history.taken →
      p.inst.copies = q.inst.copies ∧ p.inst.activeSide = q.inst.activeSide ∧
        ∀ k a, fits (p.next (.caller (.enter k))).history →
          (p.session.act (.enter k)).1 = .ok (.copy a) →
            a = q.inst.copies.get q.inst.activeSide

/-- The sides, the tickets and the copies after a mutation has ended in a fault; its round began at
`p₀`, and `p` and `q` are the points before and after the fault. There are two tickets, so that one
which is no longer current has changed exactly once. -/
def Framed (current : γ → κ) (Vacant : γ → List κ → κ → Prop) (r : Request α ρ)
    (p₀ p q : Point γ κ δ α ρ) : Pass → Prop
  | .first =>
      let active := p.inst.activeSide
      q.inst.activeSide = active ∧ current q.inst.gate = current p.inst.gate ∧
        q.inst.copies.get active = p.inst.copies.get active ∧
        q.inst.copies.get active.opposite =
          (r.mutation.apply 1 (p.inst.copies.get active.opposite)).copy
  | .second =>
      let active := p₀.inst.activeSide
      q.inst.activeSide = active.opposite ∧ current q.inst.gate ≠ current p₀.inst.gate ∧
        Vacant q.inst.gate ((q.session.inside q.history).map Prod.snd) (current p₀.inst.gate) ∧
        (∃ output, (r.mutation.apply 1 (p₀.inst.copies.get active.opposite)).outcome = .ok output) ∧
        q.inst.copies.get active.opposite =
          (r.mutation.apply 1 (p₀.inst.copies.get active.opposite)).copy ∧
        q.inst.copies.get active = (r.mutation.apply 2 (p₀.inst.copies.get active)).copy

/-- Whenever a mutation ends in a fault, the instance is usable as before, and the remaining effect
of the mutation is known. Every script is a schedule. -/
def Session.Usable (current : γ → κ) (Vacant : γ → List κ → κ → Prop)
    (fits : History γ κ δ α ρ → Prop) (s : Session γ κ δ α ρ) : Prop :=
  (∀ ticks pass done x rest old message,
    let p := (Point.start s).after ticks
    let q := p.next .writer
    p.control = .passing pass done (x :: rest) old →
    (x.2.mutation.apply pass.application (p.inst.copies.get (pass.target old))).outcome =
      .error message →
    q.history.Matched → fits q.history →
      AfterFault message x.2 p q ∧ q.Unchanged fits ∧
      ∃ before mid, ticks = before ++ .writer :: mid ∧
        let p₀ := (Point.start s).after before
        (p₀.next .writer).history = .took [x] :: p₀.history ∧
          (q.inst.mutations = p₀.inst.mutations ∧ q.inst.batches = p₀.inst.batches) ∧
          Framed current Vacant x.2 p₀ p q pass) ∧
    ∀ script, ∃ ticks, s.IsScheduleOf script ticks

section

variable {current : γ → κ} {old : δ → κ} {limit : List κ → Nat → Prop}
  {Knows : γ → Option (Phase δ) → List (Nat × κ) → Nat → Prop}

/-- What holds of a session since a point at which no round was under way. -/
structure SinceRest (Knows : γ → Option (Phase δ) → List (Nat × κ) → Nat → Prop)
    (limit : List κ → Nat → Prop) (q : Point γ κ δ α ρ) (s : Session γ κ δ α ρ)
    (h : History γ κ δ α ρ) (c : Control δ α ρ) : Prop where
  more : ∃ batches, h.taken = q.history.taken ++ batches
  readersKnown : h.Matched → h.Within limit → ReadersKnown Knows s h c
  same : h.Matched → h.Within limit → h.taken = q.history.taken →
    c = .resting ∧ s.inst.copies = q.inst.copies ∧ s.inst.activeSide = q.inst.activeSide

namespace SinceRest

variable {q : Point γ κ δ α ρ} {s s' : Session γ κ δ α ρ} {h : History γ κ δ α ρ}
  {c c' : Control δ α ρ}

lemma moved (T : GateInv current old limit Knows) (hs : SinceRest Knows limit q s h c)
    {m : Move α ρ}
    {r : Except Failure (Answer κ α)} (hact : s.act m = (r, s')) (hm : s.Moved m r s') :
    SinceRest Knows limit q s' (.moved s m :: h) c where
  more := by simpa [Action.batchTaken] using hs.more
  readersKnown hmatched hwithin :=
    (hs.readersKnown hmatched.1 hwithin.1).moved T hact hmatched hwithin
  same hmatched hwithin htaken := by
    have hbefore : h.taken = q.history.taken := by simpa [Action.batchTaken] using htaken
    obtain ⟨hresting, hcopies, hside⟩ := hs.same hmatched.1 hwithin.1 hbefore
    have hc := s.crossed_act m
    rw [hact] at hc
    obtain ⟨-, hkept, -⟩ := (hs.readersKnown hmatched.1 hwithin.1).crossed T hc hmatched hwithin
    exact ⟨hresting, hm.copies_eq.trans hcopies, hkept.trans hside⟩

lemma staged (T : GateInv current old limit Knows) (hs : SinceRest Knows limit q s h c)
    {actions : History γ κ δ α ρ} {inst : Instance γ δ α ρ}
    (hstaged : Instance.Staged s.inst c actions inst c') :
    SinceRest Knows limit q { s with inst } (actions ++ h) c' where
  more := by
    obtain ⟨batches, hmore⟩ := hs.more
    cases hstaged with
    | @elect hpublished =>
      refine ⟨batches ++ [s.inst.published], ?_⟩
      simp [Action.batchTaken, hmore]
    | _ => exact ⟨batches, by simpa [Action.batchTaken] using hmore⟩
  readersKnown hmatched hwithin :=
    (hs.readersKnown hmatched.of_append hwithin.of_append).staged T hstaged hwithin
  same hmatched hwithin htaken := by
    obtain ⟨batches, hmore⟩ := hs.more
    have hsame := hs.same hmatched.of_append hwithin.of_append
    -- all other steps are made in the course of a round
    cases hstaged with
    | quiet => exact hsame htaken
    | elect =>
      have hlength := congrArg List.length htaken
      simp only [List.singleton_append, History.taken_cons, Action.batchTaken, hmore,
        List.length_append, List.length_singleton] at hlength
      omega
    | apply | giveUp | turn | shift | clear | complete | surplus =>
      cases (hsame (by simpa [Action.batchTaken] using htaken)).1

lemma emptied (hs : SinceRest Knows limit q s h c) :
    SinceRest Knows limit q { s with inst := { s.inst with finished := [], log := [] } }
      (.emptied s.inst.finished s.inst.log :: h) c where
  more := by simpa [Action.batchTaken] using hs.more
  readersKnown hmatched hwithin := (hs.readersKnown hmatched.1 hwithin.1).emptied _ _
  same hmatched hwithin htaken :=
    hs.same hmatched.1 hwithin.1 (by simpa [Action.batchTaken] using htaken)

end SinceRest

/-- Without a round under way the copies do not change until a batch is taken. -/
lemma Point.unchanged (T : GateInv current old limit Knows) {q : Point γ κ δ α ρ}
    (hq : q.session.Exclusive q.control) (hstage : q.stage = .resting)
    (hreadersKnown : q.history.Matched → q.history.Within limit →
      ReadersKnown Knows q.session q.history q.stage)
    {fits : History γ κ δ α ρ → Prop} (hfits : ∀ h, fits h → h.Within limit) :
      q.Unchanged fits := by
  intro later p hmatched hp htaken
  have hstart : SinceRest Knows limit q q.session q.history q.stage :=
    ⟨⟨[], (List.append_nil _).symm⟩, hreadersKnown, fun _ _ _ => ⟨hstage, rfl, rfl⟩⟩
  have hsinceRest : SinceRest Knows limit q p.session p.history p.stage :=
    Point.stage_after (fun _ hact hm hs => hs.moved T hact hm)
      (fun hstaged hs => hs.staged T hstaged)
      (fun hs => hs.emptied) hq hstart
  obtain ⟨-, hcopies, hside⟩ := hsinceRest.same hmatched (hfits _ hp) htaken
  refine ⟨hcopies, hside, fun k a hnext hgiven => ?_⟩
  have hmoved := p.session.moved_act (.enter k)
  have hmatched' : History.Matched (.moved p.session (.enter k) :: p.history) :=
    ⟨hmatched, p.session.covered_enter k _⟩
  obtain ⟨-, hkept, -⟩ := (hsinceRest.readersKnown hmatched (hfits _ hp)).crossed T
    (p.session.crossed_act (.enter k)) hmatched' (hfits _ hnext)
  rw [hgiven] at hmoved
  generalize (p.session.act (.enter k)).2 = t at hmoved hkept
  cases hmoved with
  | looked _ hlook => cases hlook
  | entered hslot hissuer harrive =>
    have hentered : Gate.side _ = q.inst.activeSide := hkept.trans hside
    rw [hentered]
    exact congrArg (Copies.get · q.inst.activeSide) hcopies

/-- A round under way began at some point, and the gate outdates the ticket that was current
then. -/
lemma exists_outdated (T : GateInv current old limit Knows) {s : Session γ κ δ α ρ}
    (hs : s.Exclusive .resting) (hround : s.inst.round = none)
    (hreadersKnown : ∀ ticks, let p := (Point.start s).after ticks
      p.history.Matched → p.history.Within limit → ReadersKnown Knows p.session p.history p.stage)
    (ticks : List (Tick α ρ)) :
    let p := (Point.start s).after ticks
    ∀ u ∈ p.stage.task?, ∃ before mid, ticks = before ++ .writer :: mid ∧
      let p₀ := (Point.start s).after before
      Since p₀ p.inst p.history u ∧ (p.history.Matched → p.history.Within limit →
        p.stage.Outdates current old (current p₀.inst.gate) p.inst.gate) := by
  refine exists_since (Q := fun s h c => h.Matched → h.Within limit → ReadersKnown Knows s h c)
    (P := fun p₀ s h c => h.Matched → h.Within limit →
      c.Outdates current old (current p₀.inst.gate) s.inst.gate)
    hs hround hreadersKnown (fun _ _ _ _ => rfl) ?_ ?_ ?_ ticks
  · intro p₀ s h c m hknown hoff hmatched hwithin
    obtain ⟨-, -, hcurrent⟩ := (hknown hmatched.1 hwithin.1).crossed T (s.crossed_act m) hmatched
      hwithin
    exact (hoff hmatched.1 hwithin.1).congr hcurrent
  · intro p₀ s h c actions inst c' hstaged htask htask' hknown hoff hmatched hwithin
    exact (hoff hmatched.of_append hwithin.of_append).staged T hstaged htask htask'
      (hknown hmatched.of_append hwithin.of_append) hwithin
  · intro p₀ s h c hoff hmatched hwithin
    exact hoff hmatched.1 hwithin.1

/-- An application that ends in a fault may have made a read, and leaves the side and the current
ticket unchanged. -/
lemma ReadersKnown.unchanged_of_raised (T : GateInv current old limit Knows) {p : Point γ κ δ α ρ}
    {pass : Pass} {done rest : Batch α ρ} {x : Nat × Request α ρ} {side : Side} {message : String}
    (hreadersKnown : ReadersKnown Knows p.session p.history p.stage)
    (hcontrol : p.control = .passing pass done (x :: rest) side)
    (hraised : (x.2.mutation.apply pass.application
      (p.inst.copies.get (pass.target side))).outcome = .error message)
    (hwithin : (p.next .writer).history.Within limit) :
    (p.next .writer).inst.activeSide = p.inst.activeSide ∧
      current (p.next .writer).inst.gate = current p.inst.gate := by
  obtain ⟨t, hpass, hnext⟩ := next_of_raised hcontrol hraised
  have hstage : p.stage = .passing pass done (x :: rest) side := Point.stage_of_passing hcontrol
  rw [hstage] at hreadersKnown
  obtain ⟨registry, note, hlook⟩ := Instance.pass_look hpass
  have hwithin' :
      History.Within limit (.applied p.inst (pass.target side) pass x.2 :: p.history) := by
    rw [hnext] at hwithin
    exact hwithin.1
  obtain ⟨-, hkept, hcurrent⟩ := hreadersKnown.look T hlook hwithin'
  have hgate : (p.next .writer).inst.gate = t.gate := by
    rw [hnext]
    exact Instance.gate_abandon _ _ _
  change Gate.side (p.next .writer).inst.gate = _ ∧ _
  rw [hgate]
  exact ⟨hkept, hcurrent⟩

/-- The effect of a mutation that ends in a fault, over a gate with `GateInv`. -/
lemma framed_of_since (T : GateInv current old limit Knows) {p₀ p : Point γ κ δ α ρ} {pass : Pass}
    {x : Nat × Request α ρ} {side : Side} {message : String}
    (hb : Since p₀ p.inst p.history ⟨pass, [], [x], side⟩)
    (hcontrol : p.control = .passing pass [] [x] side)
    (hraised : (x.2.mutation.apply pass.application
      (p.inst.copies.get (pass.target side))).outcome = .error message)
    (hcopies : (p.next .writer).inst.copies = p.inst.copies.set (pass.target side)
      (x.2.mutation.apply pass.application (p.inst.copies.get (pass.target side))).copy)
    (hoff : p.stage.Outdates current old (current p₀.inst.gate) p.inst.gate)
    (hreadersKnown : ReadersKnown Knows p.session p.history p.stage)
    (hreadersKnown' : ReadersKnown Knows (p.next .writer).session (p.next .writer).history .resting)
    (hwithin : (p.next .writer).history.Within limit)
    {Vacant : γ → List κ → κ → Prop}
    (hvacant : ∀ {g readers n v}, Knows g none readers n → current g ≠ v →
      Vacant g (readers.map Prod.snd) v) :
    Framed current Vacant x.2 p₀ p (p.next .writer) pass := by
  obtain ⟨hactive, hsame⟩ := hreadersKnown.unchanged_of_raised T hcontrol hraised hwithin
  have hstage : p.stage = .passing pass [] [x] side := Point.stage_of_passing hcontrol
  rw [hstage] at hoff hreadersKnown
  have htarget : pass.target side = p.inst.activeSide.opposite := hreadersKnown.target _ rfl
  have hother : (p.next .writer).inst.copies.get (pass.target side).opposite =
      p.inst.copies.get (pass.target side).opposite := by
    rw [hcopies]
    exact Copies.get_set_opposite _ _ _
  have hchanged : (p.next .writer).inst.copies.get (pass.target side) = _ :=
    (congrArg (Copies.get · (pass.target side)) hcopies).trans (Copies.get_set_same _ _ _)
  cases pass with
  | first =>
    rw [htarget] at hother hchanged
    rw [Side.opposite_opposite] at hother
    exact ⟨hactive, hsame, hother, hchanged⟩
  | second =>
    -- the side has turned since the round began, and new readers get the other ticket
    have hold : side = p₀.inst.activeSide := hb.old
    have hturned : p.inst.activeSide = p₀.inst.activeSide.opposite := by
      have hopposite : side = p.inst.activeSide.opposite := htarget
      rw [← hold, hopposite, Side.opposite_opposite]
    have hne : current (p.next .writer).inst.gate ≠ current p₀.inst.gate := by
      rw [hsame]
      exact hoff
    have hcleared := hvacant hreadersKnown'.knows hne
    rw [Session.map_snd_indices] at hcleared
    have hinactive := hb.inactive
    have hreturned := hb.returned
    have hbefore := hb.active (.inr rfl)
    simp only [Task.served, Task.batch, List.nil_append, List.map_singleton] at hinactive hreturned
    simp only [Pass.target] at hother hchanged
    rw [hold] at hinactive hreturned hbefore hother hchanged
    refine ⟨hactive.trans hturned, hne, hcleared, hreturned.1, hother.trans hinactive, ?_⟩
    rw [hchanged, hbefore]
    rfl

/-- Over a gate with `GateInv`, an instance with exclusive writers stays usable. -/
theorem usable_of_gateInv (T : GateInv current old limit Knows) {copies : Copies α} {gate : γ}
    {registry : Registry} {wait : WaitPolicy} (hknows : Knows gate none [] 0)
    {fits : History γ κ δ α ρ → Prop} (hfits : ∀ h, fits h → h.Within limit)
    {Vacant : γ → List κ → κ → Prop}
    (hvacant : ∀ {g readers n v}, Knows g none readers n → current g ≠ v →
      Vacant g (readers.map Prod.snd) v) :
    (Session.ofInstance (.fresh .exclusive copies gate registry 1 wait) :
      Session γ κ δ α ρ).Usable current Vacant fits := by
  set s : Session γ κ δ α ρ := .ofInstance (.fresh .exclusive copies gate registry 1 wait)
  have hs : s.Exclusive .resting := Session.exclusive_fresh _ _ _ _ _ _
  have hqueued := queued_after (α := α) (ρ := ρ)
    (Session.enoughCells_exclusive copies gate registry wait)
  have hreadersKnown := readersKnown_after T hs (.start rfl rfl hknows)
  refine ⟨?_, Session.exists_isScheduleOf hs rfl⟩
  intro ticks pass done x rest side message p q hcontrol hraised hmatched hq
  have hexclusive : p.session.Exclusive p.control := Point.exclusive_after hs ticks
  have hstyle : p.inst.style = .exclusive := Point.style_after (p := .start s) hs ticks
  have hlast : (Point.start s).after (ticks ++ [.writer]) = q := Point.after_append _ _ _
  have hqueued' := hqueued (ticks ++ [.writer])
  have hreadersKnown' := hreadersKnown (ticks ++ [.writer])
  rw [hlast] at hqueued' hreadersKnown'
  -- with exclusive writers a batch is a single request
  obtain ⟨rfl, rfl⟩ := (hqueued ticks).batch_singleton hstyle hcontrol
  obtain ⟨hafterFault, hcopies, hcounts⟩ :=
    (hqueued ticks).afterFault hqueued' hexclusive hstyle hcontrol hraised
  have hidle : q.stage = .resting := by
    have htask := hafterFault.idle
    rw [Point.task?, Instance.task?_eq] at htask
    exact Control.task?_eq_none.1 htask
  have hwithin := hfits _ hq
  obtain ⟨actions, hactions⟩ : ∃ actions, q.history = actions ++ p.history := p.history_next .writer
  have hmatched₀ : p.history.Matched := by
    rw [hactions] at hmatched
    exact hmatched.of_append
  have hwithin₀ : p.history.Within limit := by
    rw [hactions] at hwithin
    exact hwithin.of_append
  have htask : ⟨pass, [], [x], side⟩ ∈ p.stage.task? := by
    rw [Point.stage_of_passing hcontrol]
    rfl
  obtain ⟨before, mid, hticks, hsince, hoff⟩ := exists_outdated T hs rfl hreadersKnown ticks _ htask
  refine ⟨hafterFault, Point.unchanged T (Point.exclusive_next hexclusive .writer) hidle
    hreadersKnown' hfits, before, mid, hticks, hsince.took, ?_, ?_⟩
  · exact ⟨hcounts.1.trans hsince.counts.1, hcounts.2.trans hsince.counts.2⟩
  · refine framed_of_since T hsince hcontrol hraised hcopies (hoff hmatched₀ hwithin₀)
      (hreadersKnown ticks hmatched₀ hwithin₀) ?_ hwithin hvacant
    rw [← hidle]
    exact hreadersKnown' hmatched hwithin

end

/-! ## The three gates -/

/-- Whenever the mutation of an exclusive writer ends in a fault, in either application and after
any change, the instance is usable as before, and the remaining effect of the mutation is known.
This holds over two read-indicators of every kind, without a limit; over a word with versions while
no version has `2 ^ 30` readers at once; and over a word without versions while no more than
`2 ^ 19` readers are in flight. That the readers are gone is stated by the read-indicator, the
counter, or the history. -/
theorem giving_up_leaves_a_frame (c : Config) (init : Copies α) :
    (∀ kind, (Session.ofInstance (.classic kind c init) :
      Session Versioned Version Version α ρ).Usable Versioned.current
        (fun g _ v => (g.readers v).isEmpty = true) fun _ => True) ∧
    (Session.ofInstance (.versionedWord c init) :
      Session VersionedWord Version Version α ρ).Usable VersionedWord.current
        (fun g tickets v => g.readers v = 0 ∧ v ∉ tickets) (·.Within VersionedWord.Limit) ∧
    (Session.ofInstance (.ingressWord c init) :
      Session IngressWord Side IngressWord.Backlog α ρ).Usable IngressWord.side
        (fun _ tickets v => v ∉ tickets) (·.peak ≤ 2 ^ 19) := by
  refine ⟨fun kind => ?_, ?_, ?_⟩
  · refine usable_of_gateInv Versioned.gateInv (Versioned.clean_ofConfig kind c)
      (fun h _ => .of_forall (fun _ _ => trivial) h) (fun {g readers n v} hclean hne => ?_)
    obtain rfl : v = g.current.next := Versioned.eq_next_of_ne hne
    exact hclean
  · refine usable_of_gateInv VersionedWord.exactGateInv.toGateInv VersionedWord.knows_fresh
      (fun _ => id) (fun {g readers n v} hknows hne => ?_)
    obtain rfl : v = g.current.next := Versioned.eq_next_of_ne hne
    exact ⟨(hknows.keeps.readers_eq_zero_iff _).2 hknows.awaits, List.count_eq_zero.1 hknows.awaits⟩
  · refine usable_of_gateInv IngressWord.exactGateInv.toGateInv IngressWord.knows_fresh
      (fun _ => .of_peak) (fun {g readers n v} hknows hne => ?_)
    intro hmem
    obtain ⟨r, hr, rfl⟩ := List.mem_map.1 hmem
    exact hne (IngressWord.exactGateInv.ticket_eq hknows r hr).symm

/-- A query is under way while a mutation ends in a fault in its second application. -/
def tornAfterDrain : List (Tick Nat Nat) :=
  [.caller .register, .caller .register, .caller (.enter 0), .caller (.mutate 1 torn false),
    .writer, .writer, .writer, .writer, .writer, .caller (.enter 1), .caller (.leave false),
    .caller (.leave false), .writer, .writer]

theorem giving_up_leaves_a_frame_torn :
    let p := (Point.start (.ofInstance (.classic .paired .standard ⟨5, 6⟩))).after tornAfterDrain
    let q := p.next .writer
    p.control = .passing .second [] [(0, ⟨0, torn, false⟩)] .left ∧
      (torn.apply 2 (p.inst.copies.get .left)).outcome = .error "torn" ∧ q.history.Matched ∧
      AfterFault "torn" ⟨0, torn, false⟩ p q ∧ q.inst.copies = ⟨15, 16⟩ ∧
      q.inst.activeSide = .right ∧ q.inst.gate.current = .one := by
  refine ⟨rfl, rfl, by decide +kernel, ?_, rfl, rfl, rfl⟩
  have husable := (giving_up_leaves_a_frame .standard (⟨5, 6⟩ : Copies Nat) (ρ := Nat)).1 .paired
  exact (husable.1 tornAfterDrain .second _ _ _ _ "torn" rfl rfl (by decide +kernel) trivial).1

end TwinCopy
