import TwinCopy.Proofs.AfterFault
import TwinCopy.Proofs.LockstepSimulation

/-!
# One combining writer at a time

If at most one combining writer is inside at a time, every batch is a single request and the
instance behaves like one with exclusive writers. The two keep their requests at different cells,
the combining one at that of the writer's slot, and report the end of a round by different events.
So they are compared by a lock-step simulation whose embedding of cells is chosen anew whenever a
writer is admitted (`StyleSim`), and up to the events at the end of a round
(`Projection.withoutEndings`). Main statement: `solitary_combiner_agrees`.
-/

namespace TwinCopy

variable {γ κ δ α ρ : Type} [Gate γ κ δ]

/-- The events that report the end of a round. -/
def Event.endsRound : Event → Bool
  | .mutationApplied .. | .packedMutationApplied .. | .batchApplied .. | .batchAbandoned .. => true
  | _ => false

/-- Drops the events that report the end of a round. -/
def Projection.withoutEndings : Projection :=
  ⟨id, id, fun e => !e.endsRound⟩

/-! ## No writer inside -/

/-- When no writer is inside, no round is suspended and all cells are blank. -/
lemma Queued.blank {s : Session γ κ δ α ρ} {h : History γ κ δ α ρ}
    (hq : Queued s h (s.inst.task? .resting)) (hwriters : s.inst.writers = []) :
    s.inst.round = none ∧ ∀ i, cellAt s.inst.cells i = {} := by
  have hround : s.inst.round = none := by
    rcases hround : s.inst.round with _ | r
    · rfl
    · refine absurd hwriters (hq.writers_ne_nil (u := r.task) ?_)
      rw [Instance.task?, hround]
      rfl
  refine ⟨hround, fun i => ?_⟩
  have hcellInv := hq.cellInv
  have hrequest : (cellAt s.inst.cells i).request = none :=
    hcellInv.request_eq_none fun w hw => by rw [hwriters] at hw; cases hw
  have hresult : (cellAt s.inst.cells i).result = none := by
    have htask : s.inst.task? .resting = none := by rw [Instance.task?, hround]; rfl
    rw [htask] at hcellInv
    rw [← Option.not_isSome_iff_eq_none, hcellInv.result]
    rintro ⟨u, ⟨⟩, -⟩
  rcases hcell : cellAt s.inst.cells i with ⟨request, result⟩
  rw [hcell] at hrequest hresult
  rw [show request = none from hrequest, show result = none from hresult]

/-- Maps the only cell to cell `j` of `n`, and indices without a cell out of range. -/
def placeAt (n j : Nat) : Nat → Nat
  | 0 => j
  | i + 1 => n + i

/-- While all cells are blank, one cell embeds into the others at any index. -/
lemma embedsCells_placeAt {cells cells' : List (Cell α ρ)} {j : Nat} (hone : cells.length = 1)
    (hj : j < cells'.length) (hblank : ∀ i, cellAt cells i = {})
    (hblank' : ∀ i, cellAt cells' i = {}) :
    EmbedsCells (placeAt cells'.length j) cells cells' where
  mono := by
    refine strictMono_nat_of_lt_succ fun i => ?_
    cases i with
    | zero => exact Nat.lt_of_lt_of_le hj (Nat.le_refl _)
    | succ i => exact Nat.lt_succ_self _
  same i := by
    have hget : ∀ {cs : List (Cell α ρ)} {i : Nat}, cellAt cs i = {} → i < cs.length →
        cs[i]? = some {} := by
      intro cs i hcell hi
      rw [cellAt, List.getElem?_eq_getElem hi, Option.getD_some] at hcell
      rw [List.getElem?_eq_getElem hi, hcell]
    cases i with
    | zero => rw [placeAt, hget (hblank' j) hj, hget (hblank 0) (by omega)]
    | succ i => rw [placeAt, List.getElem?_eq_none (by omega), List.getElem?_eq_none (by omega)]
  blank j _ := hblank' j

namespace Instance

variable {γ' δ' : Type} [Gate γ' κ δ'] {l : Projection}
  {Rel : γ → γ' → Option (Phase (δ × δ')) → Prop} {place place' : Nat → Nat}

/-- While no writer is inside, the embedding of the cells may be replaced. -/
lemma Sim.embed {s : Instance γ δ α ρ} {t : Instance γ' δ' α ρ} (h : Sim l Rel place s t)
    (hwriters : s.writers = []) (hround : s.round = none)
    (hcells : EmbedsCells place' s.cells t.cells) :
    Sim l Rel place' s t := by
  obtain ⟨p, hsim, hrounds⟩ := h
  cases hrounds with
  | waiting hs => rw [hround] at hs; cases hs
  | idle hs ht =>
    have hwriters' := hsim.obsEq.writers
    rw [hwriters, List.map_nil] at hwriters'
    refine ⟨none, ⟨{ hsim.obsEq with cells := hcells, writers := ?_ }, hsim.gate⟩, .idle hs ht⟩
    rw [hwriters', hwriters, List.map_nil]

end Instance

/-! ## The rule -/

namespace Session

/-- The moves with at most one writer inside: a writer is started with a slot of the instance when
no writer is inside, and no slot is dropped that a writer uses. -/
def Solitary (s : Session γ κ δ α ρ) : Move α ρ → Prop
  | .look | .register | .churn | .foreign | .slot _ | .enter _ | .leave _ => True
  | .drop k => (s.slot? k).all (!s.hasRequest ·) = true
  | .mutate k _ _ => s.inst.writers.isEmpty = true ∧ (s.own? k).isSome = true
  | .text | .next | .arrive _ | .depart .. | .lock | .unlock | .tryLock => False

instance (s : Session γ κ δ α ρ) : DecidablePred s.Solitary
  | .look | .register | .churn | .foreign | .slot _ | .enter _ | .leave _ =>
      inferInstanceAs (Decidable True)
  | .drop _ => inferInstanceAs (Decidable (_ = true))
  | .mutate .. => inferInstanceAs (Decidable (_ ∧ _))
  | .text | .next | .arrive _ | .depart .. | .lock | .unlock | .tryLock =>
      inferInstanceAs (Decidable False)

/-! ## Exclusive writers -/

end Session

/-- Invariant of the exclusive style: as many batches are completed as mutations. -/
structure BatchPerMutation (s : Session γ κ δ α ρ) (h : History γ κ δ α ρ) (t : Option (Task α ρ)) :
    Prop where
  queued : Queued s h t
  style : s.inst.style = .exclusive
  batches : s.inst.batches = s.inst.mutations

namespace BatchPerMutation

variable {s s' : Session γ κ δ α ρ} {h : History γ κ δ α ρ} {t t' : Option (Task α ρ)}

lemma length_batch (hs : BatchPerMutation s h t) {u : Task α ρ} (hu : u ∈ t) :
    u.batch.length = 1 := by
  have hcellInv := hs.queued.cellInv
  rw [Option.mem_def.1 hu] at hcellInv
  have hle := hcellInv.length_batch_le
  rw [hs.queued.room.exclusive hs.style] at hle
  have hsome := hs.queued.requestInv.snapshots.ne_nil (hs.queued.taken u hu)
  have hpos := List.length_pos_iff.2 hsome
  omega

lemma moved {m : Move α ρ} {r : Except Failure (Answer κ α)} (hact : s.act m = (r, s'))
    (hm : s.Moved m r s') (hs : BatchPerMutation s h t) :
      BatchPerMutation s' (.moved s m :: h) t where
  queued := hs.queued.moved hact hm
  style := hm.style_eq.trans hs.style
  batches := by
    have hbatches := hs.batches
    cases hm <;> exact hbatches

lemma progress {inst : Instance γ δ α ρ} {actions : History γ κ δ α ρ}
    (hp : Instance.Progress s.inst t actions inst t') (hs : BatchPerMutation s h t) :
    BatchPerMutation { s with inst } (actions ++ h) t' where
  queued := hs.queued.progress hp
  style := hp.frame.1.trans hs.style
  batches := by
    have hbatches := hs.batches
    cases hp with
    | quiet | elect | turn => exact hbatches
    | apply h =>
      obtain ⟨output, gate, registry, log, note, -, rfl, -⟩ := Instance.pass_ok h
      exact hbatches
    | @giveUp u p done rest old x f h =>
      obtain ⟨message, gate, registry, log, note, -, -, rfl, -⟩ := Instance.pass_error h
      obtain ⟨cells, writers, log, finished, habandon⟩ :=
        Instance.abandon_frame _ (done ++ x :: rest) f
      rw [habandon]
      exact hbatches
    | @complete batch old =>
      have hone := hs.length_batch (u := ⟨.second, batch, [], old⟩) rfl
      obtain ⟨cells, writers, log, finished, hcomplete⟩ := s.inst.complete_frame batch old
      have hcount : batch.length = 1 := by simpa [Task.batch] using hone
      rw [hcomplete]
      show s.inst.batches + 1 = s.inst.mutations + batch.length
      rw [hcount, hbatches]
    | @surplus batch old d m h =>
      obtain ⟨cells, writers, log, finished, habandon⟩ :=
        Instance.abandon_frame _ batch (.misuse m)
      rw [habandon]
      exact hbatches

/-- At every point of every schedule as many batches are completed as mutations. -/
lemma after (copies : Copies α) (gate : γ) (registry : Registry) (wait : WaitPolicy)
    (ticks : List (Tick α ρ)) :
    let p := (Point.start (.ofInstance (.fresh .exclusive copies gate registry 1 wait) :
      Session γ κ δ α ρ)).after ticks
    BatchPerMutation p.session p.history p.task? :=
  Point.invariant_after (fun _ hact hm hs => hs.moved hact hm) (fun hp hs => hs.progress hp)
    (fun hs => ⟨hs.queued.emptied, hs.style, hs.batches⟩) (Session.exclusive_fresh _ _ _ _ _ _)
    ⟨.start (Session.enoughCells_exclusive _ _ _ _), rfl, rfl⟩

end BatchPerMutation

/-! ## Both styles -/

namespace Session

section StyleSim

variable (copies : Copies α) (gate : γ) (n : Nat) (wait : WaitPolicy)

/-- A session with exclusive writers and one with combining writers, reached from fresh instances
with the same gate, are in lock-step for some embedding of the cells. -/
structure StyleSim (s t : Session γ κ δ α ρ) : Prop where
  lockstep : ∃ place, LockstepSim Projection.withoutEndings (HomGraph id) place s t
  reached : (ofInstance (.fresh .exclusive copies gate (.bounded 0 n) 1 wait)).Reaches
    (fun _ => True) s
  reached' : (ofInstance (.fresh .combining copies gate (.bounded 0 n) n wait)).Reaches
    (fun _ => True) t

variable {copies gate n wait} {s t : Session γ κ δ α ρ}

namespace StyleSim

lemma batchPerMutation (h : StyleSim copies gate n wait s t) :
    ∃ history, BatchPerMutation s history (s.inst.task? .resting) := by
  obtain ⟨ticks, history, -, hafter⟩ := h.reached (exclusive_fresh _ _ _ _ _ _) []
  have hbatch := BatchPerMutation.after (ρ := ρ) copies gate (.bounded 0 n) wait ticks
  rw [Point.start, hafter] at hbatch
  exact ⟨history, hbatch⟩

lemma queued (hslotted : Gate.slotted γ = true) (h : StyleSim copies gate n wait s t) :
    t.inst.style = .combining ∧ ∃ history, Queued t history (t.inst.task? .resting) := by
  have hs : (ofInstance (.fresh .combining copies gate (.bounded 0 n) n wait) :
      Session γ κ δ α ρ).Exclusive .resting := exclusive_fresh _ _ _ _ _ _
  obtain ⟨ticks, history, -, hafter⟩ := h.reached' hs []
  have hqueued := queued_after (enoughCells_bounded (ρ := ρ) hslotted copies gate n wait) ticks
  rw [Point.start, hafter] at hqueued
  exact ⟨h.reached'.style_eq hs, history, hqueued⟩

/-- A writer is admitted when none is inside, and the embedding maps its cell to that of its
slot. -/
lemma act_mutate (hslotted : Gate.slotted γ = true) (h : StyleSim copies gate n wait s t) {k : Nat}
    {mutation : Mutation α ρ} {observed : Bool} (hrule : t.Solitary (.mutate k mutation observed)) :
    ∃ place, AnswersAgree Projection.withoutEndings
      (LockstepSim Projection.withoutEndings (HomGraph id) place)
      (s.act (.mutate k mutation observed)) (t.act (.mutate k mutation observed)) := by
  obtain ⟨hfree, hown⟩ := hrule
  obtain ⟨place, hlockstep⟩ := h.lockstep
  obtain ⟨history, hbatch⟩ := h.batchPerMutation
  obtain ⟨hstyle, history', hqueued⟩ := h.queued hslotted
  obtain ⟨slot, hown⟩ := Option.isSome_iff_exists.1 hown
  obtain ⟨hslot, hissuer⟩ := Option.filter_eq_some_iff.1 hown
  have hissuer : slot.issuer = t.inst.registry.id := of_decide_eq_true hissuer
  have hwriters' : t.inst.writers = [] := List.isEmpty_iff.1 hfree
  have hwriters : s.inst.writers = [] := by
    rwa [hlockstep.inst.obsEq.writers_isEmpty, List.isEmpty_iff] at hfree
  obtain ⟨hround, hblank⟩ := hbatch.queued.blank hwriters
  obtain ⟨-, hblank'⟩ := hqueued.blank hwriters'
  have hadmits : t.Admits k slot.index :=
    .inr ⟨hstyle, slot, hslot, hissuer, rfl, by rw [hwriters']; nofun⟩
  have hembeds := embedsCells_placeAt (hbatch.queued.room.exclusive hbatch.style)
    (hqueued.room.lt_length hadmits) hblank hblank'
  have hlockstep' :
      LockstepSim Projection.withoutEndings (HomGraph id)
          (placeAt t.inst.cells.length slot.index) s t :=
    { hlockstep with inst := hlockstep.inst.embed hwriters hround hembeds }
  have hs := mutate_of_style hbatch.style k mutation observed
  rw [hwriters] at hs
  have hidle : t.hasRequest slot = false := by
    rw [hasRequest, hwriters', List.any_nil, Bool.and_false]
  have ht := mutate_of_combining hstyle hslot mutation observed
  rw [hidle, if_neg Bool.false_ne_true, if_pos hissuer] at ht
  exact ⟨_, hlockstep'.act_publish (i := 0) hs ht⟩

/-- Every move that obeys the rule has answers with the same projection. -/
lemma act (hslotted : Gate.slotted γ = true) (h : StyleSim copies gate n wait s t) {m : Move α ρ}
    (hrule : t.Solitary m) :
    ∃ place, AnswersAgree Projection.withoutEndings
      (LockstepSim Projection.withoutEndings (HomGraph id) place) (s.act m) (t.act m) := by
  have K : GateSim Projection.withoutEndings (fun _ : γ => True) (HomGraph id) :=
    GateHom.refl.gateSim _
  obtain ⟨place, hlockstep⟩ := h.lockstep
  cases m with
  | look => exact ⟨place, hlockstep.of_same rfl rfl rfl⟩
  | register => exact ⟨place, hlockstep.act_register K⟩
  | churn => exact ⟨place, hlockstep.act_churn K⟩
  | foreign => exact ⟨place, hlockstep.act_foreign K⟩
  | slot k => exact ⟨place, hlockstep.act_slot K k⟩
  | drop k =>
    obtain ⟨history, hbatch⟩ := h.batchPerMutation
    refine ⟨place, hlockstep.act_drop K fun slot hslot => ?_⟩
    have hfree : (t.slot? k).all (!t.hasRequest ·) = true := hrule
    rw [hlockstep.slot?_eq K, hslot, Option.all_some, Bool.not_eq_true'] at hfree
    rw [hfree, hasRequest, hbatch.style]
    rfl
  | enter k => exact ⟨place, hlockstep.act_enter K trivial⟩
  | leave gaveUp => exact ⟨place, hlockstep.act_leave K trivial⟩
  | mutate k mutation observed => exact h.act_mutate hslotted hrule
  | text | next | arrive | depart | lock | unlock | tryLock => exact absurd hrule id

lemma sameProgress (h : StyleSim copies gate n wait s t) : SameProgress s t := by
  obtain ⟨place, hlockstep⟩ := h.lockstep
  exact hlockstep.sameProgress (GateHom.refl.gateSim _)

/-- Every batch is a single mutation. -/
lemma batches_eq (h : StyleSim copies gate n wait s t) : t.inst.batches = t.inst.mutations := by
  obtain ⟨place, hlockstep⟩ := h.lockstep
  obtain ⟨history, hbatch⟩ := h.batchPerMutation
  rw [hlockstep.inst.obsEq.batches, hlockstep.inst.obsEq.mutations]
  exact hbatch.batches

lemma scriptSim (hslotted : Gate.slotted γ = true) :
    ScriptSim Projection.withoutEndings Solitary (StyleSim (ρ := ρ) copies gate n wait) where
  slotted_eq := rfl
  perform {s t m} h hrule := by
    obtain ⟨place, hact⟩ := h.act hslotted hrule
    obtain ⟨place', hlockstep⟩ := h.lockstep
    obtain ⟨hanswer, hstate⟩ :=
      LockstepSim.perform (GateHom.refl.gateSim _) hlockstep.exclusive hact trivial
    exact ⟨hanswer, ⟨place, hstate⟩, h.reached.trans (s.reaches_perform trivial),
      h.reached'.trans (t.reaches_perform trivial)⟩
  view h := by
    obtain ⟨place, hlockstep⟩ := h.lockstep
    obtain ⟨p, hsim, -⟩ := hlockstep.inst
    exact hsim.view_eq (GateHom.refl.gateSim _)
  finished h := by
    obtain ⟨place, hlockstep⟩ := h.lockstep
    exact hlockstep.inst.obsEq.finished
  log h := by
    obtain ⟨place, hlockstep⟩ := h.lockstep
    exact hlockstep.inst.obsEq.log
  emptied {s t} h := by
    obtain ⟨place, hlockstep⟩ := h.lockstep
    exact ⟨⟨place, hlockstep.emptied⟩,
      h.reached.trans (reaches_runRelation.close s (.ok .done) none),
      h.reached'.trans (reaches_runRelation.close t (.ok .done) none)⟩

/-- Sessions of fresh instances are related. -/
lemma fresh (hhides : Projection.withoutEndings.HidesEndings γ) (hn : 0 < n) :
    StyleSim copies gate n wait
      (ofInstance (.fresh .exclusive copies gate (.bounded 0 n) 1 wait) : Session γ κ δ α ρ)
      (ofInstance (.fresh .combining copies gate (.bounded 0 n) n wait)) where
  lockstep := by
    have hblank : ∀ m i, cellAt (List.replicate m ({} : Cell α ρ)) i = {} := by
      intro m i
      rw [cellAt, List.getElem?_replicate]
      split <;> rfl
    have hembeds : EmbedsCells (placeAt (List.replicate n ({} : Cell α ρ)).length 0)
        (List.replicate 1 {}) (List.replicate n {}) :=
      embedsCells_placeAt rfl (by rwa [List.length_replicate]) (hblank 1) (hblank n)
    exact ⟨_, ⟨none, ⟨⟨.inr ⟨hhides, hhides⟩, rfl, rfl, hembeds, rfl, rfl, rfl, rfl, rfl, rfl⟩,
      rfl, by rintro r ⟨⟩⟩, .idle rfl rfl⟩, rfl, rfl, rfl, rfl, rfl, exclusive_fresh _ _ _ _ _ _⟩
  reached := .refl _
  reached' := .refl _

end StyleSim

end StyleSim

/-- With one writer at a time, combining writers agree with exclusive ones, over read-indicators
with flags, so that both sessions have the same slots. Callers read, also inside queries, claim
slots and drop them; a writer is started when none is inside, with a slot of its own, and its
mutation may end in a fault; no slot is dropped that a writer uses. Then every operation of a
script, also inside a query, has the same answer, finishes the same writer with the same output, and
shows the same side, versions and counts, and after it both have the same side, copies and lock and
the same writers inside. Only the events that report the end of a round differ. Every batch is a
single mutation. -/
theorem solitary_combiner_agrees {kind : IndicatorKind} (hkind : ¬ kind.Counting) {c : Config}
    (hc : 0 < c.maxThreads) (init : Copies α) (script : List (Operation α ρ)) :
    let exclusive : Session Versioned Version Version α ρ := .ofInstance (.classic kind c init)
    let combining : Session Versioned Version Version α ρ := .ofInstance (.combining kind c init)
    combining.ObeysAll Solitary script →
      Step.projectAll Projection.withoutEndings (combining.steps script).1 =
          Step.projectAll Projection.withoutEndings (exclusive.steps script).1 ∧
        List.Forall₂ SameProgress (exclusive.instantsOfAll script)
          (combining.instantsOfAll script) ∧
        SameProgress (exclusive.steps script).2 (combining.steps script).2 ∧
        (combining.steps script).2.ending = (exclusive.steps script).2.ending ∧
        ∀ t ∈ combining.instantsOfAll script, t.inst.batches = t.inst.mutations := by
  intro exclusive combining hscript
  have hregistry : Registry.ofCapacity 0 (kind.slotCapacity c) = .bounded 0 c.maxThreads := by
    cases kind <;> first | exact absurd trivial hkind | rfl
  have hhides : Projection.withoutEndings.HidesEndings Versioned :=
    ⟨fun _ _ _ => rfl, fun _ _ => rfl, fun _ => rfl⟩
  have P : ScriptSim Projection.withoutEndings Solitary
      (StyleSim (ρ := ρ) init (Versioned.ofConfig kind c) c.maxThreads c.wait) :=
        StyleSim.scriptSim rfl
  have hstart : StyleSim init (.ofConfig kind c) c.maxThreads c.wait exclusive combining := by
    have hexclusive : exclusive = .ofInstance (.fresh .exclusive init (.ofConfig kind c)
        (.bounded 0 c.maxThreads) 1 c.wait) := by
      rw [← hregistry]
      rfl
    rw [hexclusive]
    exact .fresh hhides hc
  obtain ⟨hsteps, hend⟩ := P.steps hstart script hscript
  have hpassed := P.instantsOfAll hstart script hscript
  obtain ⟨place, hlockstep⟩ := hend.lockstep
  refine ⟨hsteps, hpassed.imp fun _ _ h => h.sameProgress, hend.sameProgress,
    hlockstep.ending_eq, ?_⟩
  have hbatches : List.Forall₂ (fun t s => t.inst.batches = t.inst.mutations ∧
      StyleSim init (.ofConfig kind c) c.maxThreads c.wait s t)
      (combining.instantsOfAll script) (exclusive.instantsOfAll script) :=
    (hpassed.imp fun _ _ h => (⟨h.batches_eq, h⟩ : _ ∧ _)).flip
  exact ((List.forall₂_and_left _ _).1 hbatches).1

/-- A writer with the second slot is started inside a query, makes a read, and waits; the query ends
in a fault. Another writer is started later with the first slot, which was dropped and claimed again
meanwhile, and ends in a fault in its second application. -/
def oneAfterTheOther : List (Operation Nat Nat) :=
  let grown : Mutation Nat Nat := ⟨fun _ n => ⟨n + 1, .ok n⟩⟩
  let torn : Mutation Nat Nat :=
    ⟨fun application n => ⟨n + 10, if application = 2 then .error "torn" else .ok n⟩⟩
  [.single .register, .single .register,
    .query 0 true [.single (.mutate 1 grown true), .read 1 2 false],
    .single (.drop 0), .churn 2, .single .register, .single (.mutate 2 torn true)]

theorem solitary_combiner_agrees_torn :
    let exclusive : Session Versioned Version Version Nat Nat :=
      .ofInstance (.classic .flagged .standard ⟨5, 5⟩)
    let combining : Session Versioned Version Version Nat Nat :=
      .ofInstance (.combining .flagged .standard ⟨5, 5⟩)
    ¬ IndicatorKind.flagged.Counting ∧ 0 < Config.standard.maxThreads ∧
      combining.ObeysAll Solitary oneAfterTheOther ∧
      Step.projectAll Projection.withoutEndings (combining.steps oneAfterTheOther).1 =
        Step.projectAll Projection.withoutEndings (exclusive.steps oneAfterTheOther).1 ∧
      (combining.steps oneAfterTheOther).2.ending = (exclusive.steps oneAfterTheOther).2.ending ∧
      (exclusive.steps oneAfterTheOther).2.ending = .copies ⟨16, 16⟩ := by
  have hkind : ¬ IndicatorKind.flagged.Counting := id
  have hscript : (ofInstance (.combining .flagged .standard ⟨5, 5⟩) :
      Session Versioned Version Version Nat Nat).ObeysAll Solitary oneAfterTheOther := by
    decide +kernel
  obtain ⟨hsteps, -, -, hend, -⟩ := solitary_combiner_agrees (c := .standard) hkind
    (by decide) ⟨5, 5⟩ oneAfterTheOther hscript
  exact ⟨hkind, by decide, hscript, hsteps, hend, by decide +kernel⟩

end Session

end TwinCopy
