import TwinCopy.Proofs.RegularInvariant
import TwinCopy.Proofs.ScriptSchedule
import TwinCopy.Session.Setup

/-!
# Exclusive writers refine one sequential object

Under the exclusive style, in every schedule, an instance is one object to which the mutations are
applied one after the other. Readers are given the object with the mutations whose turn has
happened, at most one more than are completed, and every writer gets the output of the object.
-/

namespace TwinCopy

variable {γ κ δ α ρ : Type}

/-- The control states in which the instance can be read: there is no leading writer, or the leading
writer is about to apply a mutation, which may read the instance before it changes anything. -/
def Control.Observable : Control δ α ρ → Prop
  | .resting => True
  | .passing _ _ (_ :: _) _ => True
  | _ => False

namespace Point

/-- The mutations completed, in order. -/
def completed (p : Point γ κ δ α ρ) : List (Request α ρ) :=
  requests p.history.completed

/-- The mutations whose turn has happened, in order. -/
def turned (p : Point γ κ δ α ρ) : List (Request α ρ) :=
  requests p.history.turned

/-- The part of the batch that the pass under way has applied. -/
def underway (p : Point γ κ δ α ρ) : List (Request α ρ) :=
  p.task?.elim [] (·.done.map Prod.snd)

/-- The writers finished so far, in order. -/
def done (p : Point γ κ δ α ρ) : List (Finished α ρ) :=
  p.history.emptied ++ p.inst.finished.reverse

end Point

/-- At this point the instance is one sequential object with the initial copies `init`. -/
structure Refines (init : Copies α) (p : Point Versioned Version Version α ρ) : Prop where
  ahead : p.turned = p.completed ∨ ∃ r, p.turned = p.completed ++ [r]
  idle : p.task? = none → p.turned = p.completed
  active : p.inst.copies.get p.inst.activeSide = replay (init.get p.inst.activeSide) p.turned
  inactive : p.inst.copies.get p.inst.activeSide.opposite =
    replay (init.get p.inst.activeSide.opposite) (p.completed ++ p.underway)
  observable : p.control.Observable → p.underway = []
  first : ∀ x rest old, p.control = .passing .first [] (x :: rest) old → p.turned = p.completed
  second : ∀ x rest old, p.control = .passing .second [] (x :: rest) old →
    p.turned = p.completed ++ [x.2]
  enter : ∀ k a, (p.session.act (.enter k)).1 = .ok (.copy a) →
    a = p.inst.copies.get p.inst.activeSide
  peek : ∀ a, p.inst.readAnew.1 = .ok a → a = p.inst.copies.get p.inst.activeSide
  mutations : p.inst.mutations = p.completed.length
  outputs : ∀ a, init = ⟨a, a⟩ → (p.done.map Finished.answer).Perm (answers a p.completed)

namespace Session

/-- A query that begins is given the copy on the active side. -/
lemma eq_of_enter {s : Session Versioned Version Version α ρ} {k : Nat} {a : α}
    (h : (s.act (.enter k)).1 = .ok (.copy a)) : a = s.inst.copies.get s.inst.activeSide := by
  have hmoved := s.moved_act (.enter k)
  rw [h] at hmoved
  generalize (s.act (.enter k)).2 = t at hmoved
  cases hmoved with
  | looked _ hlook => cases hlook
  | entered hslot hissuer harrive =>
    rw [show Gate.side _ = s.inst.activeSide from (Versioned.sameVersions_arrive harrive).side]

end Session

namespace Instance

/-- A read with a new slot is given the copy on the active side. -/
lemma eq_of_readAnew {s : Instance Versioned Version α ρ} {a : α} (h : s.readAnew.1 = .ok a) :
    a = s.copies.get s.activeSide := by
  rcases s.readAnew_cases with ⟨f, registry, l, -, hread⟩ |
    ⟨slot, ticket, entered, left, registry, l, -, -, hvisited, -, hgiven⟩
  · rw [hread] at h
    cases h
  · rw [hgiven a h, show Gate.side entered = s.activeSide from
      (Versioned.sameVersions_arrive hvisited.1).side]

end Instance

/-! ## Exclusive writers -/

/-- Under the exclusive style no writer is rejected. -/
def Alone [Gate γ κ δ] (s : Session γ κ δ α ρ) (h : History γ κ δ α ρ) : Prop :=
  s.inst.style = .exclusive ∧ h.turnedAway = []

namespace Alone

variable [Gate γ κ δ] {s s' : Session γ κ δ α ρ} {h : History γ κ δ α ρ} {t t' : Option (Task α ρ)}

lemma moved {m : Move α ρ} {r : Except Failure (Answer κ α)} (hact : s.act m = (r, s'))
    (hm : s.Moved m r s') (ha : Alone s h) : Alone s' (.moved s m :: h) := by
  refine ⟨hm.style_eq.trans ha.1, ?_⟩
  rw [History.turnedAway_cons, ha.2, List.nil_append]
  cases hm.called hact with
  | absent _ hturnedAway | letIn _ _ hturnedAway => exact hturnedAway
  | turnedAway hstyle =>
    rw [ha.1] at hstyle
    cases hstyle

lemma progress {inst : Instance γ δ α ρ} {actions : History γ κ δ α ρ}
    (hp : Instance.Progress s.inst t actions inst t') (ha : Alone s h) :
    Alone { s with inst } (actions ++ h) := by
  refine ⟨hp.frame.1.trans ha.1, ?_⟩
  cases hp <;> simpa [Action.writerTurnedAway] using ha.2

end Alone

/-- If the batch is a single request, the active copy has at most one request more than the other
one. -/
lemma requests_ahead_cases {u : Task α ρ} (h : u.batch.length ≤ 1) :
    requests u.ahead = [] ∨ ∃ r, requests u.ahead = [r] := by
  obtain ⟨_ | _, done, rest, old⟩ := u
  · exact .inl rfl
  · rw [Task.ahead, requests_singleton]
    rcases heq : Task.batch ⟨.second, done, rest, old⟩ with _ | ⟨x, _ | ⟨y, more⟩⟩
    · exact .inl rfl
    · exact .inr ⟨x.2, rfl⟩
    · simp [heq] at h

/-- If the batch is a single request, its pass has applied nothing in an observable state. -/
lemma Point.underway_of_observable {p : Point Versioned Version Version α ρ}
    (hlength : ∀ u ∈ p.task?, u.batch.length ≤ 1) (hobservable : p.control.Observable) :
    p.underway = [] := by
  rcases hcontrol : p.control with _ | ⟨pass, done, _ | ⟨x, rest⟩, old⟩ | r
  · have htask : p.task? = p.inst.round.map Round.task := by
      rw [Point.task?, hcontrol, Instance.task?]
    rw [Point.underway, htask]
    cases p.inst.round <;> rfl
  · rw [hcontrol] at hobservable
    cases hobservable
  · have htask := Point.task?_of_passing hcontrol
    have hbatch := hlength _ htask
    simp only [Task.batch, List.length_append, List.length_cons] at hbatch
    have hdone : done = [] := List.length_eq_zero_iff.1 (by omega)
    rw [Point.underway, htask, hdone]
    rfl
  · rw [hcontrol] at hobservable
    cases hobservable

/-- Under the exclusive style `RegularInv` implies refinement of a sequential object. -/
lemma RegularInv.refines {init : Copies α} {p : Point Versioned Version Version α ρ}
    (hb : RegularInv init p.session p.history p.task?) (ha : Alone p.session p.history) :
    Refines init p := by
  have hl : CopyInv init p.history p.inst p.task? := hb.copyInv
  -- there is one cell, so that a batch has at most one request
  have hlength : ∀ u ∈ p.task?, u.batch.length ≤ 1 := by
    intro u hu
    have hle := (hu ▸ hb.cellInv).length_batch_le
    rwa [hb.room.exclusive ha.1] at hle
  have hturned : p.turned = p.completed ++ requests (p.task?.elim [] Task.ahead) := by
    rw [Point.turned, hl.turned, requests_append]
    rfl
  refine
    { ahead := ?_
      idle := fun htask => by simpa [htask] using hturned
      active := by rw [hl.copies, hl.active]; rfl
      inactive := by rw [hl.copies, hl.inactive]; rfl
      observable := Point.underway_of_observable hlength
      first := fun x rest old hcontrol => ?_
      second := fun x rest old hcontrol => ?_
      enter := fun k a => Session.eq_of_enter
      peek := fun a => Instance.eq_of_readAnew
      mutations := hl.mutations
      outputs := fun a hinit => ?_ }
  · rcases htask : p.task? with _ | u
    · exact .inl (by simpa [htask] using hturned)
    · rw [htask, Option.elim_some] at hturned
      rcases requests_ahead_cases (hlength u htask) with h | ⟨r, h⟩ <;> rw [h] at hturned
      · exact .inl (hturned.trans (List.append_nil _))
      · exact .inr ⟨r, hturned⟩
  · have htask : p.task? = some ⟨.first, [], x :: rest, old⟩ := Point.task?_of_passing hcontrol
    simpa [htask, Task.ahead] using hturned
  · have htask : p.task? = some ⟨.second, [], x :: rest, old⟩ := Point.task?_of_passing hcontrol
    have hbatch := hlength _ htask
    simp only [Task.batch, List.nil_append, List.length_cons] at hbatch
    have hrest : rest = [] := List.length_eq_zero_iff.1 (by omega)
    simpa [htask, Task.ahead, Task.batch, hrest] using hturned
  · have hfinished := (hb.outputInv a hinit).finished
    rw [ha.2, List.map_nil, List.nil_append] at hfinished
    exact hfinished

/-- `RegularInv` holds at every point of every schedule under the exclusive style. -/
lemma refines_after (kind : IndicatorKind) (c : Config) (init : Copies α)
    {ticks : List (Tick α ρ)} (hticks : Regularly ticks) :
    Refines init ((Point.start (.ofInstance (.classic kind c init))).after ticks) := by
  have hs : (Session.ofInstance (.classic kind c init) :
      Session Versioned Version Version α ρ).Exclusive .resting :=
        Session.exclusive_fresh _ _ _ _ _ _
  refine (regularInv_after hs rfl (.start (Session.enoughCells_exclusive _ _ _ _))
    hticks).refines ?_
  exact Point.invariant_after (P := fun s h _ => Alone s h) (fun _ hact hm => Alone.moved hact hm)
    Alone.progress (fun ha => ⟨ha.1, by simpa [Action.writerTurnedAway] using ha.2⟩) hs ⟨rfl, rfl⟩

/-- Under the exclusive style an instance refines one sequential object, for every kind of
read-indicator and all initial copies: at every point of every schedule, and so throughout every
script. -/
theorem classic_refines_sequential (kind : IndicatorKind) (c : Config) (init : Copies α) :
    let start : Session Versioned Version Version α ρ := .ofInstance (.classic kind c init)
    (∀ ticks, Regularly ticks → Refines init ((Point.start start).after ticks)) ∧
      ∀ script, (∀ m ∈ Operation.movesOfAll script, m.Regular) →
        ∃ ticks, Regularly ticks ∧ start.IsScheduleOf script ticks := by
  intro start
  have hs : start.Exclusive .resting := Session.exclusive_fresh _ _ _ _ _ _
  refine ⟨fun ticks hticks => refines_after kind c init hticks, fun script hscript => ?_⟩
  obtain ⟨ticks, hticks⟩ := Session.exists_isScheduleOf hs rfl script
  exact ⟨ticks, fun m hm => hscript m (hticks.mem_moves hm), hticks⟩

/-- A query begins, and a writer counts up and waits for it to end. -/
def countedWhileReading : List (Tick Nat Nat) :=
  [.caller .register, .caller (.enter 0),
    .caller (.mutate 0 (.ofFunction fun n => (n + 1, n)) false), .writer, .writer, .writer, .writer,
    .writer, .caller (.leave false), .writer, .writer, .writer, .writer]

theorem classic_refines_sequential_counted :
    Regularly countedWhileReading ∧
      let p := (Point.start (.ofInstance (.classic .single .standard ⟨5, 5⟩))).after
        countedWhileReading
      Refines ⟨5, 5⟩ p ∧ p.inst.copies = ⟨6, 6⟩ ∧ p.done.map Finished.answer = [(0, .ok 5)] := by
  have hticks : Regularly countedWhileReading := by
    intro m hm
    simp only [countedWhileReading, List.mem_cons, Tick.caller.injEq, reduceCtorEq, false_or,
      or_false, List.not_mem_nil] at hm
    rcases hm with rfl | rfl | rfl | rfl
    · trivial
    · trivial
    · exact ⟨_, rfl⟩
    · trivial
  exact ⟨hticks, (classic_refines_sequential .single .standard ⟨5, 5⟩).1 _ hticks, rfl, rfl⟩

end TwinCopy
