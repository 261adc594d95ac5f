import TwinCopy.Proofs.ExactGates
import TwinCopy.Proofs.Records
import TwinCopy.Proofs.ScriptSchedule

/-!
# The readers that a writer waits for

A writer that has turned the side waits exactly for the readers that were inside then. A history
determines for each reader inside the number of turns before its arrival, and so those that arrived
before the latest turn: `History.behind`. With patient callers, and over every gate with
`ExactGateInv`, a writer is inside for one of two reasons only. It was started while a caller held
the lock, or the batch of the latest turn has not ended and a reader from before that turn has not
departed.
-/

namespace TwinCopy

variable {γ κ δ α ρ : Type}

/-! ## Writers inside -/

/-- The batch of a round that has turned the side. -/
def Task.turned? (u : Task α ρ) : Option (Batch α ρ) :=
  match u.pass with
  | .first => none
  | .second => some u.batch

namespace History

/-- The batch of the latest turn, until it is completed or abandoned. -/
def draining : History γ κ δ α ρ → Option (Batch α ρ)
  | .turned batch :: _ => some batch
  | [] | .completed _ :: _ | .abandoned _ :: _ => none
  | _ :: h => draining h

end History

/-- The request published by an action while a caller held the lock. -/
def Action.requestBarred [Gate γ κ δ] : Action γ κ δ α ρ → List (Request α ρ)
  | .moved s m => if s.guarded then (Action.moved s m).requestPublished else []
  | _ => []

/-- The requests published since a caller took the lock, while it holds the lock. -/
def History.barred [Gate γ κ δ] : History γ κ δ α ρ → List (Request α ρ)
  | [] | .moved _ .unlock :: _ => []
  | d :: h => barred h ++ d.requestBarred

/-- When a round ends exactly the writers of its batch finish. -/
lemma Instance.RoundEnded.done_perm {s s' : Instance γ δ α ρ} {n : Nat} {u : Task α ρ}
    (hc : s.RoundEnded s' u.batch) (hd : CellInv s.cells s.writers n (some u)) :
    (s'.finished.map Finished.writer ++ s'.writers.map Writer.id).Perm
      (s.finished.map Finished.writer ++ s.writers.map Writer.id) := by
  obtain ⟨⟨note, hnote, hwriters⟩, -, gone, hfinished, hgone⟩ := hc
  have hids : (s.writers.map note).map Writer.id = s.writers.map Writer.id := by
    rw [List.map_map]
    exact List.map_congr_left fun w _ => (hnote w).1
  have hbatch := (hd.map hnote).batch_perm.map Prod.snd
  rw [List.map_map, List.map_map] at hbatch
  have hsplit := (List.filter_append_perm
    (fun w : Writer α => decide (w.cell ∈ u.batch.map Prod.fst)) (s.writers.map note)).map Writer.id
  rw [List.map_append, hids] at hsplit
  have hstay : (s.writers.map note).filter (·.cell ∉ u.batch.map Prod.fst) =
      (s.writers.map note).filter fun w => !decide (w.cell ∈ u.batch.map Prod.fst) := by
    simp only [decide_not]
  rw [hfinished, hwriters, hstay, List.map_append, List.append_assoc]
  refine List.perm_append_comm_assoc _ _ _ |>.trans (.append_left _ ?_)
  exact ((hgone.trans hbatch.symm).append_right _).trans hsplit

variable [Gate γ κ δ]

/-- Every writer started is finished or has a pending request, and mutations are applied only of
batches that were taken. -/
structure Queued (s : Session γ κ δ α ρ) (h : History γ κ δ α ρ) (t : Option (Task α ρ)) :
    Prop where
  room : s.EnoughCells
  cellInv : CellInv s.inst.cells s.inst.writers s.started t
  requestInv : RequestInv h s.inst t
  numbered : Numbered h s.started
  taken : ∀ u ∈ t, u.batch ∈ h.taken
  applied : ∀ side, ∀ r ∈ h.applied side, r ∈ requests h.taken
  draining : h.draining = t.bind Task.turned?
  done : (h.emptied.map Finished.writer ++ (s.inst.finished.map Finished.writer ++
    s.inst.writers.map Writer.id)).Perm (List.range s.started)

namespace Queued

variable {s s' : Session γ κ δ α ρ} {h : History γ κ δ α ρ} {t t' : Option (Task α ρ)}

lemma moved {m : Move α ρ} {r : Except Failure (Answer κ α)} (hact : s.act m = (r, s'))
    (hm : s.Moved m r s') (hq : Queued s h t) : Queued s' (.moved s m :: h) t where
  room := hq.room.moved hm
  cellInv := hq.cellInv.moved hm hq.room
  requestInv := hq.requestInv.moved hact hm hq.room hq.cellInv
  numbered := hq.numbered.moved hact hm
  taken u hu := by simpa using hq.taken u hu
  applied side r hr := by simpa using hq.applied side r (by simpa using hr)
  draining := hq.draining
  done := by
    have hdone := hq.done
    have hemptied : History.emptied (.moved s m :: h) = h.emptied := by simp
    rw [hemptied]
    cases hm with
    | published =>
      simp only [Instance.publish, Instance.modifyCell, List.map_append, List.map_cons,
        List.map_nil, List.range_succ]
      rw [← List.append_assoc, ← List.append_assoc, List.append_assoc _ _ (s.inst.writers.map _)]
      exact hdone.append_right _
    | turnedAway =>
      have hsame : s.inst.writers.filter (·.id != s.started) = s.inst.writers :=
        List.filter_eq_self.2 fun w hw => by simpa using Nat.ne_of_lt (hq.cellInv.started w hw)
      simp only [Instance.finish, Instance.report, hsame, List.map_cons, List.range_succ,
        List.cons_append]
      exact (List.perm_middle.trans (hdone.cons _)).trans (List.perm_append_singleton _ _).symm
    | _ => exact hdone

/-- A step applies a request of a batch that was taken. -/
lemma applied_progress {inst : Instance γ δ α ρ} {actions : History γ κ δ α ρ}
    (hp : Instance.Progress s.inst t actions inst t') (hq : Queued s h t) :
    ∀ side, ∀ r ∈ History.applied (actions ++ h) side,
      r ∈ requests (History.taken (actions ++ h)) := by
  have happlied := hq.applied
  have hbatch : ∀ {u : Task α ρ} {x : Nat × Request α ρ}, t = some u → x ∈ u.batch →
      x.2 ∈ requests h.taken := fun ht hx =>
    mem_requests.2 ⟨_, hq.taken _ ht, List.mem_map_of_mem hx⟩
  have hone : ∀ (target : Side) (p : Pass) {r : Request α ρ}, r ∈ requests h.taken → ∀ side,
      ∀ q ∈ History.applied (.applied s.inst target p r :: h) side, q ∈ requests h.taken := by
    intro target p r hr side q hq
    rw [History.applied_cons, Action.requestApplied] at hq
    rcases List.mem_append.1 hq with hq | hq
    · exact happlied side q hq
    · split at hq
      · rwa [List.mem_singleton.1 hq]
      · cases hq
  cases hp with
  | @apply _ p done rest old x =>
    have hx : x ∈ Task.batch ⟨p, done, x :: rest, old⟩ :=
      List.mem_append_right done List.mem_cons_self
    simpa using hone (p.target old) p (hbatch rfl hx)
  | @giveUp _ p done rest old x =>
    have hx : x ∈ Task.batch ⟨p, done, x :: rest, old⟩ :=
      List.mem_append_right done List.mem_cons_self
    simpa using hone (p.target old) p (hbatch rfl hx)
  | elect =>
    intro side r hr
    simp only [List.singleton_append, History.taken_cons, Action.batchTaken, requests_append]
    exact List.mem_append_left _ (happlied side r (by simpa using hr))
  | _ => simpa using happlied

/-- A step neither adds nor loses a writer. -/
lemma done_progress {inst : Instance γ δ α ρ} {actions : History γ κ δ α ρ}
    (hp : Instance.Progress s.inst t actions inst t') (hq : Queued s h t) :
    ((History.emptied (actions ++ h)).map Finished.writer ++ (inst.finished.map Finished.writer ++
      inst.writers.map Writer.id)).Perm (List.range s.started) := by
  have hcellInv := hq.cellInv
  have hdone := hq.done
  have hroundEnded : ∀ {u : Task α ρ}, t = some u → s.inst.RoundEnded inst u.batch →
      (h.emptied.map Finished.writer ++ (inst.finished.map Finished.writer ++
        inst.writers.map Writer.id)).Perm (List.range s.started) := fun ht hc =>
    ((hc.done_perm (ht ▸ hcellInv)).append_left _).trans hdone
  cases hp with
  | quiet | elect | turn => simpa using hdone
  | apply hpass =>
    obtain ⟨output, gate, registry, log, note, -, rfl, hlook⟩ := Instance.pass_ok hpass
    have hids : (s.inst.writers.map note).map Writer.id = s.inst.writers.map Writer.id := by
      rw [List.map_map]
      exact List.map_congr_left fun w _ => (hlook.note w).1
    simpa [hids] using hdone
  | giveUp hpass => simpa using hroundEnded rfl (Instance.roundEnded_giveUp hcellInv hpass)
  | complete => simpa using hroundEnded rfl (Instance.roundEnded_complete hcellInv)
  | surplus => simpa using hroundEnded rfl (Instance.roundEnded_surplus hcellInv _ _)

lemma progress {inst : Instance γ δ α ρ} {actions : History γ κ δ α ρ}
    (hp : Instance.Progress s.inst t actions inst t') (hq : Queued s h t) :
    Queued { s with inst } (actions ++ h) t' where
  room := hq.room.progress hp
  cellInv := hq.cellInv.progress hp
  requestInv := hq.requestInv.progress hp hq.cellInv
  numbered := hq.numbered.progress hp
  taken := by
    have htaken := hq.taken
    cases hp with
    | quiet => exact htaken
    | elect =>
      rintro u ⟨⟩
      simp [Task.batch]
    | apply | turn =>
      rintro u ⟨⟩
      simpa [Task.batch] using htaken _ rfl
    | giveUp | complete | surplus => rintro u ⟨⟩
  applied := hq.applied_progress hp
  draining := by
    have hdraining := hq.draining
    cases hp with
    | quiet => exact hdraining
    | elect => exact hdraining
    | @apply _ p => cases p <;>
        simpa [History.draining, Task.turned?, Task.batch] using hdraining
    | _ => rfl
  done := done_progress (s := s) hp hq

lemma emptied (hq : Queued s h t) :
    Queued { s with inst := { s.inst with finished := [], log := [] } }
      (.emptied s.inst.finished s.inst.log :: h) t where
  room := { hq.room with }
  cellInv := hq.cellInv
  requestInv := hq.requestInv.cons rfl rfl hq.requestInv.pending
  numbered := hq.numbered.emptied _ _
  taken u hu := by simpa using hq.taken u hu
  applied side r hr := by simpa using hq.applied side r (by simpa using hr)
  draining := hq.draining
  done := by
    have hdone := hq.done
    rw [← List.append_assoc] at hdone
    rw [History.emptied_cons, Action.writersEmptied, List.map_append, List.map_reverse,
      List.map_nil, List.nil_append]
    exact (((List.reverse_perm _).append_left _).append_right _).trans hdone

/-- The invariant of a fresh instance. -/
lemma start {style : Style} {copies : Copies α} {gate : γ} {registry : Registry} {cells : Nat}
    {wait : WaitPolicy}
    (hroom : (Session.ofInstance (.fresh style copies gate registry cells wait) :
      Session γ κ δ α ρ).EnoughCells) :
    Queued (Session.ofInstance (.fresh style copies gate registry cells wait) :
      Session γ κ δ α ρ) [] none where
  room := hroom
  cellInv := .fresh style copies gate registry cells 0 wait
  requestInv := .fresh style copies gate registry cells wait
  numbered := .refl _
  taken := nofun
  applied := nofun
  draining := rfl
  done := .refl _

/-- The writers inside are those of the round under way and those that have published since it
began. -/
lemma mem_writers_iff (hq : Queued s h t) (n : Nat) : n ∈ s.inst.writers.map Writer.id ↔
    n ∈ (t.elim [] (·.batch.map Prod.snd) ++ h.unclaimed).map Request.writer := by
  rw [← (hq.requestInv.pending.map Request.writer).mem_iff, List.map_map]
  constructor
  · intro hn
    obtain ⟨w, hw, rfl⟩ := List.mem_map.1 hn
    obtain ⟨r, hr, hid, -⟩ := hq.cellInv.request w hw
    exact List.mem_map.2 ⟨(w.cell, r), Instance.mem_published.2 hr, hid⟩
  · intro hn
    obtain ⟨⟨i, r⟩, hr, rfl⟩ := List.mem_map.1 hn
    obtain ⟨w, hw, rfl⟩ := hq.cellInv.writer i r (Instance.mem_published.1 hr)
    obtain ⟨r', hr', hid, -⟩ := hq.cellInv.request w hw
    rw [Instance.mem_published.1 hr] at hr'
    cases hr'
    exact List.mem_map.2 ⟨w, hw, hid.symm⟩

/-- While a round is under way its writers are inside. -/
lemma writers_ne_nil (hq : Queued s h t) {u : Task α ρ} (hu : u ∈ t) : s.inst.writers ≠ [] := by
  obtain ⟨x, hx⟩ := List.exists_mem_of_ne_nil _ (hq.requestInv.snapshots.ne_nil (hq.taken u hu))
  obtain ⟨w, hw, -⟩ := hq.cellInv.writer x.1 x.2 (hq.cellInv.batch u hu x hx)
  exact List.ne_nil_of_mem hw

/-- A request published since the round under way began was not applied yet. -/
lemma not_applied (hq : Queued s h t) {r : Request α ρ} (hr : r ∈ h.unclaimed) (side : Side) :
    r.writer ∉ (h.applied side).map Request.writer := by
  intro hmem
  obtain ⟨q, hq', hwriter⟩ := List.mem_map.1 hmem
  have hnodup := hq.numbered.nodup_iff.2 List.nodup_range
  have hpublished := (hq.requestInv.snapshots.published_perm.map Request.writer).nodup_iff.1
    (List.nodup_append.1 hnodup).1
  rw [List.map_append] at hpublished
  exact (List.nodup_append.1 hpublished).2.2 _ (List.mem_map_of_mem (hq.applied side q hq')) _
    (List.mem_map_of_mem hr) hwriter

end Queued

/-- `Queued` holds at every point of every schedule. -/
theorem queued_after {style : Style} {copies : Copies α} {gate : γ} {registry : Registry}
    {cells : Nat} {wait : WaitPolicy}
    (hroom : (Session.ofInstance (.fresh style copies gate registry cells wait) :
      Session γ κ δ α ρ).EnoughCells) (ticks : List (Tick α ρ)) :
    let p := (Point.start (.ofInstance (.fresh style copies gate registry cells wait) :
      Session γ κ δ α ρ)).after ticks
    Queued p.session p.history p.task? :=
  Point.invariant_after (fun _ hact hm hq => hq.moved hact hm) (fun hp hq => hq.progress hp)
    (fun hq => hq.emptied) (Session.exclusive_fresh _ _ _ _ _ _) (.start hroom)

/-! ## Writers barred by a caller -/

/-- While a caller holds the lock, the unclaimed requests are those published since it took the
lock. -/
def Barred (s : Session γ κ δ α ρ) (h : History γ κ δ α ρ) : Prop :=
  h.barred = if s.guarded then h.unclaimed else []

namespace Barred

variable {s s' : Session γ κ δ α ρ} {h : History γ κ δ α ρ} {t t' : Option (Task α ρ)}

lemma moved {m : Move α ρ} {r : Except Failure (Answer κ α)} (hact : s.act m = (r, s'))
    (hm : s.Moved m r s') (hq : Queued s h t) (hb : Barred s h) : Barred s' (.moved s m :: h) := by
  unfold Barred at hb ⊢
  by_cases hunlock : m = .unlock
  · subst hunlock
    have hfree : s'.guarded = false := by
      have hs' : s' = (s.act .unlock).2 := by rw [hact]
      rw [hs']
      rcases hguarded : s.guarded with _ | _ <;> simp [Session.act, Session.refuse, hguarded]
    rw [hfree]
    rfl
  · have hcons : History.barred (.moved s m :: h) =
        h.barred ++ if s.guarded then (Action.moved s m).requestPublished else [] := by
      cases m <;> first | rfl | exact absurd rfl hunlock
    have hunclaimed : History.unclaimed (.moved s m :: h) =
        h.unclaimed ++ (Action.moved s m).requestPublished := rfl
    rw [hcons, hunclaimed, hb]
    cases hm with
    | unlocked => exact absurd rfl hunlock
    | locked hguarded hwriters =>
      -- a caller takes the lock only when no writer is inside
      have habsent : ∀ n, n ∉ h.unclaimed.map Request.writer := by
        intro n hn
        have hmem := (hq.mem_writers_iff n).2 (by
          rw [List.map_append]
          exact List.mem_append_right _ hn)
        rw [hwriters] at hmem
        cases hmem
      have hnone : h.unclaimed = [] :=
        List.map_eq_nil_iff.1 (List.eq_nil_iff_forall_not_mem.2 habsent)
      rw [hguarded, hnone]
      rfl
    | _ => rcases s.guarded with _ | _ <;> simp

lemma staged {inst : Instance γ δ α ρ} {c c' : Control δ α ρ} {actions : History γ κ δ α ρ}
    (hlocked : s.guarded = true → s.inst.lock.locked = true)
    (hstaged : Instance.Staged s.inst c actions inst c') (hb : Barred s h) :
    Barred { s with inst } (actions ++ h) := by
  unfold Barred at hb ⊢
  cases hstaged with
  | elect _ hlock =>
    -- no batch is taken while a caller holds the lock
    have hfree : s.guarded = false := by
      rcases hguarded : s.guarded with _ | _
      · rfl
      · rw [hlocked hguarded] at hlock
        cases hlock
    rw [hfree] at hb ⊢
    simpa [History.barred, Action.requestBarred] using hb
  | _ =>
    simpa [History.barred, Action.requestBarred, History.unclaimed, Action.requestPublished] using
      hb

end Barred

/-! ## Readers from before a turn -/

/-- A reader inside: its slot, its ticket, and the number of turns before its arrival. -/
structure Reader (κ : Type) where
  slot : Slot
  ticket : κ
  turn : Nat

/-- What a reader presents when it departs. -/
def Reader.token (r : Reader κ) : Slot × κ :=
  (r.slot, r.ticket)

section

variable [DecidableEq κ]

/-- The readers inside after a crossing, given those before it and the number of turns so far. -/
def Crossing.readers (turns : Nat) (readers : List (Reader κ)) : Crossing κ → List (Reader κ)
  | .absent => readers
  | .arrived slot ticket => ⟨slot, ticket, turns⟩ :: readers
  | .entered v => ⟨v.slot, v.ticket, turns⟩ :: readers
  | .departed slot ticket => readers.eraseP (·.token == (slot, ticket))
  | .left v => readers.eraseP (·.token == (v.slot, v.ticket))

namespace History

/-- The readers inside, latest first. -/
def readers : History γ κ δ α ρ → List (Reader κ)
  | [] => []
  | d :: h => d.crossing.readers (turned h).length (readers h)

/-- The readers inside that arrived before the latest turn. -/
def behind (h : History γ κ δ α ρ) : List (Reader κ) :=
  h.readers.filter (·.turn < h.turned.length)

lemma behind_ne_nil {h : History γ κ δ α ρ} :
    h.behind ≠ [] ↔ ∃ r ∈ h.readers, r.turn < h.turned.length := by
  simp [behind]

lemma readers_append {actions : History γ κ δ α ρ} (hactions : ∀ d ∈ actions, d.crossing = .absent)
    (h : History γ κ δ α ρ) : readers (actions ++ h) = h.readers := by
  induction actions with
  | nil => rfl
  | cons d actions ih =>
    obtain ⟨hd, hactions⟩ := List.forall_mem_cons.1 hactions
    rw [List.cons_append, readers, hd]
    exact ih hactions

end History

lemma map_token_eraseP (readers : List (Reader κ)) (x : Slot × κ) :
    (readers.eraseP (·.token == x)).map Reader.token = (readers.map Reader.token).erase x := by
  rw [List.erase_eq_eraseP', List.eraseP_map]
  rfl

/-- These are the readers inside. -/
lemma Session.Crossed.readers_perm {s s' : Session γ κ δ α ρ} {h : History γ κ δ α ρ}
    {m : Move α ρ} (hc : Crossed s (s.crossing m) s') (hm : History.Matched (.moved s m :: h))
    (hp : (h.readers.map Reader.token).Perm (s.inside h)) :
    ((History.readers (.moved s m :: h)).map Reader.token).Perm (s'.inside (.moved s m :: h)) := by
  have hrawReader := hm.2
  simp only [inside, History.rawReaders, History.readers, Action.crossing] at hp hrawReader ⊢
  revert hrawReader hc
  generalize s.crossing m = x
  intro hc hrawReader
  cases hc with
  | absent hgate hvisits =>
    rw [hvisits]
    exact hp
  | arrived harrive hvisits =>
    rw [hvisits]
    exact (hp.cons _).trans List.perm_middle.symm
  | @departed _ slot ticket hgate hvisits =>
    rw [hvisits]
    simp only [Crossing.readers]
    rw [map_token_eraseP]
    have herase := (List.perm_cons_erase hrawReader).append_left
      (s.visits.map fun v => (v.slot, v.ticket))
    exact (List.cons_perm_iff_perm_erase.1
      ((List.perm_middle.symm.trans herase.symm).trans hp.symm)).2.symm
  | entered harrive hside hvisits =>
    rw [hvisits]
    exact hp.cons _
  | left hgate hvisits =>
    rw [hvisits] at hp
    simp only [Crossing.readers]
    rw [map_token_eraseP]
    exact (List.cons_perm_iff_perm_erase.1 hp.symm).2.symm

/-- Every reader inside has arrived after the latest turn, except while a writer waits: then those
from before it are the readers that the writer waits for. -/
structure OldReadersAwaited (old : δ → κ) (s : Session γ κ δ α ρ) (h : History γ κ δ α ρ)
    (c : Control δ α ρ) : Prop where
  inside : (h.readers.map Reader.token).Perm (s.inside h)
  le : ∀ r ∈ h.readers, r.turn ≤ h.turned.length
  behind : ∀ r ∈ h.readers, r.turn < h.turned.length ↔ ∃ p ∈ c.phase?, r.ticket = old p.awaited

namespace OldReadersAwaited

variable {current : γ → κ} {old : δ → κ} {limit : List κ → Nat → Prop}
  {Knows : γ → Option (Phase δ) → List (Nat × κ) → Nat → Prop}
  {s s' : Session γ κ δ α ρ} {h : History γ κ δ α ρ} {c c' : Control δ α ρ}

/-- The tickets of the readers inside. -/
lemma mem_tickets_iff (hd : OldReadersAwaited old s h c) {ticket : κ} :
    ticket ∈ (s.indices h).map Prod.snd ↔ ∃ r ∈ h.readers, r.ticket = ticket := by
  rw [s.map_snd_indices, ← (hd.inside.map Prod.snd).mem_iff, List.map_map, List.mem_map]
  rfl

/-- A reader that arrives while a writer waits gets another ticket than those waited for. -/
lemma moved (M : ExactGateInv current old limit Knows) (hk : ReadersKnown Knows s h c)
    (hd : OldReadersAwaited old s h c)
    (hclearing : ∀ p ∈ c.phase?, ∃ d, p = .clearing d) {m : Move α ρ}
    (hc : s.Crossed (s.crossing m) s') (hm : History.Matched (.moved s m :: h)) :
    OldReadersAwaited old s' (.moved s m :: h) c := by
  have hturned : History.turned (.moved s m :: h) = h.turned := by simp
  -- a new reader gets the current ticket, for which no writer waits
  have hcame : ∀ {slot : Slot} {ticket : κ} {gate : γ},
      Gate.arrive s.inst.gate slot.index = .ok (ticket, gate) →
        ¬∃ p ∈ c.phase?, ticket = old p.awaited := by
    rintro slot ticket gate harrive ⟨p, hp, hticket⟩
    obtain ⟨d, rfl⟩ := hclearing p hp
    have hknows := hk.knows
    rw [Option.mem_def.1 hp] at hknows
    exact M.current_ne hknows ((M.ticket hknows harrive).symm.trans hticket)
  have hall : ∀ r ∈ History.readers (.moved s m :: h), r.turn ≤ h.turned.length ∧
      (r.turn < h.turned.length ↔ ∃ p ∈ c.phase?, r.ticket = old p.awaited) := by
    have hold : ∀ r ∈ h.readers, r.turn ≤ h.turned.length ∧
        (r.turn < h.turned.length ↔ ∃ p ∈ c.phase?, r.ticket = old p.awaited) :=
      fun r hr => ⟨hd.le r hr, hd.behind r hr⟩
    intro r hr
    simp only [History.readers, Action.crossing] at hr
    revert hr hc
    generalize s.crossing m = x
    intro hc hr
    cases hc with
    | absent => exact hold r hr
    | arrived harrive | entered harrive =>
      rcases List.mem_cons.1 hr with rfl | hr
      · exact ⟨Nat.le_refl _, iff_of_false (Nat.lt_irrefl _) (hcame harrive)⟩
      · exact hold r hr
    | departed | left => exact hold r (List.mem_of_mem_eraseP hr)
  refine ⟨hc.readers_perm hm hd.inside, ?_, ?_⟩ <;> rw [hturned]
  · exact fun r hr => (hall r hr).1
  · exact fun r hr => (hall r hr).2

/-- After a turn every reader inside is from before it, and a round goes on when none of these is
left. -/
lemma staged (M : ExactGateInv current old limit Knows) (hk : ReadersKnown Knows s h c)
    (hd : OldReadersAwaited old s h c) {actions : History γ κ δ α ρ} {inst : Instance γ δ α ρ}
    (hstaged : Instance.Staged s.inst c actions inst c') :
      OldReadersAwaited old { s with inst } (actions ++ h) c' := by
  have hreaders := History.readers_append hstaged.crossing h
  have hinside : Session.inside { s with inst } (actions ++ h) = s.inside h := by
    simp only [Session.inside, History.rawReaders_append hstaged.crossing]
  have hsame : ∀ {c' : Control δ α ρ}, History.turned (actions ++ h) = h.turned →
      (∀ r ∈ h.readers, (∃ p ∈ c'.phase?, r.ticket = old p.awaited) ↔
        ∃ p ∈ c.phase?, r.ticket = old p.awaited) →
      OldReadersAwaited old { s with inst } (actions ++ h) c' := by
    intro c' hturned hphase
    refine ⟨by rw [hreaders, hinside]; exact hd.inside, ?_, ?_⟩
    · rw [hreaders, hturned]
      exact hd.le
    · rw [hreaders, hturned]
      exact fun r hr => (hd.behind r hr).trans (hphase r hr).symm
  have hknows := hk.knows
  cases hstaged with
  | @turn batch =>
    obtain ⟨-, hold, -⟩ := M.turn hknows
    have hlength : (History.turned (.turned batch :: h)).length = h.turned.length + 1 := by simp
    refine ⟨by rw [hreaders, hinside]; exact hd.inside, ?_, ?_⟩ <;>
      rw [hreaders, List.singleton_append, hlength] <;> intro r hr
    · exact Nat.le_succ_of_le (hd.le r hr)
    · obtain ⟨x, hx, hticket⟩ := List.mem_map.1 (hd.mem_tickets_iff.2 ⟨r, hr, rfl⟩)
      refine iff_of_true (Nat.lt_succ_of_le (hd.le r hr)) ⟨_, rfl, ?_⟩
      rw [← hticket, M.ticket_eq hknows x hx]
      exact hold.symm
  | clear hcleared =>
    -- no reader inside has the ticket waited for
    have hgone := (M.cleared hknows).symm.trans hcleared
    have habsent := of_decide_eq_true (Except.ok.inj hgone)
    rw [hd.mem_tickets_iff] at habsent
    refine hsame (by simp) fun r hr => iff_of_false ?_ ?_
    · simp [Control.phase?]
    · rintro ⟨p, ⟨⟩, hticket⟩
      exact habsent ⟨r, hr, hticket⟩
  | surplus hcleared =>
    rw [M.cleared hknows] at hcleared
    cases hcleared
  | _ => exact hsame (by simp) fun r _ => by simp [Control.phase?, Phase.awaited]

lemma emptied (hd : OldReadersAwaited old s h c) (finished : List (Finished α ρ))
    (log : List Event) :
    OldReadersAwaited old { s with inst := { s.inst with finished := [], log := [] } }
      (.emptied finished log :: h) c := by
  have hturned : History.turned (.emptied finished log :: h) = h.turned := by simp
  refine ⟨hd.inside, ?_, ?_⟩ <;> rw [hturned]
  · exact hd.le
  · exact hd.behind

end OldReadersAwaited

end

/-! ## Reasons to wait -/

variable [DecidableEq κ]

/-- A writer is inside if it was started while a caller held the lock, in which case it has changed
nothing, or if a reader from before the latest turn has not departed and the batch of that turn has
not ended, in which case the writer is of this batch or came after it. All other writers are
finished. -/
structure Point.Prompt (p : Point γ κ δ α ρ) : Prop where
  inside : ∀ n, n ∈ p.inst.writers.map Writer.id ↔
    n ∈ p.history.barred.map Request.writer ∨
      ∃ batch, p.history.draining = some batch ∧ p.history.behind ≠ [] ∧
        n ∈ (batch.map Prod.snd ++ p.history.unclaimed).map Request.writer
  idle : ∀ n ∈ p.history.barred.map Request.writer, ∀ side,
    n ∉ (p.history.applied side).map Request.writer
  done : (p.history.emptied.map Finished.writer ++ (p.inst.finished.map Finished.writer ++
    p.inst.writers.map Writer.id)).Perm (List.range p.session.started)

/-- For a session without writers: with patient callers, if departures match arrivals and the
history satisfies `fits`, writers are inside for these reasons only. In particular this holds after
every operation of every script, also inside a query. -/
def Session.Prompt (fits : History γ κ δ α ρ → Prop) (s : Session γ κ δ α ρ) : Prop :=
  (∀ ticks, (Point.start s).Patient ticks →
    let p := (Point.start s).after ticks
    p.still = true → p.history.Matched → fits p.history → p.Prompt) ∧
  ∀ script, ∀ t ∈ s.instantsOfAll script, ∃ ticks history,
    (∀ m, .caller m ∈ ticks → m ∈ Operation.movesOfAll script) ∧ (Point.start s).Patient ticks ∧
      (Point.start s).after ticks = ⟨history, t, .resting⟩ ∧
      (history.Matched → fits history → (Point.mk history t .resting).Prompt)

section

variable {current : γ → κ} {old : δ → κ} {limit : List κ → Nat → Prop}
  {Knows : γ → Option (Phase δ) → List (Nat × κ) → Nat → Prop}

/-- A round that is suspended in a still state waits for the readers with the old ticket. -/
lemma Queued.exists_clearing (M : ExactGateInv current old limit Knows) {s : Session γ κ δ α ρ}
    {h : History γ κ δ α ρ} (hq : Queued s h (s.inst.stage .resting).task?)
    (hk : ReadersKnown Knows s h (s.inst.stage .resting)) (hstill : s.inst.still = true)
    {r : Round δ α ρ} (hround : s.inst.round = some r) :
    ∃ d, r.phase = .clearing d ∧ Gate.cleared s.inst.gate d = .ok false := by
  have hstage : s.inst.stage .resting = .waiting r := by rw [Instance.stage, hround]; rfl
  rw [hstage] at hq hk
  have hwaits : s.inst.waits r.phase = true := by
    rcases Instance.still_iff.1 hstill with habsent | ⟨hnone, -⟩ | ⟨r', hr', -, hwaits⟩
    · exact absurd habsent (hq.writers_ne_nil rfl)
    · rw [hround] at hnone
      cases hnone
    · rw [hround] at hr'
      cases hr'
      exact hwaits
  have hknows := hk.knows
  obtain ⟨batch, side, d | d⟩ := r
  · -- a writer never waits before it sends new readers to the other version
    have hstandby := M.standby hknows
    rw [Instance.waits_standby] at hwaits
    rw [hwaits] at hstandby
    cases hstandby
  · exact ⟨d, rfl, Instance.waits_clearing.1 hwaits⟩

/-- What holds at every point of a schedule with patient callers. -/
structure WaitingInv (old : δ → κ) (limit : List κ → Nat → Prop)
    (Knows : γ → Option (Phase δ) → List (Nat × κ) → Nat → Prop) (s : Session γ κ δ α ρ)
    (h : History γ κ δ α ρ) (c : Control δ α ρ) : Prop where
  queued : Queued s h c.task?
  barred : Barred s h
  readersKnown : h.Matched → h.Within limit → ReadersKnown Knows s h c
  oldReadersAwaited : h.Matched → h.Within limit → OldReadersAwaited old s h c

namespace WaitingInv

variable {s : Session γ κ δ α ρ} {h : History γ κ δ α ρ}

omit [DecidableEq κ] in
/-- In a still state without a round the writers inside are those barred by a caller. -/
lemma unclaimed_eq_barred (hs : s.Exclusive .resting) (hround : s.inst.round = none)
    (hq : Queued s h none) (hb : Barred s h) (hstill : s.inst.still = true) :
    h.unclaimed = h.barred := by
  rw [hb]
  by_cases hguarded : s.guarded = true
  · rw [if_pos hguarded]
  · rw [if_neg hguarded]
    have hfree : s.inst.lock.locked ≠ true := by
      intro hlocked
      rcases hs.held hlocked with h | h | h
      · exact hguarded h
      · exact h rfl
      · exact h hround
    -- a writer could be elected if there were any request
    have habsent : ∀ n, n ∉ h.unclaimed.map Request.writer := by
      intro n hn
      have hmem := (hq.mem_writers_iff n).2 hn
      rcases Instance.still_iff.1 hstill with hwriters | ⟨-, hnone | hlocked⟩ | ⟨r, hr, -⟩
      · rw [hwriters] at hmem
        cases hmem
      · have hpending := hq.requestInv.pending.map Request.writer
        rw [hnone] at hpending
        cases hpending.mem_iff.2 hn
      · exact hfree hlocked
      · rw [hround] at hr
        cases hr
    exact List.map_eq_nil_iff.1 (List.eq_nil_iff_forall_not_mem.2 habsent)

/-- While a round waits a reader from before its turn is inside. -/
lemma behind_ne_nil (M : ExactGateInv current old limit Knows) {r : Round δ α ρ}
    (hround : s.inst.round = some r) (hq : Queued s h (s.inst.stage .resting).task?)
    (hk : ReadersKnown Knows s h (s.inst.stage .resting))
    (hd : OldReadersAwaited old s h (s.inst.stage .resting))
    (hstill : s.inst.still = true) : h.behind ≠ [] := by
  obtain ⟨d, hphase, hcleared⟩ := hq.exists_clearing M hk hstill hround
  have hstage : (s.inst.stage .resting).phase? = some (.clearing d) := by
    rw [Instance.stage, hround, Option.elim_some, Control.phase?, hphase]
  have hknows := hk.knows
  rw [hstage] at hknows
  have hleft : old d ∈ (s.indices h).map Prod.snd := by
    have hsome := (M.cleared hknows).symm.trans hcleared
    simpa using hsome
  obtain ⟨x, hx, hticket⟩ := hd.mem_tickets_iff.1 hleft
  refine History.behind_ne_nil.2 ⟨x, hx, (hd.behind x hx).2 ⟨_, hstage, hticket⟩⟩

lemma moved (M : ExactGateInv current old limit Knows) {s' : Session γ κ δ α ρ} {m : Move α ρ}
    {r : Except Failure (Answer κ α)} (hstill : s.inst.still = true) (hact : s.act m = (r, s'))
    (hm : s.Moved m r s') (hover : WaitingInv old limit Knows s h (s.inst.stage .resting)) :
    WaitingInv old limit Knows s' (.moved s m :: h) (s.inst.stage .resting) where
  queued := hover.queued.moved hact hm
  barred := hover.barred.moved hact hm hover.queued
  readersKnown hmatched hwithin :=
    (hover.readersKnown hmatched.1 hwithin.1).moved M.toGateInv hact hmatched hwithin
  oldReadersAwaited hmatched hwithin := by
    have hk := hover.readersKnown hmatched.1 hwithin.1
    have hcrossed := s.crossed_act m
    rw [hact] at hcrossed
    refine (hover.oldReadersAwaited hmatched.1 hwithin.1).moved M hk ?_ hcrossed hmatched
    intro p hp
    rcases hround : s.inst.round with _ | r
    · rw [Instance.stage_resting hround] at hp
      cases hp
    · obtain ⟨d, hphase, -⟩ := hover.queued.exists_clearing M hk hstill hround
      rw [Instance.stage, hround, Option.elim_some, Control.phase?, hphase] at hp
      cases hp
      exact ⟨d, rfl⟩

lemma staged (M : ExactGateInv current old limit Knows) {inst : Instance γ δ α ρ}
    {c c' : Control δ α ρ} {actions : History γ κ δ α ρ}
    (hlocked : s.guarded = true → s.inst.lock.locked = true)
    (hstaged : Instance.Staged s.inst c actions inst c')
    (hover : WaitingInv old limit Knows s h c) :
    WaitingInv old limit Knows { s with inst } (actions ++ h) c' where
  queued := hover.queued.progress hstaged.progress
  barred := hover.barred.staged hlocked hstaged
  readersKnown hmatched hwithin :=
    (hover.readersKnown hmatched.of_append hwithin.of_append).staged M.toGateInv hstaged hwithin
  oldReadersAwaited hmatched hwithin :=
    (hover.oldReadersAwaited hmatched.of_append hwithin.of_append).staged M
      (hover.readersKnown hmatched.of_append hwithin.of_append) hstaged

lemma emptied {c : Control δ α ρ} (hover : WaitingInv old limit Knows s h c) :
    WaitingInv old limit Knows { s with inst := { s.inst with finished := [], log := [] } }
      (.emptied s.inst.finished s.inst.log :: h) c where
  queued := hover.queued.emptied
  barred := by
    have hb := hover.barred
    unfold Barred at hb ⊢
    simpa [History.barred, Action.requestBarred, History.unclaimed, Action.requestPublished] using
      hb
  readersKnown hmatched hwithin := (hover.readersKnown hmatched.1 hwithin.1).emptied _ _
  oldReadersAwaited hmatched hwithin := (hover.oldReadersAwaited hmatched.1 hwithin.1).emptied _ _

lemma prompt (M : ExactGateInv current old limit Knows) {p : Point γ κ δ α ρ}
    (hp : p.session.Exclusive p.control)
    (hover : WaitingInv old limit Knows p.session p.history p.stage) (hstill : p.still = true)
    (hmatched : p.history.Matched) (hwithin : p.history.Within limit) : p.Prompt := by
  obtain ⟨h, s, c⟩ := p
  obtain ⟨rfl, hstill⟩ := Point.still_iff.1 hstill
  obtain ⟨hq, hb, hk, hd⟩ := hover
  have hinside := hq.mem_writers_iff
  have hdraining := hq.draining
  refine ⟨fun n => (hinside n).trans ?_, fun n hn side => ?_, hq.done⟩
  · rcases hround : s.inst.round with _ | r
    · -- without a round every writer inside is barred by the lock of a caller
      have hstage : Point.stage ⟨h, s, .resting⟩ = .resting := Instance.stage_resting hround
      rw [hstage] at hq hdraining ⊢
      have hall := unclaimed_eq_barred hp hround hq hb hstill
      simp only [hall, hdraining, Control.task?]
      simp
    · -- a round is suspended, so a reader from before its turn is inside
      have hstage : Point.stage ⟨h, s, .resting⟩ = .waiting r := by
        simp only [Point.stage, Point.inst, Instance.stage, hround, Option.elim_some]
      have hfree : s.guarded ≠ true := by
        intro hguarded
        rw [(hp.guarded hguarded).2.2] at hround
        cases hround
      have hbehind := behind_ne_nil M hround hq (hk hmatched hwithin) (hd hmatched hwithin) hstill
      rw [hstage] at hdraining ⊢
      rw [Barred, if_neg hfree] at hb
      simp only [hb, hdraining, Control.task?]
      simp [Task.turned?, Round.task, hbehind]
  · have hguarded : s.guarded = true := by
      by_contra hfree
      rw [Barred, if_neg hfree] at hb
      rw [hb] at hn
      cases hn
    rw [Barred, if_pos hguarded] at hb
    rw [hb] at hn
    obtain ⟨r, hr, rfl⟩ := List.mem_map.1 hn
    exact hq.not_applied hr side

end WaitingInv

/-- Over a gate with `ExactGateInv` writers wait for these reasons only. -/
theorem prompt_of_exactGateInv (M : ExactGateInv current old limit Knows) {style : Style}
    {copies : Copies α} {gate : γ} {registry : Registry} {cells : Nat} {wait : WaitPolicy}
    (hroom : (Session.ofInstance (.fresh style copies gate registry cells wait) :
      Session γ κ δ α ρ).EnoughCells) (hknows : Knows gate none [] 0)
    {fits : History γ κ δ α ρ → Prop} (hfits : ∀ h, fits h → h.Within limit) :
    (Session.ofInstance (.fresh style copies gate registry cells wait) :
      Session γ κ δ α ρ).Prompt fits := by
  have hs : Session.Exclusive (.ofInstance (.fresh style copies gate registry cells wait) :
      Session γ κ δ α ρ) .resting := Session.exclusive_fresh _ _ _ _ _ _
  have hstart : WaitingInv old limit Knows (.ofInstance (.fresh style copies gate registry cells
      wait) : Session γ κ δ α ρ) [] .resting :=
    { queued := .start hroom
      barred := rfl
      readersKnown := fun _ _ => .start rfl rfl hknows
      oldReadersAwaited := fun _ _ => ⟨.refl _, nofun, nofun⟩ }
  have hprompt : ∀ ticks, (Point.start (.ofInstance (.fresh style copies gate registry cells
      wait) : Session γ κ δ α ρ)).Patient ticks →
      let p := (Point.start (.ofInstance (.fresh style copies gate registry cells wait) :
        Session γ κ δ α ρ)).after ticks
      p.still = true → p.history.Matched → fits p.history → p.Prompt := by
    intro ticks hticks p hstill hmatched hp
    refine WaitingInv.prompt M (Point.exclusive_after (p := .start _) hs ticks) ?_ hstill hmatched
      (hfits _ hp)
    exact Point.patient_after (fun _ hstill hact hm hover => hover.moved M hstill hact hm)
      (fun hlocked hstaged hover => hover.staged M hlocked hstaged) (fun hover => hover.emptied) hs
      hticks hstart
  refine ⟨hprompt, fun script t ht => ?_⟩
  obtain ⟨ticks, history, hmoves, hpatient, hafter, hstill⟩ :=
    Session.exists_patient_of_mem_instants hs rfl script ht
  refine ⟨ticks, history, hmoves, hpatient, hafter, fun hmatched hp => ?_⟩
  have hblocked := hprompt ticks hpatient
  rw [hafter] at hblocked
  exact hblocked hstill hmatched hp

end

/-! ## The three gates -/

/-- Over two read-indicators there are enough cells under both styles. -/
lemma Session.exists_enoughCells_ofStyle (style : Style) (kind : IndicatorKind) (c : Config)
    (init : Copies α) : ∃ registry cells,
      (Instance.ofStyle style kind c init : Instance Versioned Version α ρ) =
          .fresh style init (.ofConfig kind c) registry cells c.wait ∧
        (ofInstance (.fresh style init (.ofConfig kind c) registry cells c.wait) :
          Session Versioned Version Version α ρ).EnoughCells := by
  cases style with
  | exclusive => exact ⟨_, _, rfl, enoughCells_exclusive _ _ _ _⟩
  | combining => exact ⟨_, _, rfl, enoughCells_bounded rfl _ _ _ _⟩

/-- A writer waits for exactly the readers that were inside at its turn, for all three gates: over
read-indicators that count, of every kind and under both styles, while there are fewer than `2 ^ 64`
arrivals; over a word with versions while no version has `2 ^ 30` readers at once; and over a word
without versions while no more than `2 ^ 19` readers are in flight. -/
theorem writers_wait_for_earlier_readers (c : Config) (init : Copies α) :
    (∀ style kind, IndicatorKind.Counting kind →
      (Session.ofInstance (.ofStyle style kind c init) :
        Session Versioned Version Version α ρ).Prompt (·.arrivals < 2 ^ 64)) ∧
    (Session.ofInstance (.versionedWord c init) :
      Session VersionedWord Version Version α ρ).Prompt (·.Within VersionedWord.Limit) ∧
    (Session.ofInstance (.ingressWord c init) :
      Session IngressWord Side IngressWord.Backlog α ρ).Prompt (·.peak ≤ 2 ^ 19) := by
  refine ⟨fun style kind hkind => ?_, ?_, ?_⟩
  · obtain ⟨registry, cells, hstart, hroom⟩ :=
      Session.exists_enoughCells_ofStyle (ρ := ρ) style kind c init
    rw [hstart]
    exact prompt_of_exactGateInv (Versioned.exactGateInv kind) hroom
      (Versioned.knows_ofConfig hkind c)
      fun h => Versioned.within_of_arrivals kind
  · exact prompt_of_exactGateInv VersionedWord.exactGateInv (Session.enoughCells_exclusive _ _ _ _)
      VersionedWord.knows_fresh fun _ => id
  · exact prompt_of_exactGateInv IngressWord.exactGateInv (Session.enoughCells_exclusive _ _ _ _)
      IngressWord.knows_fresh fun _ => .of_peak

/-- A writer waits for a query, another writer is started after it, and a reader that arrives later
is not waited for. -/
def overtaken : List (Tick Nat Nat) :=
  let count : Mutation Nat Nat := .ofFunction fun n => (n + 1, n)
  [.caller .register, .caller .register, .caller (.enter 0), .caller (.mutate 1 count false),
    .writer, .writer, .writer, .writer, .writer, .caller (.mutate 0 count false),
    .caller (.enter 1)]

theorem writers_wait_overtaken :
    let start : Session Versioned Version Version Nat Nat :=
      .ofInstance (.ofStyle .combining .single .standard ⟨5, 6⟩)
    let p := (Point.start start).after overtaken
    p.Prompt ∧ p.inst.writers.map Writer.id = [0, 1] ∧ p.history.readers.length = 2 ∧
      p.history.behind.map Reader.ticket = [.zero] := by
  have hprompt := (writers_wait_for_earlier_readers .standard (⟨5, 6⟩ : Copies Nat) (ρ := Nat)).1
    .combining .single trivial
  exact ⟨hprompt.1 overtaken (by decide +kernel) (by decide +kernel) (by decide +kernel)
    (by decide +kernel), by decide +kernel, by decide +kernel, by decide +kernel⟩

end TwinCopy
