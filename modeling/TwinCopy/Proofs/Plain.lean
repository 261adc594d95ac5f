import TwinCopy.Proofs.Flags
import TwinCopy.Proofs.Records

/-!
# Plain callers

Plain callers read in queries, start writers, claim slots of the instance and release them. They
make no raw arrivals or departures, do not take the writer lock, and use no slots of another
registry. Hence the readers inside are those whose queries are under way, no writer is rejected, and
every writer started has published a request: `plainInv_after`.
-/

namespace TwinCopy

variable {γ κ δ α ρ : Type}

/-- A move of a plain caller. -/
def Move.Plain : Move α ρ → Prop
  | .foreign | .arrive _ | .depart .. | .lock | .unlock => False
  | _ => True

instance : (m : Move α ρ) → Decidable m.Plain
  | .foreign | .arrive _ | .depart .. | .lock | .unlock => inferInstanceAs (Decidable False)
  | .look | .text | .next | .register | .churn | .slot _ | .drop _ | .enter _ | .leave _ | .tryLock
  | .mutate .. => inferInstanceAs (Decidable True)

/-- A plain move is no raw arrival or departure. -/
lemma Move.Plain.not_raw {m : Move α ρ} (h : m.Plain) : Tick.raw (.caller m) = false := by
  cases m with
  | arrive | depart => cases h
  | _ => rfl

/-- The callers of a schedule are plain. -/
def Plainly (ticks : List (Tick α ρ)) : Prop :=
  ∀ m, .caller m ∈ ticks → m.Plain

namespace Plainly

variable {ticks ticks' : List (Tick α ρ)}

lemma append (h : Plainly ticks) (h' : Plainly ticks') : Plainly (ticks ++ ticks') :=
  fun m hm => (List.mem_append.1 hm).elim (h m) (h' m)

/-- Ticks of the leading writer make no moves. -/
lemma replicate_writer (n : Nat) : Plainly (List.replicate n (.writer : Tick α ρ)) := by
  intro m hm
  cases List.eq_of_mem_replicate hm

lemma not_raw (h : Plainly ticks) : ∀ t ∈ ticks, t.raw = false := by
  intro t ht
  cases t with
  | caller m => exact (h m ht).not_raw
  | writer | outbox => rfl

end Plainly

variable [Gate γ κ δ] [DecidableEq κ]

/-- The invariant for plain callers: the slots of the table are of the instance, there are no raw
readers, and the numbers of writers are those of the requests published. -/
structure PlainInv (s : Session γ κ δ α ρ) (h : History γ κ δ α ρ) : Prop where
  unguarded : s.guarded = false
  own : ∀ slot, some slot ∈ s.table → slot.issuer = s.inst.registry.id
  matched : h.Matched
  rawReaders : h.rawReaders = []
  turnedAway : h.turnedAway = []
  numbers : h.published.map Request.writer = List.range s.started

/-- Actions without a crossing preserve `Matched`. -/
lemma History.Matched.append {actions h : History γ κ δ α ρ} (hm : h.Matched)
    (hactions : ∀ d ∈ actions, d.crossing = .absent) : Matched (actions ++ h) := by
  induction actions with
  | nil => exact hm
  | cons d actions ih =>
    obtain ⟨hd, hactions⟩ := List.forall_mem_cons.1 hactions
    refine ⟨ih hactions, ?_⟩
    rw [hd]
    trivial

namespace PlainInv

variable {s s' : Session γ κ δ α ρ} {h : History γ κ δ α ρ} {c c' : Control δ α ρ}

/-- Every slot that a caller presents is one of the instance. -/
lemma issuer_eq (ho : PlainInv s h) {k : Nat} {slot : Slot} (hslot : s.slot? k = some slot) :
    slot.issuer = s.inst.registry.id := by
  unfold Session.slot? at hslot
  split at hslot
  · exact ho.own slot (List.mem_of_getElem? (Option.join_eq_some_iff.1 hslot))
  · cases hslot
    rfl

lemma moved {m : Move α ρ} {r : Except Failure (Answer κ α)} (hplain : m.Plain)
    (hact : s.act m = (r, s')) (hm : s.Moved m r s') (ho : PlainInv s h) :
    PlainInv s' (.moved s m :: h) := by
  have hcrossing := s.crossing_of_not_raw hplain.not_raw
  -- no writer is started with a slot of another registry
  have haway : (Action.moved s m).writerTurnedAway = [] := by
    cases hm with
    | turnedAway _ hslot hissuer => exact absurd (ho.issuer_eq hslot) hissuer
    | _ => exact Action.writerTurnedAway_of_finished_eq hact rfl
  refine ⟨?_, fun slot hslot => ?_, ⟨ho.matched, ?_⟩, ?_, ?_, ?_⟩
  · cases hm with
    | locked | unlocked => cases hplain
    | _ => exact ho.unguarded
  · rw [hm.registry_id]
    rcases hm.mem_table hslot with hold | hregister | ⟨rfl, -⟩
    · exact ho.own slot hold
    · exact (Registry.register_spec hregister).1
    · cases hplain
  · rcases hcrossing with hx | ⟨v, hx⟩ | ⟨v, hx⟩ <;> simp only [Action.crossing, hx] <;> trivial
  · rcases hcrossing with hx | ⟨v, hx⟩ | ⟨v, hx⟩ <;>
      simpa only [History.rawReaders, Action.crossing, hx] using ho.rawReaders
  · rw [History.turnedAway_cons, ho.turnedAway, haway, List.nil_append]
  · rw [History.published_cons, List.map_append, ho.numbers]
    cases hm.called hact with
    | absent hpublished _ _ _ hstarted => rw [hpublished, hstarted, List.map_nil, List.append_nil]
    | letIn _ hpublished _ _ _ hstarted =>
      rw [hpublished, hstarted, List.range_succ, List.map_singleton]
    | turnedAway _ _ hturnedAway =>
      rw [hturnedAway] at haway
      cases haway

lemma staged {actions : History γ κ δ α ρ} {inst : Instance γ δ α ρ}
    (hstaged : Instance.Staged s.inst c actions inst c') (ho : PlainInv s h) :
    PlainInv { s with inst } (actions ++ h) where
  unguarded := ho.unguarded
  own slot hslot := by
    rw [ho.own slot hslot]
    exact hstaged.progress.frame.2.1.symm
  matched := ho.matched.append hstaged.crossing
  rawReaders := by rw [History.rawReaders_append hstaged.crossing, ho.rawReaders]
  turnedAway := by
    have hnone := ho.turnedAway
    cases hstaged <;> simpa [Action.writerTurnedAway] using hnone
  numbers := by
    rw [hstaged.progress.published_eq]
    exact ho.numbers

/-- `PlainInv` holds of a session without history. -/
lemma start (inst : Instance γ δ α ρ) : PlainInv (.ofInstance inst : Session γ κ δ α ρ) [] where
  unguarded := rfl
  own _ hslot := absurd hslot List.not_mem_nil
  matched := trivial
  rawReaders := rfl
  turnedAway := rfl
  numbers := rfl

lemma emptied (ho : PlainInv s h) :
    PlainInv { s with inst := { s.inst with finished := [], log := [] } }
      (.emptied s.inst.finished s.inst.log :: h) where
  unguarded := ho.unguarded
  own := ho.own
  matched := ⟨ho.matched, trivial⟩
  rawReaders := ho.rawReaders
  turnedAway := by simpa [Action.writerTurnedAway] using ho.turnedAway
  numbers := by simpa [Action.requestPublished] using ho.numbers

end PlainInv

/-- `PlainInv` holds at every point of every schedule with plain callers. -/
theorem plainInv_after {s : Session γ κ δ α ρ} (hs : s.Exclusive .resting) (hstart : PlainInv s [])
    {ticks : List (Tick α ρ)} (hticks : Plainly ticks) :
    PlainInv ((Point.start s).after ticks).session ((Point.start s).after ticks).history :=
  Point.stage_after (P := fun s h _ => PlainInv s h) (p := .start s)
    (fun hmem hact hm ho => ho.moved (hticks _ hmem) hact hm) (fun hstaged ho => ho.staged hstaged)
    (fun ho => ho.emptied) hs hstart

end TwinCopy
