import Mathlib.Logic.Function.Basic
import TwinCopy.Proofs.ReferenceScripts

/-!
# Gates that count readers by version

A `Tally` is the abstract state of a gate with two versions: the active side, the current version
and the number of readers of each version. The reference gate has one between rounds, for a round
turns the side and the version together. A gate is `Tallying` if each of its operations does to its
tally what the operation of the reference gate does, and it then simulates the reference gate as
long as no version has more than `2 ^ 30 - 1` readers (`Tallying.simulatesRef`).
-/

namespace TwinCopy

/-- The active side, the current version, and the readers of each version. -/
structure Tally where
  side : Side
  current : Version
  count : Version → Nat

namespace Tally

/-- One more reader of the current version. -/
def arrive (t : Tally) : Tally :=
  { t with count := Function.update t.count t.current (t.count t.current + 1) }

/-- One reader less of a version, if there is one. -/
def depart (t : Tally) (v : Version) : Tally :=
  { t with count := Function.update t.count v (t.count v - 1) }

/-- The other side and the other version. -/
def turn (t : Tally) : Tally :=
  { t with side := t.side.opposite, current := t.current.next }

end Tally

/-- A view of versions that only shows whether they have readers. -/
def GateView.coarse : GateView → GateView
  | .packed current inZero inOne => .versions current (decide (inZero = 0)) (decide (inOne = 0))
  | v => v

lemma GateView.current?_coarse (v : GateView) : v.coarse.current? = v.current? := by
  cases v <;> rfl

/-! ## The tally of the reference gate -/

namespace Passage

/-- At no time were there more than `n` readers on one side. -/
def AtMost (n : Nat) (log : List Passage) : Prop :=
  ∀ past ∈ log.tails, (inside past).count .left ≤ n ∧ (inside past).count .right ≤ n

instance (n : Nat) (log : List Passage) : Decidable (AtMost n log) :=
  inferInstanceAs (Decidable (∀ past ∈ log.tails, _))

lemma AtMost.of_suffix {n : Nat} {log log' : List Passage} (hsuffix : log <:+ log')
    (h : AtMost n log') : AtMost n log :=
  fun past hpast => h past ((List.mem_tails ..).2 (((List.mem_tails ..).1 hpast).trans hsuffix))

lemma AtMost.count_le {n : Nat} {log : List Passage} (h : AtMost n log) (side : Side) :
    (inside log).count side ≤ n := by
  obtain ⟨hleft, hright⟩ := h log ((List.mem_tails ..).2 List.suffix_rfl)
  cases side with
  | left => exact hleft
  | right => exact hright

end Passage

namespace RefGate

/-- The readers of each version are those on its side. -/
def tally (r : RefGate) : Tally :=
  ⟨r.side, r.side.version, fun v => r.inside.count v.side⟩

/-- A writer waits for the version of the inactive side, or no writer waits and no reader is on that
side. -/
def Awaits (r : RefGate) : Option Version → Prop
  | none => r.side.opposite ∉ r.inside
  | some v => v = r.side.opposite.version

lemma awaits_fresh : fresh.Awaits none :=
  List.not_mem_nil

lemma inside_arrive (r : RefGate) : r.arrive.inside = r.side :: r.inside :=
  rfl

lemma inside_depart (r : RefGate) (side : Side) :
    (r.depart side).2.inside = r.inside.erase side := by
  unfold depart
  split
  · rfl
  · next habsent => exact (List.erase_of_not_mem habsent).symm

lemma tally_arrive (r : RefGate) : r.arrive.tally = r.tally.arrive := by
  refine Tally.mk.injEq .. ▸ ⟨rfl, rfl, ?_⟩
  funext v
  simp only [inside_arrive, tally, Side.side_version, List.count_cons]
  by_cases hv : v = r.side.version
  · subst hv
    simp
  · have hside : r.side ≠ v.side := fun h => hv (by rw [h, Version.version_side])
    simp [Function.update_of_ne hv, hside]

lemma tally_depart (r : RefGate) (side : Side) :
    (r.depart side).2.tally = r.tally.depart side.version := by
  refine Tally.mk.injEq .. ▸ ⟨r.side_depart side, by rw [r.side_depart]; rfl, ?_⟩
  funext v
  simp only [inside_depart, tally, Side.side_version, List.count_erase]
  by_cases hv : v = side.version
  · subst hv
    simp
  · have hside : side ≠ v.side := fun h => hv (by rw [h, Version.version_side])
    simp [Function.update_of_ne hv, hside]

lemma tally_turn (r : RefGate) : r.turn.tally = r.tally.turn := by
  simp only [tally, turn, Tally.turn, Side.version_opposite]
  rfl

/-- A version has no readers iff there are none on its side. -/
lemma count_tally_eq_zero (r : RefGate) (side : Side) :
    r.tally.count side.version = 0 ↔ side ∉ r.inside := by
  simp only [tally, Side.side_version, List.count_eq_zero]

lemma Awaits.arrive {r : RefGate} {d : Option Version} (h : r.Awaits d) : r.arrive.Awaits d := by
  cases d with
  | none =>
    rw [Awaits, inside_arrive, List.mem_cons]
    exact not_or.2 ⟨r.side.opposite_ne, h⟩
  | some v => exact h

lemma Awaits.depart {r : RefGate} {d : Option Version} (h : r.Awaits d) (side : Side) :
    (r.depart side).2.Awaits d := by
  cases d with
  | none =>
    rw [Awaits, inside_depart, side_depart]
    exact fun hmem => h (List.mem_of_mem_erase hmem)
  | some v =>
    rw [Awaits, side_depart]
    exact h

end RefGate

/-! ## Gates -/

/-- `Keeps` relates a gate with versions to its tally: it is preserved by the corresponding
operations of the two, and answers and views of the gate are computed from the tally. -/
structure Tallying {γ : Type} [Gate γ Version Version] (Keeps : γ → Tally → Prop) : Prop where
  ticket_eq : ∀ n, Gate.ticket γ n = .ofIndex n
  side_eq : ∀ {g t}, Keeps g t → Gate.side g = t.side
  view_eq : ∀ {g t}, Keeps g t → (Gate.view g).coarse =
    .versions t.current (decide (t.count .zero = 0)) (decide (t.count .one = 0))
  arrive : ∀ {g t}, Keeps g t → t.count t.current + 1 < 2 ^ 30 → ∀ slot,
    ∃ g', Gate.arrive g slot = .ok (t.current, g') ∧ Keeps g' t.arrive
  depart : ∀ {g t}, Keeps g t → ∀ slot v,
    (Gate.depart g slot v).1.map (fun _ => ()) =
        (if t.count v = 0 then .error .unmatchedDeparture else .ok ()) ∧
      Keeps (Gate.depart g slot v).2 (t.depart v)
  turn : ∀ {g t}, Keeps g t → (Gate.turn g).1 = t.current ∧
    Gate.standby (Gate.turn g).2 t.current = decide (t.count t.current.next = 0) ∧
    Keeps (Gate.shift (Gate.turn g).2 t.current) t.turn
  cleared : ∀ {g t}, Keeps g t → ∀ v, Gate.cleared g v = .ok (decide (t.count v = 0))

/-- A gate is related to the reference gate if it keeps its tally. -/
def Tally.Fits {γ : Type} (Keeps : γ → Tally → Prop) (r : RefGate) (g : γ) (d : Option Version) :
    Prop :=
  Keeps g r.tally ∧ r.Awaits d

/-- A gate that keeps a tally simulates the reference gate. -/
lemma Tallying.simulatesRef {γ : Type} [Gate γ Version Version] {Keeps : γ → Tally → Prop}
    (h : Tallying Keeps) :
    SimulatesRef Side.version GateView.coarse (Passage.AtMost (2 ^ 30 - 1)) (Tally.Fits Keeps) where
  fine_of_suffix := Passage.AtMost.of_suffix
  ticket_eq n := by
    rw [h.ticket_eq]
    cases n <;> rfl
  side_eq hfits := h.side_eq hfits.1
  shown_eq {r g d} hfits _ := by
    rw [h.view_eq hfits.1]
    have hcount := r.count_tally_eq_zero
    exact congrArg₂ (GateView.versions r.side.version) (decide_eq_decide.2 (hcount .left))
      (decide_eq_decide.2 (hcount .right))
  arrive {r g d} hfits hfine slot := by
    have hroom := hfine.count_le r.side
    change r.arrive.inside.count r.side ≤ _ at hroom
    rw [RefGate.inside_arrive, List.count_cons_self] at hroom
    obtain ⟨g', harrive, hkeeps⟩ := h.arrive hfits.1
      (by simp only [RefGate.tally, Side.side_version]; omega) slot
    exact ⟨g', harrive, r.tally_arrive ▸ hkeeps, hfits.2.arrive⟩
  depart {r g d} side hfits _ slot := by
    obtain ⟨hresult, hkeeps⟩ := h.depart hfits.1 slot side.version
    refine ⟨?_, r.tally_depart side ▸ hkeeps, hfits.2.depart side⟩
    rw [hresult, RefGate.depart]
    by_cases hmem : side ∈ r.inside
    · rw [if_pos hmem, if_neg (fun h0 => (r.count_tally_eq_zero side).1 h0 hmem)]
      rfl
    · rw [if_neg hmem, if_pos ((r.count_tally_eq_zero side).2 hmem)]
      rfl
  turn {r g} hfits _ := by
    obtain ⟨hold, hstandby, hkeeps⟩ := h.turn hfits.1
    -- no reader is on the other side, so the version that goes with it has none
    have hempty : r.tally.count r.tally.current.next = 0 := by
      rw [show r.tally.current.next = r.side.opposite.version from r.side.version_opposite.symm]
      exact (r.count_tally_eq_zero _).2 hfits.2
    rw [hold]
    refine ⟨by rw [hstandby, decide_eq_true hempty], r.tally_turn ▸ hkeeps, ?_⟩
    exact congrArg Side.version r.side.opposite_opposite.symm
  cleared {r g d} hfits _ := by
    rw [h.cleared hfits.1, show d = r.side.opposite.version from hfits.2]
    exact congrArg Except.ok (decide_eq_decide.2 (r.count_tally_eq_zero _))
  rest hfits habsent := ⟨hfits.1, habsent⟩

end TwinCopy
