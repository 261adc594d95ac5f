import TwinCopy.Indicator.Script
import TwinCopy.Proofs.Presence

/-!
# The motions of a script for a read-indicator

A script lets the holders of slots arrive and depart, a number of times each.
`IndicatorDesk.motions` is the sequence of motions that results, and `indicator_after` shows that
the read-indicator changes by these only. So the results about `Indicator.log` and `Indicator.after`
apply to scripts: the answers of a counting read-indicator are determined by the numbers of arrivals
and of accepted departures, and those of one with flags by the set of the slots that are present.
-/

namespace TwinCopy

open Motion Answered

namespace Indicator

variable {i : Indicator} {p : Motion}

lemma after_append (i : Indicator) (ps qs : List Motion) :
    i.after (ps ++ qs) = (i.after ps).after qs := by
  induction ps generalizing i with
  | nil => rfl
  | cons p ps ih => exact ih (i.pass p).2

lemma log_append (i : Indicator) (ps qs : List Motion) :
    i.log (ps ++ qs) = i.log ps ++ (i.after ps).log qs := by
  induction ps generalizing i with
  | nil => rfl
  | cons p ps ih => exact congrArg (_ :: ·) (ih (i.pass p).2)

/-- The motions of `n` repetitions, the last of which may be refused. -/
def repeated (i : Indicator) (p : Motion) : Nat → List Motion
  | 0 => []
  | n + 1 =>
      match i.pass p with
      | (.ok (), j) => p :: j.repeated p n
      | (.error _, _) => [p]

/-- Either all repetitions are accepted, or some are and the next one is refused. -/
lemma passTimes_cases (i : Indicator) (p : Motion) (done n : Nat) :
    (i.passTimes p done n = (.ok .done, i.after (i.repeated p n)) ∧
      i.repeated p n = List.replicate n p ∧ ∀ e ∈ i.log (List.replicate n p), e.answer = .ok ()) ∨
    ∃ m < n, ∃ misuse,
      i.passTimes p done n =
        (.error (.fault (.misuse misuse) (some (done + m))), i.after (i.repeated p n)) ∧
      i.repeated p n = List.replicate (m + 1) p ∧
      (∀ e ∈ i.log (List.replicate m p), e.answer = .ok ()) ∧
      ((i.after (List.replicate m p)).pass p).1 = .error misuse := by
  induction n generalizing i done with
  | zero => exact .inl ⟨rfl, rfl, by simp [log]⟩
  | succ n ih =>
    rcases hpass : i.pass p with ⟨misuse | ⟨⟩, j⟩
    · refine .inr ⟨0, Nat.zero_lt_succ n, misuse, ?_, ?_, by simp [log], by simp [after, hpass]⟩ <;>
        simp [passTimes, repeated, hpass, after]
    · have hcons : ∀ m, (∀ e ∈ j.log (List.replicate m p), e.answer = .ok ()) →
          ∀ e ∈ i.log (List.replicate (m + 1) p), e.answer = .ok () := by
        intro m hall
        rw [List.replicate_succ, log, hpass]
        exact List.forall_mem_cons.2 ⟨rfl, hall⟩
      rcases ih j (done + 1) with ⟨htimes, hrepeated, hall⟩ |
        ⟨m, hm, misuse, htimes, hrepeated, hall, hrefused⟩
      · refine .inl ⟨?_, ?_, hcons n hall⟩
        · simp [passTimes, repeated, hpass, htimes, after]
        · simp [repeated, hpass, hrepeated, List.replicate_succ]
      · refine .inr ⟨m + 1, Nat.succ_lt_succ hm, misuse, ?_, ?_, hcons m hall, ?_⟩
        · simp [passTimes, repeated, hpass, htimes, after, Nat.add_assoc, Nat.add_comm 1]
        · simp [repeated, hpass, hrepeated, List.replicate_succ]
        · rw [List.replicate_succ, after, hpass]
          exact hrefused

/-! ## Counting read-indicators -/

lemma map_motion_log (i : Indicator) (ps : List Motion) : (i.log ps).map Answered.motion = ps := by
  induction ps generalizing i with
  | nil => rfl
  | cons p ps ih => exact congrArg (p :: ·) (ih (i.pass p).2)

variable {ps : List Motion} {slot n : Nat}

/-- The accepted departures among `n` accepted ones of a slot. -/
lemma accepted_replicate {among : Nat → Bool} (hamong : among slot = true)
    (h : ∀ e ∈ i.log (List.replicate n (.departure slot)), e.answer = .ok ()) :
    accepted among (i.log (List.replicate n (.departure slot))) = n := by
  have hmotions := i.map_motion_log (List.replicate n (.departure slot))
  have hall : ∀ e ∈ i.log (List.replicate n (.departure slot)),
      (e.motion.departing among && e.answer.isOk) = true := by
    intro e he
    have hmotion : e.motion = .departure slot := by
      refine List.eq_of_mem_replicate (n := n) ?_
      rw [← hmotions]
      exact List.mem_map_of_mem he
    rw [hmotion, h e he, Motion.departing, hamong]
    rfl
  have hlength := congrArg List.length hmotions
  rw [List.length_map, List.length_replicate] at hlength
  rw [accepted, List.countP_eq_length.2 hall, hlength]

/-- The number of departures with a slot that will be accepted: the arrivals that share its count
and have not departed. -/
def inside (i : Indicator) (ps : List Motion) (slot : Nat) : Nat :=
  arrivals (i.shares slot) ps - accepted (i.shares slot) (i.log ps)

lemma accepted_le_arrivals (h : i.Holds [] 0) (hps : arrivals anyone ps < 2 ^ 64) (slot : Nat) :
    accepted (i.shares slot) (i.log ps) ≤ arrivals (i.shares slot) ps := by
  obtain ⟨inside, hnet⟩ := exists_netCounts h hps
  rw [hnet.balance (i.shares slot) fun s t hst => by simp [shares, hst]]
  exact Nat.le_add_right _ _

/-- Arrivals are not refused. -/
lemma passTimes_arrival (h : i.Holds [] 0) (hps : arrivals anyone ps + n < 2 ^ 64) (slot : Nat) :
    ((i.after ps).passTimes (.arrival slot) 0 n).1 = .ok .done := by
  rcases (i.after ps).passTimes_cases (.arrival slot) 0 n with
    ⟨htimes, -⟩ | ⟨m, hm, misuse, -, -, -, hrefused⟩
  · rw [htimes]
  · have hbound : arrivals anyone (ps ++ List.replicate m (.arrival slot)) < 2 ^ 64 := by
      have hle : (List.replicate m (Motion.arrival slot)).countP (arriving anyone) ≤ m :=
        List.countP_le_length.trans (List.length_replicate ..).le
      rw [arrivals, List.countP_append]
      rw [arrivals] at hps
      omega
    rw [← after_append, (exact_of_holds h hbound).arrive_eq slot] at hrefused
    cases hrefused

/-- Departures are refused when no reader is inside any more. -/
lemma passTimes_departure (h : i.Holds [] 0) (hps : arrivals anyone ps < 2 ^ 64) (slot n : Nat) :
    ((i.after ps).passTimes (.departure slot) 0 n).1 = if n ≤ i.inside ps slot then .ok .done
      else .error (.fault (.misuse .unmatchedDeparture) (some (i.inside ps slot))) := by
  have hsame : i.shares slot slot = true := beq_self_eq_true _
  -- departures do not change the number of arrivals, and each accepted one is counted
  have hnone : ∀ among m, arrivals among (ps ++ List.replicate m (.departure slot)) =
      arrivals among ps := by
    intro among m
    rw [arrivals, List.countP_append, List.countP_replicate]
    rfl
  have hmore :
    ∀ m, (∀ e ∈ (i.after ps).log (List.replicate m (.departure slot)), e.answer = .ok ()) →
      accepted (i.shares slot) (i.log (ps ++ List.replicate m (.departure slot))) =
        accepted (i.shares slot) (i.log ps) + m := by
    intro m hall
    rw [log_append, accepted, List.countP_append]
    exact congrArg (_ + ·) (accepted_replicate hsame hall)
  rcases (i.after ps).passTimes_cases (.departure slot) 0 n with
    ⟨htimes, -, hall⟩ | ⟨m, hm, misuse, htimes, -, hall, hrefused⟩
  · have hle := accepted_le_arrivals h ((hnone anyone n).trans_lt hps) slot
    rw [hmore n hall, hnone] at hle
    have hinside : n ≤ i.inside ps slot := Nat.le_sub_of_add_le' hle
    rw [htimes, if_pos hinside]
  · have hexact := exact_of_holds h ((hnone anyone m).trans_lt hps)
    rw [← after_append, hexact.depart_eq slot, hmore m hall, hnone] at hrefused
    split at hrefused
    · next heq =>
      have hinside : i.inside ps slot = m := by
        rw [inside, heq, Nat.add_sub_cancel_left]
      cases hrefused
      rw [htimes, hinside, if_neg (Nat.not_le.2 hm), Nat.zero_add]
    · cases hrefused

lemma passTimes_one (i : Indicator) (p : Motion) : (i.passTimes p 0 1).1 =
    match (i.pass p).1 with
    | .ok () => .ok .done
    | .error m => .error (.fault (.misuse m) (some 0)) := by
  rcases hpass : i.pass p with ⟨_ | ⟨⟩, j⟩ <;> simp [passTimes, hpass]

lemma passTimes_snd (i : Indicator) (p : Motion) (done n : Nat) :
    (i.passTimes p done n).2 = i.after (i.repeated p n) := by
  rcases i.passTimes_cases p done n with ⟨htimes, -⟩ | ⟨m, -, misuse, htimes, -⟩ <;> rw [htimes]

end Indicator

namespace IndicatorDesk

/-- The motions of an operation. -/
def motion (d : IndicatorDesk) : IndicatorOperation → List Motion
  | .arrive k n => (d.desk.slot? k).elim [] fun slot => d.indicator.repeated (.arrival slot.index) n
  | .depart k n => (d.desk.slot? k).elim [] fun slot =>
    d.indicator.repeated (.departure slot.index) n
  | _ => []

/-- The state after a script. -/
def after (d : IndicatorDesk) : List IndicatorOperation → IndicatorDesk
  | [] => d
  | o :: script => (d.act o).2.after script

/-- The motions of a script. -/
def motions (d : IndicatorDesk) : List IndicatorOperation → List Motion
  | [] => []
  | o :: script => d.motion o ++ (d.act o).2.motions script

variable {d : IndicatorDesk} {script : List IndicatorOperation}

lemma indicator_passTimes (d : IndicatorDesk) (motion : Nat → Motion) (k n : Nat) :
    (d.passTimes motion k n).2.indicator = d.indicator.after
      ((d.desk.slot? k).elim [] fun slot => d.indicator.repeated (motion slot.index) n) := by
  rw [passTimes]
  cases d.desk.slot? k with
  | none => rfl
  | some slot => exact d.indicator.passTimes_snd _ 0 n

lemma indicator_act (d : IndicatorDesk) (o : IndicatorOperation) :
    (d.act o).2.indicator = d.indicator.after (d.motion o) := by
  cases o with
  | arrive k n => exact d.indicator_passTimes .arrival k n
  | depart k n => exact d.indicator_passTimes .departure k n
  | buckets =>
    rw [act]
    cases d.indicator.buckets? <;> rfl
  | _ => rfl

/-- A script changes its read-indicator by its motions only. -/
theorem indicator_after (d : IndicatorDesk) (script : List IndicatorOperation) :
    (d.after script).indicator = d.indicator.after (d.motions script) := by
  induction script generalizing d with
  | nil => rfl
  | cons o script ih => rw [after, ih, indicator_act, motions, Indicator.after_append]

variable {k : Nat} {slot : Slot}

lemma act_arrive (hslot : d.desk.slot? k = some slot) (n : Nat) :
    (d.act (.arrive k n)).1 = (d.indicator.passTimes (.arrival slot.index) 0 n).1 := by
  rw [act, passTimes, hslot]
  rfl

lemma act_depart (hslot : d.desk.slot? k = some slot) (n : Nat) :
    (d.act (.depart k n)).1 = (d.indicator.passTimes (.departure slot.index) 0 n).1 := by
  rw [act, passTimes, hslot]
  rfl

/-- The answers of a counting read-indicator to a script: arrivals are accepted, departures as long
as a reader is inside, and it is empty if there were as many accepted departures as arrivals. -/
theorem answers_of_counting {kind : IndicatorKind} (hkind : kind.Counting) {size : Nat}
    (hd : d.indicator = .ofSize kind size) (hslot : (d.after script).desk.slot? k = some slot)
    {n : Nat} (harrivals : arrivals anyone (d.motions script) + n < 2 ^ 64) :
    let left := d.indicator.inside (d.motions script) slot.index
    ((d.after script).act (.arrive k n)).1 = .ok .done ∧
      ((d.after script).act (.depart k n)).1 = (if n ≤ left then .ok .done
        else .error (.fault (.misuse .unmatchedDeparture) (some left))) ∧
      ((d.after script).indicator.isEmpty = true ↔ arrivals anyone (d.motions script) =
        accepted anyone (d.indicator.log (d.motions script))) := by
  have hholds : d.indicator.Holds [] 0 := hd ▸ Indicator.counts_ofSize hkind size
  have hps := Nat.lt_of_le_of_lt (Nat.le_add_right _ _) harrivals
  rw [act_arrive hslot, act_depart hslot, indicator_after]
  exact ⟨Indicator.passTimes_arrival hholds harrivals _,
    Indicator.passTimes_departure hholds hps _ _, (Indicator.exact_of_holds hholds hps).isEmpty_iff⟩

/-- The answers of a read-indicator with flags to a script: arrivals are accepted from slots that
have a flag, departures from slots that are present, and it is empty if none is. -/
theorem answers_of_flags {kind : IndicatorKind} (hkind : ¬ kind.Counting) {size : Nat}
    (hd : d.indicator = .ofSize kind size) (hslot : (d.after script).desk.slot? k = some slot) :
    let slots := present (d.indicator.log (d.motions script))
    let refused m := Except.error (.fault (.misuse m) (some 0))
    ((d.after script).act (.arrive k 1)).1 =
        (if slot.index < size then .ok .done else refused .slotBeyondCapacity) ∧
      (size ≤ slot.index →
        ((d.after script).act (.depart k 1)).1 = refused .slotBeyondCapacity) ∧
      (slot.index < size → slot.index ∉ slots →
        ((d.after script).act (.depart k 1)).1 = refused .unmatchedDeparture) ∧
      (slot.index ∈ slots → ((d.after script).act (.depart k 1)).1 = .ok .done) ∧
      ((d.after script).indicator.isEmpty = true ↔ slots = ∅) := by
  have hanswersAsSet := (Indicator.flagsMatch_after hkind size (d.motions script)).answersAsSet
  rw [← hd] at hanswersAsSet
  rw [act_arrive hslot, act_depart hslot, indicator_after, Indicator.passTimes_one,
    Indicator.passTimes_one]
  refine ⟨?_, fun hbeyond => ?_, fun hlt hnone => ?_, fun hpresent => ?_, hanswersAsSet.isEmpty_iff⟩
  · by_cases hlt : slot.index < size
    · rw [(hanswersAsSet.arrival _ hlt).1, if_pos hlt]
    · rw [hanswersAsSet.beyond (.arrival slot.index) (Nat.le_of_not_lt hlt), if_neg hlt]
  · rw [hanswersAsSet.beyond (.departure slot.index) hbeyond]
  · rw [hanswersAsSet.unmatched _ hlt hnone]
  · rw [(hanswersAsSet.departure _ (hanswersAsSet.present_lt _ hpresent) hpresent).1]

end IndicatorDesk

end TwinCopy
