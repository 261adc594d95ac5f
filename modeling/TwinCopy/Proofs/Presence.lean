import Mathlib.Data.Set.Insert
import TwinCopy.Proofs.ExactGates
import TwinCopy.Proofs.Flags
import TwinCopy.Proofs.Traffic

/-!
# Flags are a set

The two read-indicators with a flag for each slot look for readers in different ways, but both are
the set of the slots whose latest accepted motion was an arrival. A repeated arrival changes
nothing, a departure removes a slot that must be present, a slot without a flag is refused, and
refusals change nothing. As long as no slot arrives while it is present and none departs while it is
absent, the set is empty exactly if there were as many departures as arrivals.
-/

namespace TwinCopy

/-- The slot of a motion. -/
def Motion.slot : Motion → Nat
  | arrival slot | departure slot => slot

/-- No slot arrives again before it has departed. -/
def Motion.Single (ps : List Motion) : Prop :=
  ∀ before, before <+: ps → ∀ slot,
    arrivals (· == slot) before ≤ departures (· == slot) before + 1

namespace Motion

variable (ps : List Motion) (slot mover : Nat)

lemma counts_arrival :
    arrivals (· == slot) (ps ++ [arrival mover]) =
        arrivals (· == slot) ps + (if mover = slot then 1 else 0) ∧
      departures (· == slot) (ps ++ [arrival mover]) = departures (· == slot) ps := by
  rw [arrivals_concat, departures_concat, arriving, departing]
  by_cases h : mover = slot <;> simp [h]

lemma counts_departure :
    arrivals (· == slot) (ps ++ [departure mover]) = arrivals (· == slot) ps ∧
      departures (· == slot) (ps ++ [departure mover]) =
        departures (· == slot) ps + (if mover = slot then 1 else 0) := by
  rw [arrivals_concat, departures_concat, arriving, departing]
  by_cases h : mover = slot <;> simp [h]

end Motion

/-- `n` flags, of which those of the members of a set are raised. -/
def SlotFlags.ofSet (n : Nat) (set : Set Nat) [DecidablePred (· ∈ set)] : SlotFlags :=
  ⟨(List.range n).map fun slot => decide (slot ∈ set)⟩

namespace Answered

/-- The latest accepted motion of a slot. -/
def latest (log : List Answered) (slot : Nat) : Option Motion :=
  (log.reverse.find? fun e => e.motion.slot == slot && e.answer.isOk).map (·.motion)

/-- The slots whose latest accepted motion was an arrival. -/
def present (log : List Answered) : Set Nat :=
  {slot | latest log slot = some (.arrival slot)}

instance (log : List Answered) : DecidablePred (· ∈ present log) := fun slot =>
  inferInstanceAs (Decidable (latest log slot = some (.arrival slot)))

variable {log : List Answered} {slot other : Nat} {vacant : Bool}

lemma present_nil : present [] = ∅ := by
  ext slot
  simp [present, latest]

lemma latest_concat (log : List Answered) (e : Answered) (slot : Nat) :
    latest (log ++ [e]) slot =
      if e.motion.slot = slot ∧ e.answer.isOk then some e.motion else latest log slot := by
  rw [latest, List.reverse_concat, List.find?_cons]
  by_cases h : e.motion.slot = slot ∧ e.answer.isOk
  · rw [if_pos h, show (e.motion.slot == slot && e.answer.isOk) = true by simpa using h]
    rfl
  · rw [if_neg h, show (e.motion.slot == slot && e.answer.isOk) = false by simpa using h]
    rfl

/-- A refused motion does not change the set. -/
lemma present_refused (log : List Answered) (p : Motion) (m : Misuse) (vacant : Bool) :
    present (log ++ [⟨p, .error m, vacant⟩]) = present log := by
  ext slot
  rw [present, Set.mem_ofPred_eq, latest_concat, if_neg (by simp [Except.isOk, Except.toBool])]
  rfl

lemma present_arrival (log : List Answered) (slot : Nat) (vacant : Bool) :
    present (log ++ [⟨.arrival slot, .ok (), vacant⟩]) = insert slot (present log) := by
  ext other
  rw [present, Set.mem_ofPred_eq, latest_concat, Set.mem_insert_iff]
  by_cases h : slot = other
  · subst h
    simp [Motion.slot, Except.isOk, Except.toBool]
  · rw [if_neg (fun h' => h h'.1)]
    constructor
    · intro hin
      exact .inr hin
    · rintro (rfl | hin)
      · exact absurd rfl h
      · exact hin

lemma present_departure (log : List Answered) (slot : Nat) (vacant : Bool) :
    present (log ++ [⟨.departure slot, .ok (), vacant⟩]) = present log \ {slot} := by
  ext other
  rw [present, Set.mem_ofPred_eq, latest_concat, Set.mem_sdiff, Set.mem_singleton_iff]
  by_cases h : slot = other
  · subst h
    simp [Motion.slot, Except.isOk, Except.toBool]
  · rw [if_neg (fun h' => h h'.1)]
    constructor
    · intro hin
      exact ⟨hin, Ne.symm h⟩
    · rintro ⟨hin, -⟩
      exact hin

end Answered

namespace Indicator

open Answered

variable {i j : Indicator} {n slot : Nat} {slots : List Nat} {ps : List Motion}

/-- A slot without a flag is refused. -/
lemma Shows.pass_beyond (h : i.Shows n slots) {p : Motion} (hp : n ≤ p.slot) :
    i.pass p = (.error .slotBeyondCapacity, i) := by
  cases i with
  | single | paired | hashed => exact h.elim
  | flagged f | watched f =>
    have hlength : f.reading.length = n := by simp [show f.reading = _ from h]
    cases p with
    | arrival slot =>
      have hslot : ¬ slot < f.reading.length := Nat.not_lt.2 (hlength ▸ hp)
      simp only [pass, Indicator.arrive, SlotFlags.arrive, if_neg hslot]
      rfl
    | departure slot =>
      have hslot : f.reading[slot]? = none := List.getElem?_eq_none (hlength ▸ hp)
      simp only [pass, Indicator.depart, SlotFlags.depart, hslot]
      rfl

/-- A departure of a slot whose flag is not raised is refused, and changes nothing. -/
lemma Shows.pass_unmatched (h : i.Shows n slots) (hslot : slot < n) (hout : slot ∉ slots) :
    i.pass (.departure slot) = (.error .unmatchedDeparture, i) := by
  cases i with
  | single | paired | hashed => exact h.elim
  | flagged f | watched f =>
    have hflag : f.reading[slot]? = some false := by
      rw [show f.reading = _ from h]
      simp [hslot, hout]
    obtain ⟨hlt, hget⟩ := List.getElem?_eq_some_iff.1 hflag
    have hsame : f.reading.set slot false = f.reading := by
      rw [← hget, List.set_getElem_self]
    simp only [pass, Indicator.depart, SlotFlags.depart, hflag, hsame]
    rfl

/-- A read-indicator with `n` flags that has processed these motions answers according to the set of
the slots present, and accepted motions update the set. -/
structure AnswersAsSet (i : Indicator) (n : Nat) (ps : List Motion) : Prop where
  present_lt : ∀ slot ∈ present (i.log ps), slot < n
  isEmpty_iff : (i.after ps).isEmpty = true ↔ present (i.log ps) = ∅
  beyond : ∀ p : Motion, n ≤ p.slot →
    (i.after ps).pass p = (.error .slotBeyondCapacity, i.after ps)
  unmatched : ∀ slot < n, slot ∉ present (i.log ps) →
    (i.after ps).pass (.departure slot) = (.error .unmatchedDeparture, i.after ps)
  refused : ∀ p m, ((i.after ps).pass p).1 = .error m →
    present (i.log (ps ++ [p])) = present (i.log ps)
  arrival : ∀ slot < n, ((i.after ps).pass (.arrival slot)).1 = .ok () ∧
    present (i.log (ps ++ [.arrival slot])) = insert slot (present (i.log ps))
  departure : ∀ slot < n, slot ∈ present (i.log ps) →
    ((i.after ps).pass (.departure slot)).1 = .ok () ∧
      present (i.log (ps ++ [.departure slot])) = present (i.log ps) \ {slot}

/-- The raised flags are those of the slots present. -/
def FlagsMatch (i : Indicator) (n : Nat) (ps : List Motion) : Prop :=
  ∃ slots, (i.after ps).Shows n slots ∧ (∀ slot ∈ slots, slot < n) ∧
    ∀ slot, slot ∈ slots ↔ slot ∈ present (i.log ps)

namespace FlagsMatch

lemma ofSize (kind : IndicatorKind) (hkind : ¬ kind.Counting) (n : Nat) :
    (ofSize kind n).FlagsMatch n [] := by
  refine ⟨[], ?_, nofun, fun slot => ?_⟩
  · cases kind with
    | single | paired | hashed => exact absurd trivial hkind
    | flagged | watched => exact shows_ofConfig hkind { maxThreads := n }
  · rw [log, present_nil]
    simp

lemma answersAsSet (h : i.FlagsMatch n ps) : i.AnswersAsSet n ps := by
  obtain ⟨slots, hshows, hbelow, hslots⟩ := h
  refine ⟨fun slot hslot => hbelow slot ((hslots slot).2 hslot), ?_,
    fun p hp => hshows.pass_beyond hp,
    fun slot hslot hout => hshows.pass_unmatched hslot (mt (hslots slot).1 hout), fun p m hp => ?_,
    fun slot hslot => ?_, fun slot hslot hin => ?_⟩
  · rw [hshows.isEmpty_iff hbelow, List.eq_nil_iff_forall_not_mem, Set.eq_empty_iff_forall_notMem]
    exact forall_congr' fun slot => not_congr (hslots slot)
  · rw [log_concat, hp, present_refused]
  · obtain ⟨j, harrive, -⟩ := hshows.arrive hslot
    have hpass : (i.after ps).pass (.arrival slot) = (.ok (), j) := by rw [pass, harrive]
    rw [log_concat, hpass, present_arrival]
    exact ⟨rfl, rfl⟩
  · obtain ⟨j, hdepart, -⟩ := hshows.depart hslot
    rw [if_pos ((hslots slot).2 hin)] at hdepart
    have hpass : (i.after ps).pass (.departure slot) = (.ok (), j) := hdepart
    rw [log_concat, hpass, present_departure]
    exact ⟨rfl, rfl⟩

/-- One more motion. -/
lemma concat (h : i.FlagsMatch n ps) (p : Motion) : i.FlagsMatch n (ps ++ [p]) := by
  have hanswersAsSet := h.answersAsSet
  obtain ⟨slots, hshows, hbelow, hslots⟩ := h
  have hsame : ∀ m, (i.after ps).pass p = (.error m, i.after ps) → i.FlagsMatch n (ps ++ [p]) := by
    intro m hpass
    refine ⟨slots, ?_, hbelow, ?_⟩
    · rw [after_concat, hpass]
      exact hshows
    · rw [hanswersAsSet.refused p m (congrArg Prod.fst hpass)]
      exact hslots
  rcases Nat.lt_or_ge p.slot n with hp | hp
  · cases p with
    | arrival slot =>
      have hp : slot < n := hp
      obtain ⟨j, harrive, hshows'⟩ := hshows.arrive hp
      refine ⟨slot :: slots, ?_, List.forall_mem_cons.2 ⟨hp, hbelow⟩, fun other => ?_⟩
      · rw [after_concat, pass, harrive]
        exact hshows'
      · rw [(hanswersAsSet.arrival slot hp).2, List.mem_cons, Set.mem_insert_iff, hslots]
    | departure slot =>
      have hp : slot < n := hp
      by_cases hin : slot ∈ present (i.log ps)
      · obtain ⟨j, hdepart, hshows'⟩ := hshows.depart hp
        refine ⟨slots.filter (· ≠ slot), ?_, fun other hother => ?_, fun other => ?_⟩
        · rw [after_concat, pass]
          exact hdepart ▸ hshows'
        · exact hbelow other (List.mem_of_mem_filter hother)
        · rw [(hanswersAsSet.departure slot hp hin).2, List.mem_filter, hslots]
          simp
      · exact hsame _ (hanswersAsSet.unmatched slot hp hin)
  · exact hsame _ (hanswersAsSet.beyond p hp)

end FlagsMatch

/-- After every sequence of motions the raised flags are those of the slots present. -/
lemma flagsMatch_after {kind : IndicatorKind} (hkind : ¬ kind.Counting) (n : Nat)
    (ps : List Motion) :
    (ofSize kind n).FlagsMatch n ps := by
  induction ps using List.reverseRecOn with
  | nil => exact .ofSize kind hkind n
  | append_singleton ps p ih => exact ih.concat p

/-- Two read-indicators with the same slots present answer the next motion alike. -/
lemma AnswersAsSet.pass_eq (hi : i.AnswersAsSet n ps) (hj : j.AnswersAsSet n ps)
    (hlog : i.log ps = j.log ps)
    (p : Motion) : ((i.after ps).pass p).1 = ((j.after ps).pass p).1 := by
  rcases Nat.lt_or_ge p.slot n with hp | hp
  · cases p with
    | arrival slot => rw [(hi.arrival slot hp).1, (hj.arrival slot hp).1]
    | departure slot =>
      by_cases hin : slot ∈ present (i.log ps)
      · rw [(hi.departure slot hp hin).1, (hj.departure slot hp (hlog ▸ hin)).1]
      · rw [hi.unmatched slot hp hin, hj.unmatched slot hp (hlog ▸ hin)]
  · rw [hi.beyond p hp, hj.beyond p hp]

/-- Two read-indicators with equal logs have equal logs after the next motion. -/
lemma AnswersAsSet.log_concat_eq (hi : i.AnswersAsSet n ps) (hj : j.AnswersAsSet n ps) {p : Motion}
    (hi' : i.AnswersAsSet n (ps ++ [p])) (hj' : j.AnswersAsSet n (ps ++ [p]))
    (hlog : i.log ps = j.log ps) :
    i.log (ps ++ [p]) = j.log (ps ++ [p]) := by
  have hanswer := hi.pass_eq hj hlog p
  have hpresent : present (i.log (ps ++ [p])) = present (j.log (ps ++ [p])) := by
    ext slot
    simp only [present, Set.mem_ofPred_eq, log_concat, latest_concat, hlog, hanswer]
  have hempty : ((i.after ps).pass p).2.isEmpty = ((j.after ps).pass p).2.isEmpty := by
    rw [← after_concat, ← after_concat, Bool.eq_iff_iff, hi'.isEmpty_iff, hj'.isEmpty_iff, hpresent]
  rw [log_concat, log_concat, hlog, hanswer, hempty]

/-- Both kinds of read-indicators with flags have equal logs. -/
lemma log_eq_of_flags {kind kind' : IndicatorKind} (hkind : ¬ kind.Counting)
    (hkind' : ¬ kind'.Counting) (n : Nat) (ps : List Motion) :
    (ofSize kind n).log ps = (ofSize kind' n).log ps := by
  induction ps using List.reverseRecOn with
  | nil => rfl
  | append_singleton ps p ih =>
    exact (flagsMatch_after hkind n ps).answersAsSet.log_concat_eq
      (flagsMatch_after hkind' n ps).answersAsSet
      (flagsMatch_after hkind n _).answersAsSet (flagsMatch_after hkind' n _).answersAsSet ih

lemma kind_after (i : Indicator) (ps : List Motion) : (i.after ps).kind = i.kind := by
  induction ps generalizing i with
  | nil => rfl
  | cons p ps ih =>
    rw [after, ih]
    cases p with
    | arrival slot =>
      rw [pass]
      split
      · next harrive => exact kind_arrive harrive
      · rfl
    | departure slot => exact kind_depart i slot

/-- The flags are those of the set, for both kinds. -/
lemma FlagsMatch.after_eq (h : i.FlagsMatch n ps) :
    (i.kind = .flagged → i.after ps = .flagged (.ofSet n (present (i.log ps)))) ∧
      (i.kind = .watched → i.after ps = .watched (.ofSet n (present (i.log ps)))) := by
  obtain ⟨slots, hshows, -, hslots⟩ := h
  have hkind := kind_after i ps
  have hset : (List.range n).map (fun slot => decide (slot ∈ slots)) =
      (SlotFlags.ofSet n (present (i.log ps))).reading :=
    List.map_congr_left fun slot _ => decide_eq_decide.2 (hslots slot)
  constructor
  · intro hi
    rw [hi] at hkind
    generalize i.after ps = j at hkind hshows ⊢
    cases j with
    | flagged f =>
      exact congrArg (fun r => flagged ⟨r⟩) ((show f.reading = _ from hshows).trans hset)
    | single | paired | hashed | watched => cases hkind
  · intro hi
    rw [hi] at hkind
    generalize i.after ps = j at hkind hshows ⊢
    cases j with
    | watched f =>
      exact congrArg (fun r => watched ⟨r⟩) ((show f.reading = _ from hshows).trans hset)
    | single | paired | hashed | flagged => cases hkind

/-! ## Slots that are not doubled -/

/-- If no slot arrives twice, the slots present have arrived and not departed, and nothing is
refused. -/
lemma present_of_single {kind : IndicatorKind} (hkind : ¬ kind.Counting)
    (hbelow : ∀ p ∈ ps, p.slot < n) (hmatched : Motion.Matched ps) (hsingle : Motion.Single ps) :
    (∀ e ∈ (ofSize kind n).log ps, e.answer = .ok ()) ∧
      ∀ slot, slot ∈ present ((ofSize kind n).log ps) ↔
        Motion.departures (· == slot) ps < Motion.arrivals (· == slot) ps := by
  induction ps using List.reverseRecOn with
  | nil =>
    refine ⟨nofun, fun slot => ?_⟩
    rw [log, present_nil]
    simp [Motion.departures, Motion.arrivals]
  | append_singleton ps p ih =>
    obtain ⟨hbefore, hlast⟩ := Motion.matched_concat.1 hmatched
    have hp : p.slot < n := hbelow p (List.mem_append_right _ (List.mem_singleton_self _))
    obtain ⟨hanswers, hpresent⟩ := ih (fun q hq => hbelow q (List.mem_append_left _ hq)) hbefore
      fun before h => hsingle before (h.trans (List.prefix_append ps [p]))
    have hanswersAsSet := (flagsMatch_after hkind n ps).answersAsSet
    have honce := hsingle ps (List.prefix_append ps [p])
    -- no slot has departed more often than it has arrived
    obtain ⟨inside, hinside⟩ := exists_inside hbefore
    have hstep : (((ofSize kind n).after ps).pass p).1 = .ok () ∧
        ∀ slot, slot ∈ present ((ofSize kind n).log (ps ++ [p])) ↔
          Motion.departures (· == slot) (ps ++ [p]) < Motion.arrivals (· == slot) (ps ++ [p]) := by
      cases p with
      | arrival mover =>
        obtain ⟨hok, hset⟩ := hanswersAsSet.arrival mover hp
        refine ⟨hok, fun slot => ?_⟩
        have heq := hinside (· == slot)
        obtain ⟨harrivals, hdepartures⟩ := Motion.counts_arrival ps slot mover
        rw [hset, Set.mem_insert_iff, hpresent, harrivals, hdepartures]
        split <;> omega
      | departure mover =>
        obtain ⟨hok, hset⟩ :=
          hanswersAsSet.departure mover hp ((hpresent mover).2 (hlast mover rfl))
        refine ⟨hok, fun slot => ?_⟩
        have hlimit := honce slot
        obtain ⟨harrivals, hdepartures⟩ := Motion.counts_departure ps slot mover
        rw [hset, Set.mem_sdiff, Set.mem_singleton_iff, hpresent, harrivals, hdepartures]
        rcases eq_or_ne mover slot with rfl | hslot
        · rw [if_pos rfl]
          exact iff_of_false (fun h => h.2 rfl) (by omega)
        · rw [if_neg hslot]
          exact and_iff_left (Ne.symm hslot)
    refine ⟨fun e he => ?_, hstep.2⟩
    rw [log_concat, List.mem_append, List.mem_singleton] at he
    rcases he with he | rfl
    · exact hanswers e he
    · exact hstep.1

/-- If the slots present are those that have arrived and not departed, there is none exactly if
departures equal arrivals. -/
lemma empty_iff_of_matched {log : List Answered} (hmatched : Motion.Matched ps)
    (hpresent : ∀ slot, slot ∈ present log ↔
      Motion.departures (· == slot) ps < Motion.arrivals (· == slot) ps) :
    present log = ∅ ↔ Motion.arrivals Motion.anyone ps = Motion.departures Motion.anyone ps := by
  obtain ⟨inside, hinside⟩ := exists_inside hmatched
  have hmem : ∀ slot, slot ∈ present log ↔ slot ∈ inside := by
    intro slot
    have heq := hinside (· == slot)
    rw [hpresent, ← List.count_pos_iff, List.count]
    omega
  have hlength : inside.countP Motion.anyone = inside.length := congrFun List.countP_true inside
  rw [Set.eq_empty_iff_forall_notMem, hinside Motion.anyone, hlength]
  constructor
  · intro hnone
    have hnil : inside = [] :=
      List.eq_nil_iff_forall_not_mem.2 fun slot => mt (hmem slot).2 (hnone slot)
    rw [hnil]
    rfl
  · intro heq slot hslot
    have hpos : 0 < inside.length := List.length_pos_of_mem ((hmem slot).1 hslot)
    omega

end Indicator

open Indicator Motion Answered

/-- Both kinds of read-indicators with flags are the set of the slots present: they have equal logs,
their flags are those of the set, and every answer is determined by the set. If no slot arrives
again before it has departed and departures are matched, nothing is refused, and the set is empty
exactly if all have departed. -/
theorem flags_are_a_set (n : Nat) (ps : List Motion) :
    let flagged := ofSize .flagged n
    let watched := ofSize .watched n
    flagged.log ps = watched.log ps ∧
      flagged.after ps = .flagged (.ofSet n (present (flagged.log ps))) ∧
      watched.after ps = .watched (.ofSet n (present (watched.log ps))) ∧
      flagged.AnswersAsSet n ps ∧ watched.AnswersAsSet n ps ∧
      ((∀ p ∈ ps, p.slot < n) → Matched ps → Single ps →
        (∀ e ∈ flagged.log ps, e.answer = .ok ()) ∧
        ((flagged.after ps).isEmpty = true ↔ arrivals anyone ps = departures anyone ps) ∧
        ((watched.after ps).isEmpty = true ↔ arrivals anyone ps = departures anyone ps)) := by
  intro flagged watched
  have hflagged : ¬ IndicatorKind.flagged.Counting := id
  have hwatched : ¬ IndicatorKind.watched.Counting := id
  have hmatch : flagged.FlagsMatch n ps := flagsMatch_after hflagged n ps
  have hmatch' : watched.FlagsMatch n ps := flagsMatch_after hwatched n ps
  have hlog : flagged.log ps = watched.log ps := log_eq_of_flags hflagged hwatched n ps
  refine ⟨hlog, hmatch.after_eq.1 rfl, hmatch'.after_eq.2 rfl, hmatch.answersAsSet,
    hmatch'.answersAsSet, fun hbelow hmatched hsingle => ?_⟩
  obtain ⟨hanswers, hpresent⟩ := present_of_single hflagged hbelow hmatched hsingle
  have habsent : present (flagged.log ps) = ∅ ↔ arrivals anyone ps = departures anyone ps :=
    empty_iff_of_matched hmatched hpresent
  refine ⟨hanswers, hmatch.answersAsSet.isEmpty_iff.trans habsent, ?_⟩
  rw [hmatch'.answersAsSet.isEmpty_iff, ← hlog]
  exact habsent

/-- A slot arrives and departs, and does so again for its next holder. -/
theorem flags_are_a_set_recycled :
    let ps := [arrival 1, departure 1, arrival 1, departure 1]
    (∀ p ∈ ps, p.slot < 2) ∧ Matched ps ∧ Single ps ∧
      (∀ e ∈ (ofSize .flagged 2).log ps, e.answer = .ok ()) ∧
      ((ofSize .watched 2).after ps).isEmpty = true := by
  intro ps
  have hbelow : ∀ p ∈ ps, p.slot < 2 := by decide
  have hmatched : Matched ps := by
    refine matched_concat.2 ⟨matched_concat.2 ⟨(@matched_concat [arrival 1] _).2
      ⟨(@matched_concat [] _).2 ⟨matched_nil, ?_⟩, ?_⟩, ?_⟩, ?_⟩
    all_goals rintro slot ⟨⟩
    all_goals decide
  have hsingle : Single ps := by
    intro before hbefore slot
    rcases eq_or_ne 1 slot with rfl | hslot
    · exact (show ∀ before ∈ ps.inits, arrivals (· == 1) before ≤ departures (· == 1) before + 1 by
        decide) before ((List.mem_inits _ _).2 hbefore)
    · have hnone : arrivals (· == slot) ps = 0 := by simp [ps, arrivals, arriving, hslot]
      have hle : arrivals (· == slot) before ≤ arrivals (· == slot) ps := hbefore.sublist.countP_le
      omega
  obtain ⟨hanswers, -, hempty⟩ := (flags_are_a_set 2 ps).2.2.2.2.2 hbelow hmatched hsingle
  exact ⟨hbelow, hmatched, hsingle, hanswers, hempty.2 (by decide)⟩

end TwinCopy
