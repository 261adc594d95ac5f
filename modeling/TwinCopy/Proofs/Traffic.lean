import Mathlib.Data.List.Induction
import TwinCopy.Proofs.Counting

/-!
# Counting is exact

A counting read-indicator processes a sequence of arrivals and departures, matched or not. Its
answers and whether it is empty are determined by two numbers: the arrivals and the accepted
departures. For one counter and for two counters these are numbers over all slots, for hashed
counters over the slots of one bucket. A refused departure leaves no trace in the counters, although
it first decrements one of them or increments the other.
-/

namespace TwinCopy

/-- A motion, with its answer and whether the read-indicator was empty afterwards. -/
structure Answered where
  motion : Motion
  answer : Except Misuse Unit
  vacant : Bool
  deriving DecidableEq, Repr

namespace Motion

/-- An arrival with one of these slots. -/
def arriving (among : Nat → Bool) : Motion → Bool
  | arrival slot => among slot
  | departure _ => false

/-- A departure with one of these slots. -/
def departing (among : Nat → Bool) : Motion → Bool
  | arrival _ => false
  | departure slot => among slot

/-- All slots. -/
def anyone : Nat → Bool := fun _ => true

/-- The number of arrivals with these slots. -/
def arrivals (among : Nat → Bool) (ps : List Motion) : Nat :=
  ps.countP (arriving among)

/-- The number of departures requested with these slots. -/
def departures (among : Nat → Bool) (ps : List Motion) : Nat :=
  ps.countP (departing among)

/-- Each departure matches an arrival of its slot that has not departed. -/
def Matched (ps : List Motion) : Prop :=
  ∀ before slot, before ++ [departure slot] <+: ps →
    departures (· == slot) before < arrivals (· == slot) before

end Motion

/-- The number of departures accepted with these slots. -/
def Answered.accepted (among : Nat → Bool) (log : List Answered) : Nat :=
  log.countP fun e => e.motion.departing among && e.answer.isOk

namespace Indicator

/-- A read-indicator after a sequence of motions. -/
def after (i : Indicator) : List Motion → Indicator
  | [] => i
  | p :: ps => (i.pass p).2.after ps

/-- The log of a sequence of motions. -/
def log (i : Indicator) : List Motion → List Answered
  | [] => []
  | p :: ps => ⟨p, (i.pass p).1, (i.pass p).2.isEmpty⟩ :: (i.pass p).2.log ps

/-- A read-indicator that has processed these motions, and at which some slots share a count,
answers according to the numbers of arrivals and accepted departures. -/
structure Exact (i : Indicator) (shares : Nat → Nat → Bool) (ps : List Motion) : Prop where
  arrive_eq : ∀ slot, ((i.after ps).pass (.arrival slot)).1 = .ok ()
  /-- a departure is refused if these numbers are equal -/
  depart_eq : ∀ slot, ((i.after ps).pass (.departure slot)).1 =
    if Motion.arrivals (shares slot) ps = Answered.accepted (shares slot) (i.log ps)
    then .error .unmatchedDeparture else .ok ()
  /-- a refused departure leaves the counters unchanged -/
  depart_refused : ∀ slot m, ((i.after ps).pass (.departure slot)).1 = .error m →
    ((i.after ps).pass (.departure slot)).2 = i.after ps
  isEmpty_iff : (i.after ps).isEmpty = true ↔
    Motion.arrivals Motion.anyone ps = Answered.accepted Motion.anyone (i.log ps)

/-! ## One more motion -/

lemma after_concat (i : Indicator) (ps : List Motion) (p : Motion) :
    i.after (ps ++ [p]) = ((i.after ps).pass p).2 := by
  induction ps generalizing i with
  | nil => rfl
  | cons q ps ih => exact ih (i.pass q).2

lemma log_concat (i : Indicator) (ps : List Motion) (p : Motion) :
    i.log (ps ++ [p]) =
      i.log ps ++ [⟨p, ((i.after ps).pass p).1, ((i.after ps).pass p).2.isEmpty⟩] := by
  induction ps generalizing i with
  | nil => rfl
  | cons q ps ih => exact congrArg (_ :: ·) (ih (i.pass q).2)

end Indicator

namespace Motion

variable (among : Nat → Bool)

lemma arrivals_concat (ps : List Motion) (p : Motion) :
    arrivals among (ps ++ [p]) = arrivals among ps + (p.arriving among).toNat := by
  rw [arrivals, List.countP_append, List.countP_singleton]
  cases p.arriving among <;> rfl

lemma arrivals_le_concat (ps : List Motion) (p : Motion) :
    arrivals among ps ≤ arrivals among (ps ++ [p]) := by
  rw [arrivals_concat]
  exact Nat.le_add_right _ _

lemma departures_concat (ps : List Motion) (p : Motion) :
    departures among (ps ++ [p]) = departures among ps + (p.departing among).toNat := by
  rw [departures, List.countP_append, List.countP_singleton]
  cases p.departing among <;> rfl

lemma matched_nil : Matched [] := by
  intro before slot h
  simp at h

lemma matched_concat {ps : List Motion} {p : Motion} : Matched (ps ++ [p]) ↔
    Matched ps ∧
      ∀ slot, p = departure slot → departures (· == slot) ps < arrivals (· == slot) ps := by
  constructor
  · intro h
    refine ⟨fun before slot hbefore => h before slot (hbefore.trans (List.prefix_append ps [p])),
      ?_⟩
    rintro slot rfl
    exact h ps slot (List.prefix_refl _)
  · rintro ⟨h, hlast⟩ before slot hbefore
    rcases List.prefix_concat_iff.1 hbefore with heq | hbefore
    · obtain ⟨rfl, hp⟩ := List.append_inj' heq rfl
      exact hlast slot (List.singleton_inj.1 hp).symm
    · exact h before slot hbefore

end Motion

lemma Answered.accepted_concat (among : Nat → Bool) (log : List Answered) (e : Answered) :
    accepted among (log ++ [e]) =
      accepted among log + (e.motion.departing among && e.answer.isOk).toNat := by
  rw [accepted, List.countP_append, List.countP_singleton]
  cases e.motion.departing among && e.answer.isOk <;> rfl

/-! ## The readers counted -/

namespace Indicator

variable {i j : Indicator} {inside : List Nat} {arrivals : Nat} {ps : List Motion}

/-- The numbers are as if these readers were inside. The readers inside may be others, as a
departure may have removed another slot of the same place. -/
structure NetCounts (i : Indicator) (ps : List Motion) (inside : List Nat) : Prop where
  holds : (i.after ps).Holds inside (Motion.arrivals Motion.anyone ps)
  place_eq : (i.after ps).place = i.place
  balance : ∀ among : Nat → Bool, (∀ s t, i.place s = i.place t → among s = among t) →
    Motion.arrivals among ps = Answered.accepted among (i.log ps) + inside.countP among

lemma NetCounts.arrive_eq (h : i.NetCounts ps inside) (slot : Nat) :
    ((i.after ps).pass (.arrival slot)).1 = .ok () := by
  have hholds := h.holds
  generalize i.after ps = j at hholds
  cases j with
  | single | paired | hashed => rfl
  | flagged | watched => exact hholds.elim

/-- A departure removes a reader of the same place, or is refused. -/
lemma NetCounts.depart_cases (h : i.NetCounts ps inside)
    (hps : Motion.arrivals Motion.anyone ps < 2 ^ 64) (slot : Nat) :
    (∃ other rest j, inside.Perm (other :: rest) ∧ i.place other = i.place slot ∧
      (i.after ps).depart slot = (.ok (), j) ∧ j.place = i.place ∧
      j.Holds rest (Motion.arrivals Motion.anyone ps)) ∨
    ((∀ other ∈ inside, i.place other ≠ i.place slot) ∧
      (i.after ps).depart slot = (.error .unmatchedDeparture, i.after ps)) := by
  by_cases hmem : ∃ other ∈ inside, i.place other = i.place slot
  · obtain ⟨other, hother, hplace⟩ := hmem
    have hperm := List.perm_cons_erase hother
    have hsame : (i.after ps).place other = (i.after ps).place slot := by
      rw [h.place_eq, hplace]
    obtain ⟨j, hdepart, hj, hholds⟩ := (h.holds.perm hperm).depart hps hsame
    exact .inl ⟨other, _, j, hperm, hplace, hdepart, hj.trans h.place_eq, hholds⟩
  · push Not at hmem
    refine .inr ⟨hmem, Counts.depart_of_eq_zero h.holds ?_⟩
    rw [h.place_eq, List.countP_eq_zero]
    intro other hother
    simpa using hmem other hother

/-- The numbers stay right if the readers change with the motion. -/
lemma NetCounts.concat {p : Motion} {answer : Except Misuse Unit} {others : List Nat}
    (h : i.NetCounts ps inside) (hpass : (i.after ps).pass p = (answer, j))
    (hplace : j.place = i.place)
    (hholds : j.Holds others (Motion.arrivals Motion.anyone (ps ++ [p])))
    (hothers : ∀ among : Nat → Bool, (∀ s t, i.place s = i.place t → among s = among t) →
      others.countP among + (p.departing among && answer.isOk).toNat =
        inside.countP among + (p.arriving among).toNat) :
    i.NetCounts (ps ++ [p]) others := by
  refine ⟨?_, ?_, fun among hamong => ?_⟩
  · rw [after_concat, hpass]
    exact hholds
  · rw [after_concat, hpass, hplace]
  · have hbalance := h.balance among hamong
    have hcount := hothers among hamong
    rw [Motion.arrivals_concat, log_concat, Answered.accepted_concat, hpass]
    dsimp only
    omega

/-- Every sequence of motions has such numbers. -/
lemma exists_netCounts (h : i.Holds [] 0) (hps : Motion.arrivals Motion.anyone ps < 2 ^ 64) :
    ∃ inside, i.NetCounts ps inside := by
  induction ps using List.reverseRecOn with
  | nil => exact ⟨[], h, rfl, fun among _ => rfl⟩
  | append_singleton ps p ih =>
    have hbefore := Nat.lt_of_le_of_lt (Motion.arrivals_le_concat _ ps p) hps
    obtain ⟨inside, hnet⟩ := ih hbefore
    rw [Motion.arrivals_concat] at hps
    cases p with
    | arrival slot =>
      obtain ⟨j, harrive, hj, hholds⟩ := hnet.holds.arrive hps slot
      have hpass : (i.after ps).pass (.arrival slot) = (.ok (), j) := by rw [pass, harrive]
      refine ⟨slot :: inside, hnet.concat hpass (hj.trans hnet.place_eq) ?_ ?_⟩
      · rw [Motion.arrivals_concat]
        exact hholds
      · intro among _
        rw [List.countP_cons]
        cases hslot : among slot <;> simp [Motion.arriving, Motion.departing, hslot]
    | departure slot =>
      rcases hnet.depart_cases hbefore slot with
        ⟨other, rest, j, hperm, hplace, hdepart, hj, hholds⟩ | ⟨-, hdepart⟩
      · refine ⟨rest, hnet.concat hdepart hj ?_ ?_⟩
        · rw [Motion.arrivals_concat]
          exact hholds
        · intro among hamong
          rw [hperm.countP_eq, List.countP_cons, hamong other slot hplace]
          cases hslot : among slot <;>
            simp [Motion.arriving, Motion.departing, Except.isOk, Except.toBool, hslot]
      · refine ⟨inside, hnet.concat hdepart hnet.place_eq ?_ ?_⟩
        · rw [Motion.arrivals_concat]
          exact hnet.holds
        · intro among _
          simp [Motion.arriving, Except.isOk, Except.toBool]

/-- Two slots are counted at the same place. -/
def shares (i : Indicator) (slot other : Nat) : Bool :=
  i.place slot == i.place other

theorem NetCounts.exact (h : i.NetCounts ps inside)
    (hps : Motion.arrivals Motion.anyone ps < 2 ^ 64) : i.Exact i.shares ps where
  arrive_eq := h.arrive_eq
  depart_eq slot := by
    have hbalance := h.balance (i.shares slot) fun s t hst => by simp [shares, hst]
    rcases h.depart_cases hps slot with ⟨other, rest, j, hperm, hplace, hdepart, -⟩
      | ⟨hnone, hdepart⟩
    · rw [hperm.countP_eq, List.countP_cons, if_pos (by simp [shares, hplace])] at hbalance
      rw [if_neg (by omega)]
      exact congrArg Prod.fst hdepart
    · have hzero : inside.countP (i.shares slot) = 0 := by
        rw [List.countP_eq_zero]
        intro other hother
        exact fun hshares => hnone other hother (beq_iff_eq.1 hshares).symm
      rw [if_pos (by rw [hbalance, hzero, Nat.add_zero])]
      exact congrArg Prod.fst hdepart
  depart_refused slot m hm := by
    rcases h.depart_cases hps slot with ⟨other, rest, j, -, -, hdepart, -⟩ | ⟨-, hdepart⟩
    · rw [pass, hdepart] at hm
      cases hm
    · exact congrArg Prod.snd hdepart
  isEmpty_iff := by
    have hbalance := h.balance Motion.anyone fun _ _ _ => rfl
    have hlength : inside.countP Motion.anyone = inside.length := congrFun List.countP_true inside
    rw [h.holds.isEmpty_iff, ← List.length_eq_zero_iff]
    omega

theorem exact_of_holds (h : i.Holds [] 0) (hps : Motion.arrivals Motion.anyone ps < 2 ^ 64) :
    i.Exact i.shares ps := by
  obtain ⟨inside, hnet⟩ := exists_netCounts h hps
  exact hnet.exact hps

/-! ## Two read-indicators -/

/-- Two read-indicators with equal logs, which answer the next motion alike, are then both empty or
both not. -/
lemma log_concat_congr {p : Motion} {shares shares' : Nat → Nat → Bool}
    (hi : i.Exact shares (ps ++ [p])) (hj : j.Exact shares' (ps ++ [p]))
    (hlog : i.log ps = j.log ps) (hanswer : ((i.after ps).pass p).1 = ((j.after ps).pass p).1) :
    i.log (ps ++ [p]) = j.log (ps ++ [p]) := by
  have hempty : ((i.after ps).pass p).2.isEmpty = ((j.after ps).pass p).2.isEmpty := by
    have hleft := hi.isEmpty_iff
    have hright := hj.isEmpty_iff
    rw [after_concat, log_concat, Answered.accepted_concat] at hleft hright
    rw [Bool.eq_iff_iff, hleft, hright, hlog, hanswer]
  rw [log_concat, log_concat, hlog, hanswer, hempty]

/-- Read-indicators at which the same slots share their counts have equal logs. -/
theorem log_eq_of_shares (hi : i.Holds [] 0) (hj : j.Holds [] 0) (hshares : i.shares = j.shares)
    (hps : Motion.arrivals Motion.anyone ps < 2 ^ 64) : i.log ps = j.log ps := by
  induction ps using List.reverseRecOn with
  | nil => rfl
  | append_singleton ps p ih =>
    have hbefore := Nat.lt_of_le_of_lt (Motion.arrivals_le_concat _ ps p) hps
    have hlog := ih hbefore
    refine log_concat_congr (exact_of_holds hi hps) (exact_of_holds hj hps) hlog ?_
    cases p with
    | arrival slot =>
      rw [(exact_of_holds hi hbefore).arrive_eq, (exact_of_holds hj hbefore).arrive_eq]
    | departure slot =>
      rw [(exact_of_holds hi hbefore).depart_eq, (exact_of_holds hj hbefore).depart_eq, hlog,
        hshares]

/-! ## Matched motions -/

/-- A departing slot is inside, if departures are matched. -/
lemma mem_inside {slot : Nat} (h : Motion.Matched (ps ++ [.departure slot]))
    (hinside : ∀ among,
      Motion.arrivals among ps = Motion.departures among ps + inside.countP among) :
    slot ∈ inside := by
  have hlt := (Motion.matched_concat.1 h).2 slot rfl
  have heq := hinside (· == slot)
  have hpos : 0 < inside.countP (· == slot) := by omega
  exact List.count_pos_iff.1 hpos

/-- The slots inside, in a matched sequence. -/
lemma exists_inside (h : Motion.Matched ps) : ∃ inside : List Nat, ∀ among,
    Motion.arrivals among ps = Motion.departures among ps + inside.countP among := by
  induction ps using List.reverseRecOn with
  | nil => exact ⟨[], fun among => rfl⟩
  | append_singleton ps p ih =>
    obtain ⟨inside, hinside⟩ := ih (Motion.matched_concat.1 h).1
    cases p with
    | arrival slot =>
      refine ⟨slot :: inside, fun among => ?_⟩
      rw [Motion.arrivals_concat, Motion.departures_concat, List.countP_cons, hinside among]
      cases hslot : among slot with
      | false => simp [Motion.arriving, Motion.departing, hslot]
      | true =>
        simp [Motion.arriving, Motion.departing, hslot]
        omega
    | departure slot =>
      have hmem := mem_inside h hinside
      refine ⟨inside.erase slot, fun among => ?_⟩
      have heq := hinside among
      rw [(List.perm_cons_erase hmem).countP_eq, List.countP_cons] at heq
      rw [Motion.arrivals_concat, Motion.departures_concat, heq]
      cases hslot : among slot with
      | false => simp [Motion.arriving, Motion.departing, hslot]
      | true =>
        simp [Motion.arriving, Motion.departing, hslot]
        omega

/-- In a matched sequence no departure is refused, whichever slots share a count. -/
theorem answers_of_matched (hi : i.Holds [] 0) (h : Motion.Matched ps)
    (hps : Motion.arrivals Motion.anyone ps < 2 ^ 64) :
    (∀ e ∈ i.log ps, e.answer = .ok ()) ∧
      ∀ among, Answered.accepted among (i.log ps) = Motion.departures among ps := by
  induction ps using List.reverseRecOn with
  | nil => exact ⟨by simp [log], fun among => rfl⟩
  | append_singleton ps p ih =>
    have hbefore := Nat.lt_of_le_of_lt (Motion.arrivals_le_concat _ ps p) hps
    obtain ⟨hanswers, haccepted⟩ := ih (Motion.matched_concat.1 h).1 hbefore
    have hexact := exact_of_holds hi hbefore
    have hanswer : ((i.after ps).pass p).1 = .ok () := by
      cases p with
      | arrival slot => exact hexact.arrive_eq slot
      | departure slot =>
        -- the slot itself is inside, so its place has a positive number
        obtain ⟨inside, hinside⟩ := exists_inside (Motion.matched_concat.1 h).1
        have hpos : 0 < inside.countP (i.shares slot) :=
          List.countP_pos_iff.2 ⟨slot, mem_inside h hinside, beq_self_eq_true _⟩
        rw [hexact.depart_eq, haccepted, if_neg]
        have heq := hinside (i.shares slot)
        omega
    constructor
    · intro e he
      rw [log_concat, List.mem_append, List.mem_singleton] at he
      rcases he with he | rfl
      · exact hanswers e he
      · exact hanswer
    · intro among
      rw [log_concat, Answered.accepted_concat, Motion.departures_concat, haccepted, hanswer]
      simp [Except.isOk, Except.toBool]

/-- In a matched sequence all read-indicators have equal logs. -/
theorem log_eq_of_matched (hi : i.Holds [] 0) (hj : j.Holds [] 0) (h : Motion.Matched ps)
    (hps : Motion.arrivals Motion.anyone ps < 2 ^ 64) : i.log ps = j.log ps := by
  induction ps using List.reverseRecOn with
  | nil => rfl
  | append_singleton ps p ih =>
    have hbefore := Nat.lt_of_le_of_lt (Motion.arrivals_le_concat _ ps p) hps
    have hanswer : ∀ {u : Indicator}, u.Holds [] 0 → ((u.after ps).pass p).1 = .ok () := by
      intro u hu
      have hall := (answers_of_matched hu h hps).1
      rw [log_concat] at hall
      exact hall _ (List.mem_append_right _ (List.mem_singleton_self _))
    exact log_concat_congr (exact_of_holds hi hps) (exact_of_holds hj hps)
      (ih (Motion.matched_concat.1 h).1 hbefore) (by rw [hanswer hi, hanswer hj])

end Indicator

open Indicator Motion

/-- Counting read-indicators of all sizes are exact, and in matched sequences it makes no difference
which slots share a bucket. -/
theorem counting_is_exact (n : Nat) (ps : List Motion) (hps : arrivals anyone ps < 2 ^ 64) :
    (ofSize .single n).Exact (fun _ _ => true) ps ∧
    (ofSize .paired n).Exact (fun _ _ => true) ps ∧
    (ofSize .single n).log ps = (ofSize .paired n).log ps ∧
    (ofSize .hashed n).Exact (fun slot other =>
      (HashedCounters.ofCount n).bucket slot == (HashedCounters.ofCount n).bucket other) ps ∧
    (Matched ps → ∀ kind : IndicatorKind, kind.Counting →
      (∀ e ∈ (ofSize kind n).log ps, e.answer = .ok ()) ∧
      (ofSize kind n).log ps = (ofSize .single n).log ps) := by
  have hholds : ∀ kind : IndicatorKind, kind.Counting → (ofSize kind n).Holds [] 0 :=
    fun kind hkind => counts_ofSize hkind n
  refine ⟨exact_of_holds (hholds .single trivial) hps, exact_of_holds (hholds .paired trivial) hps,
    log_eq_of_shares (hholds .single trivial) (hholds .paired trivial) rfl hps,
    exact_of_holds (hholds .hashed trivial) hps, fun hmatched kind hkind => ⟨?_, ?_⟩⟩
  · exact (answers_of_matched (hholds kind hkind) hmatched hps).1
  · exact log_eq_of_matched (hholds kind hkind) (hholds .single trivial) hmatched hps

/-- Two slots share the only bucket, the second departs first, and then the read-indicator is
empty. -/
theorem counting_is_exact_shared :
    let ps := [arrival 0, arrival 1, departure 1, departure 0]
    arrivals anyone ps < 2 ^ 64 ∧ Matched ps ∧
      (∀ e ∈ (ofSize .hashed 1).log ps, e.answer = .ok ()) ∧
      (ofSize .hashed 1).log ps = (ofSize .single 1).log ps ∧
      ((ofSize .hashed 1).after ps).depart 7 =
        (.error .unmatchedDeparture, (ofSize .hashed 1).after ps) := by
  intro ps
  have hps : arrivals anyone ps < 2 ^ 64 := by decide
  have hmatched : Matched ps := by
    refine matched_concat.2 ⟨matched_concat.2 ⟨(@matched_concat [arrival 0] _).2
      ⟨(@matched_concat [] _).2 ⟨matched_nil, ?_⟩, ?_⟩, ?_⟩, ?_⟩
    all_goals rintro slot ⟨⟩
    all_goals decide
  obtain ⟨-, -, -, hexact, hall⟩ := counting_is_exact 1 ps hps
  obtain ⟨hanswers, hlog⟩ := hall hmatched .hashed trivial
  have hrefused : (((ofSize .hashed 1).after ps).depart 7).1 = .error .unmatchedDeparture := by
    decide
  exact ⟨hps, hmatched, hanswers, hlog, Prod.ext hrefused (hexact.depart_refused 7 _ hrefused)⟩

end TwinCopy
