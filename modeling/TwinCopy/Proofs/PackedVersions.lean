import TwinCopy.Proofs.Counting
import TwinCopy.Proofs.Crossings
import TwinCopy.Proofs.Packing
import TwinCopy.Proofs.Tally
import TwinCopy.Session.Setup

/-!
# The packed word and two counters agree

A gate of two counters and a gate that packs the same fields into a word both keep a tally: the
counters as long as a word holds a count, the packed word as long as thirty bits do. So both
simulate the reference gate, and agree with each other: `packed_versions_agree`.
-/

namespace TwinCopy

variable {α ρ : Type}

lemma Tally.depart_of_count_eq_zero {t : Tally} {v : Version} (h : t.count v = 0) :
    t.depart v = t := by
  have hcount : Function.update t.count v (t.count v - 1) = t.count := by
    rw [h]
    exact Function.update_eq_self_iff.2 h.symm
  rw [depart, hcount]

/-! ## Two counters -/

namespace Versioned

/-- The parts of the gate are those of the tally, with a counter for each version. -/
structure Keeps (g : Versioned) (t : Tally) : Prop where
  side : g.side = t.side
  current : g.current = t.current
  readers : ∀ v, ∃ c, g.readers v = .single c ∧ c.readers.toNat = t.count v

lemma Keeps.isEmpty {g : Versioned} {t : Tally} (h : g.Keeps t) (v : Version) :
    (g.readers v).isEmpty = decide (t.count v = 0) := by
  obtain ⟨c, hc, hcount⟩ := h.readers v
  rw [hc, ← hcount]
  by_cases hzero : c.readers = 0
  · simp [Indicator.isEmpty, SingleCounter.isEmpty, hzero]
  · have hne : c.readers.toNat ≠ 0 := fun h0 => hzero (UInt64.toNat_inj.1 h0)
    simp [Indicator.isEmpty, SingleCounter.isEmpty, hzero, hne]

lemma Keeps.setReaders {g : Versioned} {t : Tally} (h : g.Keeps t) (v : Version)
    {c : SingleCounter} {n : Nat} (hc : c.readers.toNat = n) :
    (g.setReaders v (.single c)).Keeps { t with count := Function.update t.count v n } where
  side := by cases v <;> exact h.side
  current := by cases v <;> exact h.current
  readers u := by
    by_cases hu : u = v
    · subst hu
      exact ⟨c, by cases u <;> rfl, hc.trans (Function.update_self u n t.count).symm⟩
    · obtain ⟨c', hc', hcount⟩ := h.readers u
      exact ⟨c', by cases u <;> cases v <;> first | exact absurd rfl hu | exact hc',
        hcount.trans (Function.update_of_ne hu ..).symm⟩

lemma keeps_ofConfig (c : Config) : (ofConfig .single c).Keeps RefGate.fresh.tally where
  side := rfl
  current := rfl
  readers v := ⟨.empty, by cases v <;> rfl, by cases v <;> rfl⟩

lemma tallying : Tallying Keeps where
  ticket_eq _ := rfl
  side_eq h := h.side
  view_eq {g t} h := by
    have hview : (Gate.view g).coarse = .versions g.current g.zero.isEmpty g.one.isEmpty := rfl
    rw [hview, h.current]
    exact congrArg₂ _ (h.isEmpty .zero) (h.isEmpty .one)
  arrive {g t} h hroom slot := by
    obtain ⟨c, hc, hcount⟩ := h.readers t.current
    have hroom' : c.readers.toNat + 1 < 2 ^ 64 := by omega
    refine ⟨g.setReaders t.current (.single c.arrive), ?_,
      h.setReaders t.current (by rw [SingleCounter.arrive, toNat_add_one hroom', hcount])⟩
    change g.arrive slot = _
    rw [Versioned.arrive, h.current, hc]
    rfl
  depart {g t} h slot v := by
    obtain ⟨c, hc, hcount⟩ := h.readers v
    have hdepart : Gate.depart g slot v = g.depart slot v := rfl
    rw [hdepart, Versioned.depart, hc]
    by_cases hzero : c.readers = 0
    · have hcount' : t.count v = 0 := by rw [← hcount, hzero]; rfl
      rw [Indicator.depart, SingleCounter.depart_of_readers_eq_zero hzero, if_pos hcount',
        Tally.depart]
      exact ⟨rfl, h.setReaders v (by rw [hcount, hcount'])⟩
    · have hcount' : t.count v ≠ 0 := by
        rw [← hcount]
        exact fun h0 => hzero (UInt64.toNat_inj.1 h0)
      rw [Indicator.depart, SingleCounter.depart, if_neg hzero, if_neg hcount']
      exact ⟨rfl, h.setReaders v (by rw [toNat_sub_one hzero, hcount])⟩
  turn {g t} h := by
    have hturned : Keeps { g with side := g.side.opposite } { t with side := t.side.opposite } :=
      ⟨congrArg Side.opposite h.side, h.current, h.readers⟩
    exact ⟨h.current, hturned.isEmpty t.current.next, hturned.side, rfl, hturned.readers⟩
  cleared h v := congrArg Except.ok (h.isEmpty v)

end Versioned

/-! ## One word -/

/-- The number that has the fields of a tally at their places in the word. -/
def Tally.value (t : Tally) : Nat :=
  t.count .zero + 2 ^ 30 * t.count .one + 2 ^ 60 * t.side.bit.toNat + 2 ^ 61 * t.current.bit.toNat

namespace VersionedWord

/-- The counts of the tally fit their fields, and the word has the tally in its fields. -/
def Keeps (g : VersionedWord) (t : Tally) : Prop :=
  (∀ v, t.count v < 2 ^ 30) ∧ g.word.toNat = t.value

lemma toNat_readers (g : VersionedWord) (v : Version) :
    (g.readers v).toNat = g.word.toNat / (unit v).toNat % 2 ^ 30 := by
  have hmask : counterMask.toNat = 2 ^ 30 - 1 := by decide
  rw [readers, UInt64.toNat_and, hmask, Nat.and_two_pow_sub_one_eq_mod]
  cases v with
  | zero => rw [IngressWord.toNat_shiftRight (n := 0) rfl (by omega)]; rfl
  | one => rw [IngressWord.toNat_shiftRight (n := 30) rfl (by omega)]; rfl

lemma version_bit_lt (v : Version) : v.bit.toNat < 2 := by
  cases v <;> decide

/-- A tally with counts that fit their fields leaves the bits above the version alone. -/
lemma tally_value_lt {t : Tally} (h : ∀ v, t.count v < 2 ^ 30) : t.value < 2 ^ 62 := by
  have hzero := h .zero
  have hone := h .one
  have hside := IngressWord.bit_toNat_lt t.side
  have hcurrent := version_bit_lt t.current
  simp only [Tally.value]
  omega

lemma version_eq_of_bit {u v : Version} (h : u.bit.toNat = v.bit.toNat) : u = v := by
  cases u <;> cases v <;> first | rfl | exact absurd h (by decide)

/-- The current version is named by its bit. -/
lemma bit_current (g : VersionedWord) : g.current.bit.toNat = g.word.toNat / 2 ^ 61 % 2 := by
  have hbit : ((g.word >>> versionBit) &&& 1).toNat = g.word.toNat / 2 ^ 61 % 2 := by
    rw [UInt64.toNat_and, IngressWord.toNat_shiftRight (n := 61) rfl (by omega), UInt64.toNat_one,
      Nat.and_one_is_mod]
  unfold current
  split
  · next h =>
    rw [h] at hbit
    exact hbit
  · next h =>
    have hne : ((g.word >>> versionBit) &&& 1).toNat ≠ 0 := fun h0 => h (UInt64.toNat_inj.1 h0)
    have hone : g.word.toNat / 2 ^ 61 % 2 = 1 := by omega
    rw [hone]
    rfl

namespace Keeps

variable {g : VersionedWord} {t : Tally}

lemma value_lt (h : g.Keeps t) : t.value < 2 ^ 62 :=
  tally_value_lt h.1

lemma side_eq (h : g.Keeps t) : g.side = t.side := by
  have hzero := h.1 .zero
  have hone := h.1 .one
  have hside := IngressWord.bit_toNat_lt t.side
  refine IngressWord.side_eq_of_bit ?_
  rw [side, IngressWord.bit_ofBit, IngressWord.toNat_shiftRight (n := 60) rfl (by omega), h.2]
  simp only [Tally.value]
  omega

lemma current_eq (h : g.Keeps t) : g.current = t.current := by
  have hzero := h.1 .zero
  have hone := h.1 .one
  have hside := IngressWord.bit_toNat_lt t.side
  have hcurrent := version_bit_lt t.current
  refine version_eq_of_bit ?_
  rw [bit_current, h.2]
  simp only [Tally.value]
  omega

lemma count_eq (h : g.Keeps t) (v : Version) : (g.readers v).toNat = t.count v := by
  have hzero := h.1 .zero
  have hone := h.1 .one
  rw [toNat_readers, h.2]
  cases v with
  | zero =>
    have hunit : (unit .zero).toNat = 1 := by decide
    rw [hunit]
    simp only [Tally.value]
    omega
  | one =>
    have hunit : (unit .one).toNat = 2 ^ 30 := by decide
    rw [hunit]
    simp only [Tally.value]
    omega

lemma readers_eq_zero_iff (h : g.Keeps t) (v : Version) : g.readers v = 0 ↔ t.count v = 0 := by
  rw [← h.count_eq v, ← UInt64.toNat_inj, UInt64.toNat_zero]

lemma isEmpty (h : g.Keeps t) (v : Version) : (g.readers v == 0) = decide (t.count v = 0) := by
  rw [beq_eq_decide, decide_eq_decide]
  exact h.readers_eq_zero_iff v

/-- The place value of one reader more or less. -/
lemma value_update (t : Tally) (v : Version) (n : Nat) :
    Tally.value { t with count := Function.update t.count v n } + (unit v).toNat * t.count v =
      t.value + (unit v).toNat * n := by
  cases v with
  | zero =>
    have hunit : (unit .zero).toNat = 1 := by decide
    simp only [Tally.value, hunit, Function.update_self,
      Function.update_of_ne (show Version.one ≠ .zero by decide)]
    omega
  | one =>
    have hunit : (unit .one).toNat = 2 ^ 30 := by decide
    simp only [Tally.value, hunit, Function.update_self,
      Function.update_of_ne (show Version.zero ≠ .one by decide)]
    omega

lemma fits_update (h : ∀ v, t.count v < 2 ^ 30) (v : Version) {n : Nat} (hn : n < 2 ^ 30)
    (u : Version) : Function.update t.count v n u < 2 ^ 30 := by
  by_cases hu : u = v
  · rw [hu, Function.update_self]
    exact hn
  · rw [Function.update_of_ne hu]
    exact h u

lemma arrive (h : g.Keeps t) (hroom : t.count t.current + 1 < 2 ^ 30) :
    g.arrive.2.Keeps t.arrive := by
  refine ⟨fits_update h.1 _ hroom, ?_⟩
  have hvalue := value_update t t.current (t.count t.current + 1)
  have hlt := h.value_lt
  -- the sum stays below `2 ^ 64`, so nothing is lost
  have hunit : (unit t.current).toNat ≤ 2 ^ 30 := by cases t.current <;> decide
  have hadd : (g.word + unit g.current).toNat = g.word.toNat + (unit t.current).toNat := by
    rw [h.current_eq, UInt64.toNat_add, Nat.mod_eq_of_lt (by rw [h.2]; omega)]
  change (g.word + unit g.current).toNat = _
  rw [hadd, h.2, Tally.arrive]
  rw [Nat.mul_add, Nat.mul_one] at hvalue
  omega

/-- A departure that finds a reader takes it off. -/
lemma depart (h : g.Keeps t) {v : Version} (hcount : t.count v ≠ 0) :
    Keeps ⟨g.word - unit v⟩ (t.depart v) := by
  have hfits := h.1 v
  refine ⟨fits_update h.1 v (by omega), ?_⟩
  have hvalue := value_update t v (t.count v - 1)
  have hsplit : (unit v).toNat * t.count v = (unit v).toNat * (t.count v - 1) + (unit v).toNat := by
    rw [← Nat.mul_succ, Nat.succ_eq_add_one, Nat.sub_add_cancel (Nat.pos_of_ne_zero hcount)]
  -- a version with a reader holds at least one unit of the word
  have hle : unit v ≤ g.word := by
    rw [UInt64.le_iff_toNat_le, h.2]
    omega
  change (g.word - unit v).toNat = _
  rw [UInt64.toNat_sub_of_le _ _ hle, h.2, Tally.depart]
  omega

lemma flipSide (h : g.Keeps t) : g.flipSide.Keeps { t with side := t.side.opposite } := by
  refine ⟨h.1, ?_⟩
  have hlt := h.value_lt
  have hbit : ((1 : UInt64) <<< sideBit).toNat = 2 ^ 60 := by decide
  rw [VersionedWord.flipSide, h.side_eq]
  rcases hside : t.side with _ | _
  · change (g.word + 1 <<< sideBit).toNat = _
    rw [UInt64.toNat_add, hbit, Nat.mod_eq_of_lt (by rw [h.2]; omega), h.2]
    simp only [Tally.value, hside, Side.opposite, Side.bit, UInt64.toNat_zero, UInt64.toNat_one]
    omega
  · have hvalue : t.value = Tally.value { t with side := .left } + 2 ^ 60 := by
      simp only [Tally.value, hside, Side.bit, UInt64.toNat_zero, UInt64.toNat_one]
      omega
    change (g.word - 1 <<< sideBit).toNat = _
    rw [UInt64.toNat_sub_of_le _ _ (UInt64.le_iff_toNat_le.2 (by rw [hbit, h.2]; omega)), hbit,
      h.2, hvalue, Nat.add_sub_cancel]
    rfl

lemma flipVersion (h : g.Keeps t) :
    (g.flipVersion t.current).Keeps { t with current := t.current.next } := by
  refine ⟨h.1, ?_⟩
  have hlt := h.value_lt
  have hbit : ((1 : UInt64) <<< versionBit).toNat = 2 ^ 61 := by decide
  rcases hcurrent : t.current with _ | _
  · change (g.word + 1 <<< versionBit).toNat = _
    rw [UInt64.toNat_add, hbit, Nat.mod_eq_of_lt (by rw [h.2]; omega), h.2]
    simp only [Tally.value, hcurrent, Version.next, Version.bit, UInt64.toNat_zero,
      UInt64.toNat_one]
    omega
  · have hvalue : t.value = Tally.value { t with current := .zero } + 2 ^ 61 := by
      simp only [Tally.value, hcurrent, Version.bit, UInt64.toNat_zero, UInt64.toNat_one]
      omega
    change (g.word - 1 <<< versionBit).toNat = _
    rw [UInt64.toNat_sub_of_le _ _ (UInt64.le_iff_toNat_le.2 (by rw [hbit, h.2]; omega)), hbit,
      h.2, hvalue, Nat.add_sub_cancel]
    rfl

end Keeps

lemma keeps_fresh : fresh.Keeps RefGate.fresh.tally :=
  ⟨fun v => by cases v <;> decide, by decide⟩

lemma tallying : Tallying Keeps where
  ticket_eq _ := rfl
  side_eq h := h.side_eq
  view_eq {g t} h := by
    have hview : (Gate.view g).coarse = .versions g.current
        (decide ((g.readers .zero).toNat = 0)) (decide ((g.readers .one).toNat = 0)) := rfl
    rw [hview, h.current_eq, h.count_eq, h.count_eq]
  arrive {g t} h hroom _ := by
    refine ⟨g.arrive.2, ?_, h.arrive hroom⟩
    rw [← h.current_eq]
    rfl
  depart {g t} h slot v := by
    have hdepart : Gate.depart g slot v = (g.depart v).map (·.map fun _ => []) id := rfl
    rw [hdepart]
    by_cases hcount : t.count v = 0
    · rw [depart_of_readers_eq_zero ((h.readers_eq_zero_iff v).2 hcount), if_pos hcount,
        Tally.depart_of_count_eq_zero hcount]
      exact ⟨rfl, h⟩
    · rw [VersionedWord.depart, if_neg (mt (h.readers_eq_zero_iff v).1 hcount), if_neg hcount]
      exact ⟨rfl, h.depart hcount⟩
  turn {g t} h := ⟨h.current_eq, h.flipSide.isEmpty t.current.next, h.flipSide.flipVersion⟩
  cleared h v := congrArg Except.ok (h.isEmpty v)

end VersionedWord

/-! ## Both -/

namespace Session

/-- A session with two counters and one with a packed word agree in side, copies, lock and writers,
and in the fields of their gates. -/
structure SameState (s : Session Versioned Version Version α ρ)
    (t : Session VersionedWord Version Version α ρ) : Prop extends SameProgress s t where
  current : t.inst.gate.current = s.inst.gate.current
  readers : ∀ v, s.inst.gate.readers v = .single ⟨t.inst.gate.readers v⟩
  isEmpty : ∀ v, (s.inst.gate.readers v).isEmpty = true ↔ t.inst.gate.readers v = 0

lemma sameState_of_refSim {places places' : Nat → Prop} {r : Session RefGate Side Side α ρ}
    {s : Session Versioned Version Version α ρ} {t : Session VersionedWord Version Version α ρ}
    (hs : RefSim Side.version GateView.coarse (Tally.Fits Versioned.Keeps) places r s)
    (ht : RefSim Side.version GateView.coarse (Tally.Fits VersionedWord.Keeps) places' r t) :
    SameState s t := by
  obtain ⟨d, hsim, -⟩ := hs.inst
  obtain ⟨d', hsim', -⟩ := ht.inst
  have hcounters := hsim.gate.1
  have hword := hsim'.gate.1
  refine ⟨hs.sameProgress Versioned.tallying.simulatesRef VersionedWord.tallying.simulatesRef ht,
    hword.current_eq.trans hcounters.current.symm, fun v => ?_, fun v => ?_⟩
  · obtain ⟨c, hc, hcount⟩ := hcounters.readers v
    have hreaders : c.readers = t.inst.gate.readers v :=
      UInt64.toNat_inj.1 (hcount.trans (hword.count_eq v).symm)
    rw [hc, ← hreaders]
  · rw [hcounters.isEmpty, decide_eq_true_iff, hword.readers_eq_zero_iff]

/-- The gate with a packed word agrees with two counters, where a session with the latter claims
slots beforehand and moves use these slots only. No version may have `2 ^ 30` readers at once, as
logged by the reference gate over the same script. Then every operation of a script, also inside a
query, has the same answer, finishes the same writers with the same outputs, and shows the same side
and version and which version has readers; after it, or after any sequence of moves, both are in the
same state. -/
theorem packed_versions_agree (c : Config) (init : Copies α) (slots : List (Move α ρ))
    (hslots : ∀ m ∈ slots, m.SlotOnly) :
    let reference : Session RefGate Side Side α ρ := .ofInstance (RefGate.freshInstance init c.wait)
    let classic : Session Versioned Version Version α ρ :=
      (ofInstance (.classic .single c init)).performAll slots
    let packed : Session VersionedWord Version Version α ρ := .ofInstance (.versionedWord c init)
    let allowed : Move α ρ → Prop := Move.Common True fun k => (classic.own? k).isSome
    (∀ script, (∀ m ∈ Operation.movesOfAll script, allowed m) →
      Passage.AtMost (2 ^ 30 - 1) (reference.steps script).2.inst.gate.log →
      Step.mapAll id GateView.coarse (packed.steps script).1 =
          Step.mapAll id GateView.coarse (classic.steps script).1 ∧
        SameState (classic.steps script).2 (packed.steps script).2 ∧
        (packed.steps script).2.ending = (classic.steps script).2.ending) ∧
      ∀ moves, (∀ m ∈ moves, allowed m) →
        Passage.AtMost (2 ^ 30 - 1) (reference.performAll moves).inst.gate.log →
        SameState (classic.performAll moves) (packed.performAll moves) := by
  intro reference classic packed allowed
  have hclassic : RefSim Side.version GateView.coarse (Tally.Fits Versioned.Keeps)
      (fun k => (classic.own? k).isSome) reference classic :=
    have hfresh : RefSim Side.version GateView.coarse (Tally.Fits Versioned.Keeps)
        (fun _ => False) reference (.ofInstance (.classic .single c init)) :=
      refSim_fresh c.wait ⟨Versioned.keeps_ofConfig c, RefGate.awaits_fresh⟩ fun _ _ => id
    (hfresh.performAll_slotOnly rfl hslots).of_own
  have hpacked : RefSim Side.version GateView.coarse (Tally.Fits VersionedWord.Keeps)
      (fun k => (classic.own? k).isSome) reference packed :=
    refSim_fresh c.wait ⟨VersionedWord.keeps_fresh, RefGate.awaits_fresh⟩ nofun
  have hshown : True → ∀ v : GateView, v.coarse.current? = v.current? :=
    fun _ => GateView.current?_coarse
  refine ⟨fun script hscript hroom => ?_, fun moves hmoves hroom => ?_⟩
  · obtain ⟨hsteps, hend⟩ :=
      hclassic.steps id Versioned.tallying.simulatesRef hshown script hscript hroom
    obtain ⟨hsteps', hend'⟩ :=
      hpacked.steps id VersionedWord.tallying.simulatesRef hshown script hscript hroom
    exact ⟨hsteps'.trans hsteps.symm, sameState_of_refSim hend hend',
      hend'.ending_eq.trans hend.ending_eq.symm⟩
  · exact sameState_of_refSim
      (hclassic.performAll Versioned.tallying.simulatesRef hshown hmoves hroom)
      (hpacked.performAll VersionedWord.tallying.simulatesRef hshown hmoves hroom)

/-- An unmatched departure is made. Then a writer is started inside a query, makes a read, turns the
side, and waits for the query and for a raw reader; the query makes a call of `next` and ends before
the raw reader departs. -/
def rawReaderAndQuery : List (Operation Nat Nat) :=
  let grown : Mutation Nat Nat := ⟨fun _ n => ⟨n + 1, .ok n⟩⟩
  [.single (.depart 0 1), .single (.arrive 0),
    .query 0 false [.single (.mutate 0 grown true), .single .next], .single (.depart 0 0)]

theorem packed_versions_agree_waiting :
    let classic : Session Versioned Version Version Nat Nat :=
      (ofInstance (.classic .single .standard ⟨5, 5⟩)).performAll [.register]
    let packed : Session VersionedWord Version Version Nat Nat :=
      .ofInstance (.versionedWord .standard ⟨5, 5⟩)
    Step.mapAll id GateView.coarse (packed.steps rawReaderAndQuery).1 =
        Step.mapAll id GateView.coarse (classic.steps rawReaderAndQuery).1 ∧
      SameState (classic.steps rawReaderAndQuery).2 (packed.steps rawReaderAndQuery).2 ∧
      (packed.steps rawReaderAndQuery).2.ending = .copies ⟨6, 6⟩ ∧
      (packed.performAll [.arrive 0, .enter 0]).inst.gate.readers .zero = 2 ∧
      SameState (classic.performAll [.arrive 0, .enter 0])
        (packed.performAll [.arrive 0, .enter 0]) := by
  have hagree := packed_versions_agree .standard (⟨5, 5⟩ : Copies Nat)
    ([.register] : List (Move Nat Nat)) (by simp [Move.SlotOnly])
  obtain ⟨hsteps, hstate, -⟩ := hagree.1 rawReaderAndQuery (by decide +kernel) (by decide +kernel)
  exact ⟨hsteps, hstate, by decide +kernel, by decide +kernel,
    hagree.2 [.arrive 0, .enter 0] (by decide +kernel) (by decide +kernel)⟩

end Session

end TwinCopy
