import Mathlib.Algebra.Ring.Nat
import TwinCopy.Gate.IngressWord

/-!
# The fields of a word without versions

`Counts` are the fields of the word as natural numbers, which never overflow. As long as each of
them fits its field, the word is the number `Counts.value`, so the effect of an operation on the
word is that on the counts: no field carries into its neighbour or borrows from it. `Keeps` relates
a gate to its counts, and each operation of the gate has a lemma about the counts it leaves.
-/

namespace TwinCopy.IngressWord

/-- The fields of a word, as natural numbers. -/
structure Counts where
  side : Side
  ingress : Nat
  left : Nat
  right : Nat
  deriving DecidableEq, Repr

namespace Counts

/-- The departures from a side. -/
def egress (c : Counts) : Side → Nat
  | .left => c.left
  | .right => c.right

/-- Replaces the departures from a side. -/
def setEgress (c : Counts) (s : Side) (n : Nat) : Counts :=
  match s with
  | .left => { c with left := n }
  | .right => { c with right := n }

/-- Every count fits its field. -/
def Fits (c : Counts) : Prop :=
  c.ingress < 2 ^ 20 ∧ c.left < 2 ^ 20 ∧ c.right < 2 ^ 20

/-- The number that has the counts at the places of their fields. -/
def value (c : Counts) : Nat :=
  c.ingress + 2 ^ 20 * c.left + 2 ^ 40 * c.right + 2 ^ 60 * c.side.bit.toNat

@[simp] lemma egress_setEgress_same (c : Counts) (s : Side) (n : Nat) :
    (c.setEgress s n).egress s = n := by
  cases s <;> rfl

@[simp] lemma egress_setEgress_opposite (c : Counts) (s : Side) (n : Nat) :
    (c.setEgress s n).egress s.opposite = c.egress s.opposite := by
  cases s <;> rfl

@[simp] lemma side_setEgress (c : Counts) (s : Side) (n : Nat) :
    (c.setEgress s n).side = c.side := by
  cases s <;> rfl

@[simp] lemma ingress_setEgress (c : Counts) (s : Side) (n : Nat) :
    (c.setEgress s n).ingress = c.ingress := by
  cases s <;> rfl

lemma fits_setEgress {c : Counts} (h : c.Fits) (s : Side) {n : Nat} (hn : n < 2 ^ 20) :
    (c.setEgress s n).Fits := by
  cases s
  · exact ⟨h.1, hn, h.2.2⟩
  · exact ⟨h.1, h.2.1, hn⟩

end Counts

/-! ## Bits -/

lemma toNat_counterMask : counterMask.toNat = 2 ^ 20 - 1 := by decide

lemma toNat_and_counterMask (w : UInt64) : (w &&& counterMask).toNat = w.toNat % 2 ^ 20 := by
  rw [UInt64.toNat_and, toNat_counterMask, Nat.and_two_pow_sub_one_eq_mod]

/-- A shift of a word loses nothing as long as the result fits. -/
lemma toNat_shiftLeft {w k : UInt64} {n : Nat} (hk : k.toNat = n) (hn : n < 64)
    (h : 2 ^ n * w.toNat < 2 ^ 64) : (w <<< k).toNat = 2 ^ n * w.toNat := by
  rw [UInt64.toNat_shiftLeft, hk, Nat.mod_eq_of_lt hn, Nat.shiftLeft_eq, Nat.mul_comm,
    Nat.mod_eq_of_lt h]

lemma toNat_shiftRight {w k : UInt64} {n : Nat} (hk : k.toNat = n) (hn : n < 64) :
    (w >>> k).toNat = w.toNat / 2 ^ n := by
  rw [UInt64.toNat_shiftRight, hk, Nat.mod_eq_of_lt hn, Nat.shiftRight_eq_div_pow]

lemma bit_toNat_lt (s : Side) : s.bit.toNat < 2 := by
  cases s <;> decide

/-- The lowest bit of a word is the bit of its side. -/
lemma bit_ofBit (w : UInt64) : (Side.ofBit w).bit.toNat = w.toNat % 2 := by
  have hbit : (w &&& 1).toNat = w.toNat % 2 := by
    rw [UInt64.toNat_and, UInt64.toNat_one, Nat.and_one_is_mod]
  unfold Side.ofBit
  split
  · next h =>
    rw [h] at hbit
    exact hbit
  · next h =>
    have hne : (w &&& 1).toNat ≠ 0 := fun h0 => h (UInt64.toNat_inj.1 h0)
    have hone : w.toNat % 2 = 1 := by omega
    rw [hone]
    rfl

/-- A side is determined by its bit. -/
lemma side_eq_of_bit {s t : Side} (h : s.bit.toNat = t.bit.toNat) : s = t := by
  cases s <;> cases t <;> first | rfl | exact absurd h (by decide)

namespace Fields

/-- The fields as natural numbers. -/
def counts (f : Fields) : Counts :=
  ⟨f.side, f.ingress.toNat, f.egressLeft.toNat, f.egressRight.toNat⟩

lemma counts_injective {f g : Fields} (h : f.counts = g.counts) : f = g := by
  obtain ⟨s, i, l, r⟩ := f
  obtain ⟨s', i', l', r'⟩ := g
  simp only [counts, Counts.mk.injEq, UInt64.toNat_inj] at h
  obtain ⟨rfl, rfl, rfl, rfl⟩ := h
  rfl

lemma egress_counts (f : Fields) (s : Side) : f.counts.egress s = (f.egress s).toNat := by
  cases s <;> rfl

/-- A word with fields that fit is the number of their counts. -/
lemma toNat_pack {f : Fields} (h : f.counts.Fits) : f.pack.toNat = f.counts.value := by
  obtain ⟨s, i, l, r⟩ := f
  obtain ⟨hi, hl, hr⟩ := h
  simp only [counts] at hi hl hr
  have hs := bit_toNat_lt s
  have hside : (s.bit <<< sideBit).toNat = 2 ^ 60 * s.bit.toNat :=
    toNat_shiftLeft rfl (by omega) (by omega)
  have hleft : ((l &&& counterMask) <<< egressBit .left).toNat = 2 ^ 20 * l.toNat := by
    rw [toNat_shiftLeft (n := 20) rfl (by omega) (by rw [toNat_and_counterMask]; omega),
      toNat_and_counterMask, Nat.mod_eq_of_lt hl]
  have hright : ((r &&& counterMask) <<< egressBit .right).toNat = 2 ^ 40 * r.toNat := by
    rw [toNat_shiftLeft (n := 40) rfl (by omega) (by rw [toNat_and_counterMask]; omega),
      toNat_and_counterMask, Nat.mod_eq_of_lt hr]
  -- each count fits below the next field, so that no bits overlap
  have hlow : 2 ^ 20 * l.toNat ||| i.toNat = 2 ^ 20 * l.toNat + i.toNat :=
    (Nat.two_pow_add_eq_or_of_lt hi _).symm
  have hmiddle : 2 ^ 40 * r.toNat ||| (2 ^ 20 * l.toNat + i.toNat) =
      2 ^ 40 * r.toNat + (2 ^ 20 * l.toNat + i.toNat) :=
    (Nat.two_pow_add_eq_or_of_lt (by omega) _).symm
  have hhigh : 2 ^ 60 * s.bit.toNat ||| (2 ^ 40 * r.toNat + (2 ^ 20 * l.toNat + i.toNat)) =
      2 ^ 60 * s.bit.toNat + (2 ^ 40 * r.toNat + (2 ^ 20 * l.toNat + i.toNat)) :=
    (Nat.two_pow_add_eq_or_of_lt (by omega) _).symm
  calc (pack ⟨s, i, l, r⟩).toNat
      = ((2 ^ 60 * s.bit.toNat ||| i.toNat) ||| 2 ^ 20 * l.toNat) ||| 2 ^ 40 * r.toNat := by
        simp only [pack, UInt64.toNat_or, hside, hleft, hright, toNat_and_counterMask,
          Nat.mod_eq_of_lt hi]
    _ = 2 ^ 60 * s.bit.toNat ||| (2 ^ 40 * r.toNat ||| (2 ^ 20 * l.toNat ||| i.toNat)) := by
        rw [Nat.or_assoc, Nat.or_assoc, Nat.or_comm i.toNat, Nat.or_comm (2 ^ 20 * l.toNat),
          Nat.or_assoc]
    _ = (counts ⟨s, i, l, r⟩).value := by
        rw [hlow, hmiddle, hhigh]
        simp only [counts, Counts.value]
        omega

/-- The counts of a word are its digits to the base of a field. -/
lemma counts_unpack (word : UInt64) : (unpack word).counts =
    ⟨.ofBit (word >>> sideBit), word.toNat % 2 ^ 20, word.toNat / 2 ^ 20 % 2 ^ 20,
      word.toNat / 2 ^ 40 % 2 ^ 20⟩ := by
  simp only [counts, unpack, toNat_and_counterMask,
    toNat_shiftRight (k := egressBit .left) (n := 20) rfl (by omega),
    toNat_shiftRight (k := egressBit .right) (n := 40) rfl (by omega)]

lemma fits_unpack (word : UInt64) : (unpack word).counts.Fits := by
  rw [counts_unpack]
  exact ⟨Nat.mod_lt _ (by omega), Nat.mod_lt _ (by omega), Nat.mod_lt _ (by omega)⟩

/-- A word that is the number of some counts has these counts in its fields. -/
lemma counts_unpack_of_value {word : UInt64} {c : Counts} (hc : c.Fits)
    (h : word.toNat = c.value) : (unpack word).counts = c := by
  obtain ⟨s, i, l, r⟩ := c
  obtain ⟨hi, hl, hr⟩ := hc
  simp only [Counts.value] at hi hl hr h
  have hs := bit_toNat_lt s
  have hside : Side.ofBit (word >>> sideBit) = s := by
    refine side_eq_of_bit ?_
    rw [bit_ofBit, toNat_shiftRight (n := 60) rfl (by omega)]
    omega
  rw [counts_unpack, hside]
  congr 1 <;> omega

lemma unpack_pack {f : Fields} (h : f.counts.Fits) : unpack f.pack = f :=
  counts_injective (counts_unpack_of_value h (toNat_pack h))

lemma pack_unpack {word : UInt64} (h : word.toNat < 2 ^ 61) : (unpack word).pack = word := by
  refine UInt64.toNat_inj.1 ?_
  rw [toNat_pack (fits_unpack word), counts_unpack]
  simp only [Counts.value, bit_ofBit]
  rw [toNat_shiftRight (n := 60) rfl (by omega)]
  omega

end Fields

/-! ## Operations -/

namespace Counts

/-- One more arrival. -/
def arrive (c : Counts) : Counts :=
  { c with ingress := c.ingress + 1 }

/-- One more departure from a side. -/
def count (c : Counts) (s : Side) : Counts :=
  c.setEgress s (c.egress s + 1)

/-- Subtracts the departures from the active side from the arrivals. -/
def rebase (c : Counts) : Counts :=
  { c with ingress := c.ingress - c.egress c.side }.setEgress c.side 0

/-- A departure from a side, after which the counts are rebased if there are too many arrivals. -/
def depart (c : Counts) (s : Side) : Counts :=
  if (c.count s).ingress < 2 ^ 19 then c.count s else (c.count s).rebase

/-- The events that a departure reports. -/
def reports (c : Counts) (s : Side) : List Event :=
  if (c.count s).ingress < 2 ^ 19 then [] else [.ingressRebased (c.count s).rebase.ingress]

/-- Fresh counts for the other side. -/
def turn (c : Counts) : Counts :=
  ⟨c.side.opposite, 0, 0, 0⟩

@[simp] lemma side_count (c : Counts) (s : Side) : (c.count s).side = c.side :=
  side_setEgress _ _ _

@[simp] lemma ingress_count (c : Counts) (s : Side) : (c.count s).ingress = c.ingress :=
  ingress_setEgress _ _ _

@[simp] lemma egress_count_same (c : Counts) (s : Side) :
    (c.count s).egress s = c.egress s + 1 :=
  egress_setEgress_same _ _ _

@[simp] lemma egress_count_opposite (c : Counts) (s : Side) :
    (c.count s).egress s.opposite = c.egress s.opposite :=
  egress_setEgress_opposite _ _ _

@[simp] lemma egress_arrive (c : Counts) (s : Side) : c.arrive.egress s = c.egress s := by
  cases s <;> rfl

@[simp] lemma ingress_rebase (c : Counts) : c.rebase.ingress = c.ingress - c.egress c.side :=
  ingress_setEgress _ _ _

@[simp] lemma egress_rebase_same (c : Counts) : c.rebase.egress c.side = 0 :=
  egress_setEgress_same _ _ _

@[simp] lemma egress_rebase_opposite (c : Counts) :
    c.rebase.egress c.side.opposite = c.egress c.side.opposite := by
  obtain ⟨s, i, l, r⟩ := c
  cases s <;> rfl

@[simp] lemma side_rebase (c : Counts) : c.rebase.side = c.side :=
  side_setEgress _ _ _

@[simp] lemma side_depart (c : Counts) (s : Side) : (c.depart s).side = c.side := by
  unfold depart
  split <;> simp

/-- A departure adds the place value of its side. -/
lemma value_count (c : Counts) (s : Side) :
    (c.count s).value = c.value + (egressUnit s).toNat := by
  cases s with
  | left =>
    have hunit : (egressUnit .left).toNat = 2 ^ 20 := by decide
    simp only [value, count, setEgress, egress, hunit]
    omega
  | right =>
    have hunit : (egressUnit .right).toNat = 2 ^ 40 := by decide
    simp only [value, count, setEgress, egress, hunit]
    omega

lemma value_arrive (c : Counts) : c.arrive.value = c.value + 1 := by
  simp only [value, arrive]
  omega

/-- The value of counts that fit does not reach the bits above the side. -/
lemma Fits.value_lt {c : Counts} (h : c.Fits) : c.value < 2 ^ 61 := by
  obtain ⟨hi, hl, hr⟩ := h
  have hs := bit_toNat_lt c.side
  simp only [value]
  omega

lemma Fits.rebase {c : Counts} (h : c.Fits) : c.rebase.Fits := by
  have hrest : Fits { c with ingress := c.ingress - c.egress c.side } :=
    ⟨Nat.lt_of_le_of_lt (Nat.sub_le _ _) h.1, h.2⟩
  exact fits_setEgress hrest _ (by omega)

lemma fits_turn (c : Counts) : c.turn.Fits :=
  ⟨Nat.two_pow_pos 20, Nat.two_pow_pos 20, Nat.two_pow_pos 20⟩

end Counts

namespace Backlog

variable {b : Backlog} {n : UInt64}

/-- The readers of a backlog are gone when the departures reach the arrivals. -/
lemma drained_of_le (hle : n.toNat + b.carried.toNat ≤ b.ingress.toNat) :
    b.drained n = .ok (n.toNat + b.carried.toNat == b.ingress.toNat) := by
  have hlt := b.ingress.toNat_lt
  have hdeparted : (n + b.carried).toNat = n.toNat + b.carried.toNat := by
    rw [UInt64.toNat_add, Nat.mod_eq_of_lt (by omega)]
  have hgt : ¬ n + b.carried > b.ingress := by
    rw [gt_iff_lt, UInt64.lt_iff_toNat_lt, hdeparted]
    omega
  rw [drained, if_neg hgt]
  refine congrArg _ ?_
  rw [Bool.eq_iff_iff, beq_iff_eq, beq_iff_eq, ← UInt64.toNat_inj, hdeparted]

/-- More departures than arrivals are misuse. -/
lemma drained_of_lt (hfits : n.toNat + b.carried.toNat < 2 ^ 64)
    (hlt : b.ingress.toNat < n.toNat + b.carried.toNat) :
    b.drained n = .error .unmatchedDeparture := by
  have hdeparted : (n + b.carried).toNat = n.toNat + b.carried.toNat := by
    rw [UInt64.toNat_add, Nat.mod_eq_of_lt hfits]
  rw [drained, if_pos]
  rw [gt_iff_lt, UInt64.lt_iff_toNat_lt, hdeparted]
  exact hlt

/-- The departures had reached the arrivals before the exchange, so there is nothing to wait for. -/
lemma cleared_of_eq {g : IngressWord} (heq : b.carried = b.ingress) : g.cleared b = .ok true := by
  have hfirst := b.drained_of_le (n := 0) (by rw [heq, UInt64.toNat_zero, Nat.zero_add])
  rw [heq, UInt64.toNat_zero, Nat.zero_add, beq_self_eq_true] at hfirst
  rw [IngressWord.cleared, hfirst]

/-- There is something to wait for, so the word is read. -/
lemma cleared_of_lt {g : IngressWord} (hlt : b.carried.toNat < b.ingress.toNat) :
    g.cleared b = b.drained (g.fields.egress b.side) := by
  have hfirst := b.drained_of_le (n := 0) (by rw [UInt64.toNat_zero]; omega)
  rw [UInt64.toNat_zero, Nat.zero_add, beq_eq_false_iff_ne.2 (Nat.ne_of_lt hlt)] at hfirst
  rw [IngressWord.cleared, hfirst]

end Backlog

/-- Rebasing fields rebases their counts, unless there are more departures than arrivals. -/
lemma Fields.counts_rebase {f : Fields} (h : f.egress f.side ≤ f.ingress) :
    f.rebase.counts = f.counts.rebase := by
  obtain ⟨s, i, l, r⟩ := f
  cases s <;>
    simpa [Fields.rebase, Fields.setEgress, Fields.counts, Fields.egress, Counts.rebase,
      Counts.setEgress, Counts.egress] using UInt64.toNat_sub_of_le _ _ h

/-- The gate has these counts: they fit, and the word has them in its fields. -/
def Keeps (g : IngressWord) (c : Counts) : Prop :=
  c.Fits ∧ g.word.toNat = c.value

namespace Keeps

variable {g : IngressWord} {c : Counts}

lemma counts_fields (h : g.Keeps c) : g.fields.counts = c :=
  Fields.counts_unpack_of_value h.1 h.2

/-- The word contains nothing but its fields. -/
lemma pack_fields (h : g.Keeps c) : g.fields.pack = g.word :=
  Fields.pack_unpack (h.2 ▸ h.1.value_lt)

lemma of_pack {f : Fields} {rebases : Nat} (hf : f.counts.Fits) :
    Keeps ⟨f.pack, rebases⟩ f.counts :=
  ⟨hf, Fields.toNat_pack hf⟩

lemma fresh : IngressWord.fresh.Keeps ⟨.left, 0, 0, 0⟩ :=
  of_pack (f := .reset .left) ⟨by decide, by decide, by decide⟩

lemma side_eq (h : g.Keeps c) : g.side = c.side :=
  congrArg Counts.side h.counts_fields

lemma toNat_ingress (h : g.Keeps c) : g.fields.ingress.toNat = c.ingress :=
  congrArg Counts.ingress h.counts_fields

lemma toNat_egress (h : g.Keeps c) (s : Side) : (g.fields.egress s).toNat = c.egress s := by
  rw [← Fields.egress_counts, h.counts_fields]

lemma arrive (h : g.Keeps c) (hroom : c.ingress + 1 < 2 ^ 20) : g.arrive.2.Keeps c.arrive := by
  refine ⟨⟨hroom, h.1.2⟩, ?_⟩
  have hlt := h.1.value_lt
  have hadd : (g.word + 1).toNat = g.word.toNat + 1 := by
    rw [UInt64.toNat_add, UInt64.toNat_one, Nat.mod_eq_of_lt (by rw [h.2]; omega)]
  rw [Counts.value_arrive, ← h.2]
  exact hadd

/-- One more departure from a side. -/
lemma count (h : g.Keeps c) {s : Side} (hroom : c.egress s + 1 < 2 ^ 20) :
    Keeps { g with word := g.word + egressUnit s } (c.count s) := by
  have hcount : (c.count s).Fits := Counts.fits_setEgress h.1 s hroom
  have hlt := hcount.value_lt
  rw [Counts.value_count] at hlt
  refine ⟨hcount, ?_⟩
  rw [Counts.value_count, UInt64.toNat_add, h.2, Nat.mod_eq_of_lt (by omega)]

lemma egress_le (h : g.Keeps c) {s : Side} (hle : c.egress s ≤ c.ingress) :
    g.fields.egress s ≤ g.fields.ingress := by
  rwa [UInt64.le_iff_toNat_le, h.toNat_egress, h.toNat_ingress]

/-- A departure within the arrivals is counted, and no subtraction underflows. -/
lemma depart (h : g.Keeps c) {s : Side} (hroom : c.egress s + 1 < 2 ^ 20)
    (hbacked : (c.count s).egress c.side ≤ c.ingress) :
    (g.depart s).1 = .ok (c.reports s) ∧ (g.depart s).2.Keeps (c.depart s) := by
  have hcount := h.count hroom
  have hcounts : (Fields.unpack (g.word + egressUnit s)).counts = c.count s := hcount.counts_fields
  have hside : (Fields.unpack (g.word + egressUnit s)).side = c.side := by
    rw [← Counts.side_count c s, ← hcounts]
    rfl
  have hle : (Fields.unpack (g.word + egressUnit s)).egress c.side ≤
      (Fields.unpack (g.word + egressUnit s)).ingress :=
    hcount.egress_le (Counts.ingress_count c s ▸ hbacked)
  have hlow : (Fields.unpack (g.word + egressUnit s)).ingress < threshold ↔
      (c.count s).ingress < 2 ^ 19 := by
    rw [UInt64.lt_iff_toNat_lt, ← hcounts]
    exact Iff.rfl
  simp only [IngressWord.depart, Counts.reports, Counts.depart]
  rw [if_neg]
  · by_cases hingress : (c.count s).ingress < 2 ^ 19
    · rw [if_pos (hlow.2 hingress), if_pos hingress, if_pos hingress]
      exact ⟨rfl, hcount⟩
    · rw [if_neg (fun h => hingress (hlow.1 h)), if_neg hingress, if_neg hingress]
      have hrebase := Fields.counts_rebase (hside ▸ hle)
      rw [hcounts] at hrebase
      refine ⟨?_, ?_⟩
      · rw [← hrebase]
        rfl
      · rw [← hrebase]
        exact of_pack (hrebase ▸ hcount.1.rebase)
  · -- the departure is within the arrivals, so it is not refused
    rintro ⟨hs, hgt⟩
    rw [← hside, hs] at hle
    exact UInt64.not_le.2 hgt hle

/-- An exchange takes the counts out and leaves fresh ones. -/
lemma exchange (h : g.Keeps c) :
    g.exchange.1.side = c.side ∧ g.exchange.1.ingress.toNat = c.ingress ∧
      g.exchange.1.carried.toNat = c.egress c.side ∧ g.exchange.2.Keeps c.turn := by
  have hside : g.fields.side = c.side := h.side_eq
  refine ⟨hside, h.toNat_ingress, ?_, ?_⟩
  · rw [← h.toNat_egress, ← hside]
    rfl
  · have hreset : (Fields.reset g.fields.side.opposite).counts = c.turn := by
      rw [hside]
      rfl
    rw [← hreset]
    exact of_pack (hreset ▸ c.fits_turn)

/-- A writer finds out whether the readers it waits for are gone. -/
lemma cleared (h : g.Keeps c) {b : Backlog}
    (hle : c.egress b.side + b.carried.toNat ≤ b.ingress.toNat) :
    g.cleared b = .ok (c.egress b.side + b.carried.toNat == b.ingress.toNat) := by
  by_cases heq : b.carried = b.ingress
  · -- no reader was in flight at the exchange, so none has departed since
    have hnone : c.egress b.side = 0 := by
      rw [heq] at hle
      omega
    rw [Backlog.cleared_of_eq heq, hnone, heq, Nat.zero_add, beq_self_eq_true]
  · have hlt : b.carried.toNat < b.ingress.toNat :=
      Nat.lt_of_le_of_ne (by omega) (mt UInt64.toNat_inj.1 heq)
    rw [Backlog.cleared_of_lt hlt, Backlog.drained_of_le (by rw [h.toNat_egress]; exact hle),
      h.toNat_egress]

end Keeps

end TwinCopy.IngressWord
