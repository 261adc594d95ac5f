import Mathlib.Algebra.Ring.Nat
import Mathlib.Data.List.Count
import TwinCopy.Indicator

/-!
# Counting read-indicators

One counter, two counters that only grow, and hashed counters all keep a number for each *place*:
the hashed ones have a place for each bucket, the others one place for all slots. `Counts` relates a
read-indicator to these numbers; as long as a 64-bit word can hold the arrivals, an arrival adds one
at the place of its slot, and a departure subtracts one or, if the number is zero, is refused
without a change.
-/

namespace TwinCopy

/-! ## Words -/

lemma toNat_add_one {c : UInt64} (h : c.toNat + 1 < 2 ^ 64) : (c + 1).toNat = c.toNat + 1 := by
  rw [UInt64.toNat_add, UInt64.toNat_one, Nat.mod_eq_of_lt h]

lemma toNat_sub_one {c : UInt64} (h : c ≠ 0) : (c - 1).toNat = c.toNat - 1 := by
  have hpos : 0 < c.toNat := by simpa [UInt64.lt_iff_toNat_lt] using UInt64.pos_iff_ne_zero.2 h
  have hle : 1 ≤ c := UInt64.le_iff_toNat_le.2 (by simpa using Nat.succ_le_of_lt hpos)
  rw [UInt64.toNat_sub_of_le _ _ hle, UInt64.toNat_one]

/-- A borrow that is put back restores the counters. -/
lemma modify_sub_add (counts : List UInt64) (b : Nat) :
    (counts.modify b (· - 1)).modify b (· + 1) = counts := by
  have hundo : (fun x : UInt64 => x + 1) ∘ (· - 1) = id := by
    funext x
    simp
  rw [List.modify_modify_eq, hundo, List.modify_id]

namespace HashedCounters

lemma exists_leastPowerOfTwo_eq (n : Nat) : ∃ k, leastPowerOfTwo n = 2 ^ k := by
  rw [leastPowerOfTwo]
  split
  · exact ⟨0, rfl⟩
  · exact ⟨_, Nat.one_shiftLeft _⟩

@[simp] lemma size_ofCount (n : Nat) : (ofCount n).size = leastPowerOfTwo n :=
  List.length_replicate

lemma size_ofCount_pos (n : Nat) : 0 < (ofCount n).size := by
  obtain ⟨k, hk⟩ := exists_leastPowerOfTwo_eq n
  rw [size_ofCount, hk]
  exact Nat.two_pow_pos k

@[simp] lemma size_arrive (c : HashedCounters) (slot : Nat) : (c.arrive slot).size = c.size := by
  simp [size, arrive]

@[simp] lemma size_depart (c : HashedCounters) (slot : Nat) :
    (c.depart slot).2.size = c.size := by
  simp only [size, depart]
  split <;> simp

/-- Every slot has a bucket. -/
lemma bucket_lt {c : HashedCounters} (hc : 0 < c.size) (slot : Nat) : c.bucket slot < c.size := by
  have hle : c.bucket slot ≤ (UInt64.ofNat (c.size - 1)).toNat := by
    rw [bucket, UInt64.toNat_and]
    exact Nat.and_le_right
  have hmod : (UInt64.ofNat (c.size - 1)).toNat ≤ c.size - 1 := by
    rw [UInt64.toNat_ofNat']
    exact Nat.mod_le _ _
  omega

/-- The bucket of a slot depends on the number of buckets only. -/
lemma bucket_congr {c d : HashedCounters} (h : c.size = d.size) : c.bucket = d.bucket := by
  funext slot
  rw [bucket, bucket, h]

end HashedCounters

/-- The kinds of read-indicator that count. -/
def IndicatorKind.Counting : IndicatorKind → Prop
  | .single | .paired | .hashed => True
  | .flagged | .watched => False

namespace Indicator

/-- The place at which a slot is counted. -/
def place : Indicator → Nat → Nat
  | hashed c, slot => c.bucket slot
  | _, _ => 0

/-- The number of places. -/
def places : Indicator → Nat
  | hashed c => c.size
  | _ => 1

/-- A counting read-indicator has these numbers at its places, after so many arrivals. -/
def Counts : Indicator → (Nat → Nat) → Nat → Prop
  | single c, load, arrivals => c.readers.toNat = load 0 ∧ load 0 ≤ arrivals
  | paired c, load, arrivals =>
      c.ingress.toNat = c.egress.toNat + load 0 ∧ c.ingress.toNat ≤ arrivals
  | hashed c, load, arrivals =>
      0 < c.size ∧ ∀ b count, c.buckets[b]? = some count → count.toNat = load b ∧ load b ≤ arrivals
  | flagged _, _, _ | watched _, _, _ => False

variable {i : Indicator} {load : Nat → Nat} {arrivals : Nat}

/-- Adds one at a place. -/
def raise (load : Nat → Nat) (place : Nat) : Nat → Nat :=
  fun b => if b = place then load b + 1 else load b

/-- Subtracts one at a place. -/
def lower (load : Nat → Nat) (place : Nat) : Nat → Nat :=
  fun b => if b = place then load b - 1 else load b

@[simp] lemma raise_same (load : Nat → Nat) (p : Nat) : raise load p p = load p + 1 :=
  if_pos rfl

lemma raise_of_ne (load : Nat → Nat) {p b : Nat} (h : b ≠ p) : raise load p b = load b :=
  if_neg h

@[simp] lemma lower_same (load : Nat → Nat) (p : Nat) : lower load p p = load p - 1 :=
  if_pos rfl

lemma lower_of_ne (load : Nat → Nat) {p b : Nat} (h : b ≠ p) : lower load p b = load b :=
  if_neg h

/-- A fresh read-indicator has zero at every place, whatever its size. -/
lemma counts_ofSize {kind : IndicatorKind} (hkind : kind.Counting) (n : Nat) :
    (ofSize kind n).Counts (fun _ => 0) 0 := by
  cases kind with
  | single | paired => simp [ofSize, Counts, SingleCounter.empty, PairedCounters.empty]
  | hashed =>
    refine ⟨HashedCounters.size_ofCount_pos n, fun b count h => ?_⟩
    obtain rfl : count = 0 := by
      rw [HashedCounters.ofCount] at h
      exact List.eq_of_mem_replicate (List.mem_of_getElem? h)
    exact ⟨rfl, Nat.le_refl 0⟩
  | flagged | watched => exact hkind.elim

lemma counts_ofConfig {kind : IndicatorKind} (hkind : kind.Counting) (c : Config) :
    (ofConfig kind c).Counts (fun _ => 0) 0 := by
  cases kind with
  | single | paired => exact counts_ofSize hkind c.maxThreads
  | hashed => exact counts_ofSize hkind c.counterBuckets
  | flagged | watched => exact hkind.elim

lemma Counts.mono {n : Nat} (h : i.Counts load arrivals) (hn : arrivals ≤ n) : i.Counts load n := by
  cases i with
  | single c => exact ⟨h.1, Nat.le_trans h.2 hn⟩
  | paired c => exact ⟨h.1, Nat.le_trans h.2 hn⟩
  | hashed c =>
    exact ⟨h.1, fun b count hb => ⟨(h.2 b count hb).1, Nat.le_trans (h.2 b count hb).2 hn⟩⟩
  | flagged f | watched f => exact h

/-- The count at the bucket of a slot. -/
lemma exists_count {c : HashedCounters} (hc : 0 < c.size) (slot : Nat) :
    ∃ count, c.buckets[c.bucket slot]? = some count :=
  ⟨_, List.getElem?_eq_getElem (HashedCounters.bucket_lt hc slot)⟩

/-- An arrival adds one at the place of its slot. -/
lemma Counts.arrive (h : i.Counts load arrivals) (hn : arrivals + 1 < 2 ^ 64) (slot : Nat) :
    ∃ j, i.arrive slot = .ok j ∧ j.place = i.place ∧
      j.Counts (raise load (i.place slot)) (arrivals + 1) := by
  cases i with
  | single c =>
    obtain ⟨hcount, hle⟩ := h
    refine ⟨_, rfl, rfl, ?_⟩
    simp only [Counts, place, raise_same, SingleCounter.arrive]
    rw [toNat_add_one (by omega)]
    omega
  | paired c =>
    obtain ⟨hcount, hle⟩ := h
    refine ⟨_, rfl, rfl, ?_⟩
    simp only [Counts, place, raise_same, PairedCounters.arrive]
    rw [toNat_add_one (by omega)]
    omega
  | hashed c =>
    obtain ⟨hsize, hcounts⟩ := h
    have hsize' : (c.arrive slot).size = c.size := c.size_arrive slot
    refine ⟨_, rfl, HashedCounters.bucket_congr hsize', hsize'.symm ▸ hsize, fun b count hb => ?_⟩
    simp only [HashedCounters.arrive, List.getElem?_modify] at hb
    simp only [place]
    by_cases heq : b = c.bucket slot
    · subst heq
      obtain ⟨old, hold, rfl⟩ := Option.map_eq_some_iff.1 (by simpa using hb)
      have hload := hcounts _ old hold
      rw [raise_same, toNat_add_one (by omega)]
      omega
    · have hload := hcounts b count (by simpa [Ne.symm heq] using hb)
      rw [raise_of_ne load heq]
      omega
  | flagged f | watched f => exact h.elim

/-- A departure from a place with a positive number subtracts one. -/
lemma Counts.depart (h : i.Counts load arrivals) (hn : arrivals < 2 ^ 64) {slot : Nat}
    (hload : load (i.place slot) ≠ 0) :
    ∃ j, i.depart slot = (.ok (), j) ∧ j.place = i.place ∧
      j.Counts (lower load (i.place slot)) arrivals := by
  cases i with
  | single c =>
    obtain ⟨hcount, hle⟩ := h
    simp only [place] at hload
    have hne : c.readers ≠ 0 := fun h0 => hload (by rw [← hcount, h0]; rfl)
    refine ⟨single ⟨c.readers - 1⟩, by simp [Indicator.depart, SingleCounter.depart, hne], rfl, ?_⟩
    simp only [Counts, place, lower_same]
    rw [toNat_sub_one hne]
    omega
  | paired c =>
    obtain ⟨hcount, hle⟩ := h
    simp only [place] at hload
    have hlt : ¬ c.ingress ≤ c.egress := by
      rw [UInt64.le_iff_toNat_le]
      omega
    refine ⟨paired { c with egress := c.egress + 1 },
      by simp [Indicator.depart, PairedCounters.depart, hlt], rfl, ?_⟩
    simp only [Counts, place, lower_same]
    rw [toNat_add_one (by omega)]
    omega
  | hashed c =>
    obtain ⟨hsize, hcounts⟩ := h
    simp only [place] at hload
    obtain ⟨count, hcount⟩ := exists_count hsize slot
    -- the count of the bucket is positive, so the counter does not wrap
    have hne : count ≠ 0 := fun h0 => hload (by rw [← (hcounts _ _ hcount).1, h0]; rfl)
    have hdepart : c.depart slot = (.ok (), ⟨c.buckets.modify (c.bucket slot) (· - 1)⟩) := by
      simp [HashedCounters.depart, hcount, hne]
    have hsize' : HashedCounters.size ⟨c.buckets.modify (c.bucket slot) (· - 1)⟩ = c.size := by
      simp [HashedCounters.size]
    refine ⟨hashed ⟨_⟩, by rw [Indicator.depart, hdepart]; rfl, HashedCounters.bucket_congr hsize',
      hsize'.symm ▸ hsize, fun b new hb => ?_⟩
    simp only [List.getElem?_modify] at hb
    simp only [place]
    by_cases heq : b = c.bucket slot
    · subst heq
      have hold := hcounts _ _ hcount
      have hnew : new = count - 1 := by simpa [hcount, eq_comm] using hb
      rw [lower_same, hnew, toNat_sub_one hne]
      omega
    · have hold := hcounts b new (by simpa [Ne.symm heq] using hb)
      rw [lower_of_ne load heq]
      omega
  | flagged f | watched f => exact h.elim

/-- A departure from a place with zero is refused and changes nothing. -/
lemma Counts.depart_of_eq_zero (h : i.Counts load arrivals) {slot : Nat}
    (hload : load (i.place slot) = 0) : i.depart slot = (.error .unmatchedDeparture, i) := by
  cases i with
  | single c =>
    simp only [place] at hload
    have hzero : c.readers = 0 := UInt64.toNat_inj.1 (by rw [h.1, hload]; rfl)
    rw [Indicator.depart, SingleCounter.depart_of_readers_eq_zero hzero]
    rfl
  | paired c =>
    simp only [place] at hload
    have hle : c.egress ≥ c.ingress := by
      rw [ge_iff_le, UInt64.le_iff_toNat_le, h.1, hload]
      exact Nat.le_refl _
    rw [Indicator.depart, PairedCounters.depart_of_ingress_le hle]
    rfl
  | hashed c =>
    simp only [place] at hload
    obtain ⟨count, hcount⟩ := exists_count h.1 slot
    have hzero : count = 0 := UInt64.toNat_inj.1 (by rw [(h.2 _ _ hcount).1, hload]; rfl)
    simp [Indicator.depart, HashedCounters.depart, hcount, hzero, modify_sub_add]
  | flagged f | watched f => exact h.elim

/-- A read-indicator is empty if the number is zero at every place. -/
lemma Counts.isEmpty_iff (h : i.Counts load arrivals) :
    i.isEmpty = true ↔ ∀ b < i.places, load b = 0 := by
  cases i with
  | single c =>
    have hzero : c.readers = 0 ↔ c.readers.toNat = 0 := by rw [← UInt64.toNat_inj]; rfl
    simp [isEmpty, SingleCounter.isEmpty, places, hzero, h.1]
  | paired c =>
    obtain ⟨hcount, -⟩ := h
    have hequal : c.egress = c.ingress ↔ load 0 = 0 := by
      rw [← UInt64.toNat_inj]
      omega
    simp [isEmpty, PairedCounters.isEmpty, places, hequal]
  | hashed c =>
    have hzero : ∀ count : UInt64, count = 0 ↔ count.toNat = 0 := by
      intro count
      rw [← UInt64.toNat_inj]
      rfl
    simp only [isEmpty, HashedCounters.isEmpty, List.all_eq_true, beq_iff_eq, places]
    constructor
    · intro hall b hb
      have hcount := List.getElem?_eq_getElem hb
      rw [← (h.2 b _ hcount).1, hall _ (List.mem_of_getElem? hcount)]
      rfl
    · intro hall count hmem
      obtain ⟨b, hb⟩ := List.mem_iff_getElem?.1 hmem
      have hlt : b < c.size := (List.getElem?_eq_some_iff.1 hb).1
      rw [hzero, (h.2 b count hb).1, hall b hlt]
  | flagged f | watched f => exact h.elim

/-! ## The readers counted -/

/-- A read-indicator counts exactly these readers, given by the indices of their slots. -/
def Holds (i : Indicator) (inside : List Nat) (arrivals : Nat) : Prop :=
  i.Counts (fun b => inside.countP (i.place · == b)) arrivals

variable {inside : List Nat}

lemma holds_ofConfig {kind : IndicatorKind} (hkind : kind.Counting) (c : Config) :
    (ofConfig kind c).Holds [] 0 :=
  counts_ofConfig hkind c

lemma Holds.mono {n : Nat} (h : i.Holds inside arrivals) (hn : arrivals ≤ n) : i.Holds inside n :=
  Counts.mono h hn

/-- The order of the readers does not matter. -/
lemma Holds.perm {others : List Nat} (h : i.Holds inside arrivals) (hperm : inside.Perm others) :
    i.Holds others arrivals := by
  have hload :
      (fun b => inside.countP (i.place · == b)) = fun b => others.countP (i.place · == b) :=
    funext fun b => hperm.countP_eq _
  rwa [Holds, ← hload]

/-- An arrival is counted. -/
lemma Holds.arrive (h : i.Holds inside arrivals) (hn : arrivals + 1 < 2 ^ 64) (slot : Nat) :
    ∃ j, i.arrive slot = .ok j ∧ j.place = i.place ∧ j.Holds (slot :: inside) (arrivals + 1) := by
  obtain ⟨j, harrive, hsame, hcounts⟩ := Counts.arrive h hn slot
  have hload : raise (fun b => inside.countP (i.place · == b)) (i.place slot) =
      fun b => (slot :: inside).countP (j.place · == b) := by
    funext b
    rw [hsame, List.countP_cons]
    by_cases hb : b = i.place slot
    · subst hb
      simp
    · rw [raise_of_ne _ hb, if_neg (by simpa using Ne.symm hb), Nat.add_zero]
  rw [hload] at hcounts
  exact ⟨j, harrive, hsame, hcounts⟩

/-- A departure removes a reader counted at the same place, not necessarily with the same slot. -/
lemma Holds.depart {slot other : Nat} (h : i.Holds (other :: inside) arrivals)
    (hn : arrivals < 2 ^ 64) (hplace : i.place other = i.place slot) :
    ∃ j, i.depart slot = (.ok (), j) ∧ j.place = i.place ∧ j.Holds inside arrivals := by
  have hne : (other :: inside).countP (i.place · == i.place slot) ≠ 0 := by simp [hplace]
  obtain ⟨j, hdepart, hsame, hcounts⟩ := Counts.depart h hn hne
  have hload : lower (fun b => (other :: inside).countP (i.place · == b)) (i.place slot) =
      fun b => inside.countP (j.place · == b) := by
    funext b
    rw [hsame]
    by_cases hb : b = i.place slot
    · subst hb
      simp [hplace]
    · rw [lower_of_ne _ hb, List.countP_cons, if_neg (by simpa [hplace] using Ne.symm hb),
        Nat.add_zero]
  rw [hload] at hcounts
  exact ⟨j, hdepart, hsame, hcounts⟩

lemma Counts.place_lt (h : i.Counts load arrivals) (slot : Nat) : i.place slot < i.places := by
  cases i with
  | single | paired => exact Nat.one_pos
  | hashed c => exact HashedCounters.bucket_lt h.1 slot
  | flagged | watched => exact h.elim

/-- A read-indicator is empty if it counts no readers. -/
lemma Holds.isEmpty_iff (h : i.Holds inside arrivals) : i.isEmpty = true ↔ inside = [] := by
  rw [Counts.isEmpty_iff h]
  constructor
  · intro hall
    refine List.eq_nil_iff_forall_not_mem.2 fun slot hslot => ?_
    have hzero := hall (i.place slot) (Counts.place_lt h slot)
    exact List.countP_eq_zero.1 hzero slot hslot (by simp)
  · rintro rfl b -
    exact List.countP_nil

end Indicator

end TwinCopy
