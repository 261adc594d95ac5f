import Mathlib.Algebra.Order.Floor.Div
import Mathlib.Data.Nat.Count
import Mathlib.GroupTheory.GroupAction.Ring
import Mathlib.Order.Bounds.Defs
import Mathlib.Order.Interval.Finset.Nat
import TwinCopy.Proofs.Traffic

/-!
# Consecutive slots are spread evenly

Slots are numbered from zero on, and hashed counters take the low bits of a number that is scrambled
in three steps. Scrambling is linear over xor (`xorshift_xor`), so two words have the same low bits
after it only if their difference has none. For two slots of one aligned block, of as many numbers
as there are buckets, the difference is a word of low bits only, and scrambling does not clear all
of these (`eq_zero_of_zeroBelow_xorshift`). So a block has one slot for each bucket, and a bucket
has about as many slots as there are blocks: `slots_spread_evenly`. If such slots arrive and depart,
the counters are as even at all times: `counters_stay_even`.
-/

namespace TwinCopy

namespace HashedCounters

/-! ## The number of buckets -/

/-- A power of two bounds a number exactly if it bounds the number rounded up. -/
lemma leastPowerOfTwo_le_iff {n k : Nat} : leastPowerOfTwo n ≤ 2 ^ k ↔ n ≤ 2 ^ k := by
  rw [leastPowerOfTwo]
  split
  case isTrue h =>
    have hpos := Nat.two_pow_pos k
    omega
  case isFalse h =>
    rw [Nat.one_shiftLeft, Nat.pow_le_pow_iff_right (by decide), Nat.succ_le_iff,
      Nat.log2_lt (by omega)]
    omega

lemma isLeast_leastPowerOfTwo (n : Nat) :
    IsLeast {b | max n 1 ≤ b ∧ ∃ k, b = 2 ^ k} (leastPowerOfTwo n) := by
  obtain ⟨k, hk⟩ := exists_leastPowerOfTwo_eq n
  constructor
  · refine ⟨?_, k, hk⟩
    rw [hk]
    exact max_le (leastPowerOfTwo_le_iff.1 hk.le) Nat.one_le_two_pow
  · rintro b ⟨hle, j, rfl⟩
    exact leastPowerOfTwo_le_iff.2 ((le_max_left n 1).trans hle)

/-!
## Scrambling

Each of the three steps mixes a word with a shift of itself.
-/

/-- A word mixed with its left shift. -/
def mixUp (s w : UInt64) : UInt64 := w ^^^ (w <<< s)

/-- A word mixed with its right shift. -/
def mixDown (s w : UInt64) : UInt64 := w ^^^ (w >>> s)

/-- The three steps of scrambling. -/
def xorshift (w : UInt64) : UInt64 := mixUp 4 (mixDown 35 (mixUp 21 w))

lemma scramble_eq_xorshift (slot : Nat) : scramble slot = xorshift (UInt64.ofNat slot + 1) := rfl

lemma mixUp_xor (s v w : UInt64) : mixUp s (v ^^^ w) = mixUp s v ^^^ mixUp s w := by
  rw [mixUp, mixUp, mixUp, UInt64.shiftLeft_xor]
  ac_rfl

lemma mixDown_xor (s v w : UInt64) : mixDown s (v ^^^ w) = mixDown s v ^^^ mixDown s w := by
  rw [mixDown, mixDown, mixDown, UInt64.shiftRight_xor]
  ac_rfl

/-- Scrambling is linear over xor. -/
lemma xorshift_xor (v w : UInt64) : xorshift (v ^^^ w) = xorshift v ^^^ xorshift w := by
  rw [xorshift, mixUp_xor, mixDown_xor, mixUp_xor]
  rfl

/-! ### Bits -/

variable {s w : UInt64} {n k i : Nat}

lemma testBit_mixUp (hs : s.toNat = n) (hn : n < 64) (hi : i < 64) :
    (mixUp s w).toNat.testBit i =
      (w.toNat.testBit i ^^ (decide (n ≤ i) && w.toNat.testBit (i - n))) := by
  rw [mixUp, UInt64.toNat_xor, Nat.testBit_xor, UInt64.toNat_shiftLeft, hs, Nat.mod_eq_of_lt hn,
    Nat.testBit_mod_two_pow, Nat.testBit_shiftLeft, decide_eq_true hi, Bool.true_and]

lemma testBit_mixDown (hs : s.toNat = n) (hn : n < 64) :
    (mixDown s w).toNat.testBit i = (w.toNat.testBit i ^^ w.toNat.testBit (n + i)) := by
  rw [mixDown, UInt64.toNat_xor, Nat.testBit_xor, UInt64.toNat_shiftRight, hs,
    Nat.mod_eq_of_lt hn, Nat.testBit_shiftRight]

lemma testBit_beyond (hw : w.toNat < 2 ^ k) (hi : k ≤ i) : w.toNat.testBit i = false :=
  Nat.testBit_lt_two_pow (hw.trans_le (Nat.pow_le_pow_right (by decide) hi))

/-- The low bits of a word are zero. -/
def ZeroBelow (k : Nat) (w : UInt64) : Prop := ∀ i < k, w.toNat.testBit i = false

lemma zeroBelow_of_mod_eq_zero (h : w.toNat % 2 ^ k = 0) : ZeroBelow k w := by
  intro i hi
  have hbit : (w.toNat % 2 ^ k).testBit i = false := by rw [h, Nat.zero_testBit]
  rwa [Nat.testBit_mod_two_pow, decide_eq_true hi, Bool.true_and] at hbit

/-- A left shift does not clear the low bits: from the lowest on, each is mixed with a lower one, or
with nothing. -/
lemma ZeroBelow.of_mixUp (h : ZeroBelow k (mixUp s w)) (hs : s.toNat = n) (hpos : 0 < n)
    (hn : n < 64) (hk : k ≤ 64) : ZeroBelow k w := by
  intro i
  induction i using Nat.strong_induction_on with
  | _ i ih =>
    intro hi
    have hbit := h i hi
    rw [testBit_mixUp hs hn (by omega)] at hbit
    by_cases hle : n ≤ i
    · rwa [ih (i - n) (by omega) (by omega), Bool.and_false, Bool.xor_false] at hbit
    · rwa [decide_eq_false hle, Bool.false_and, Bool.xor_false] at hbit

/-- The bits of a small word after the first two steps: each is mixed with the bit that the first
step shifts to it, and with the one that the first step shifts up and the second one down again. -/
lemma testBit_mixDown_mixUp (hk : k ≤ 28) (hw : w.toNat < 2 ^ k) (hi : i < k) :
    (mixDown 35 (mixUp 21 w)).toNat.testBit i =
      ((w.toNat.testBit i ^^ (decide (21 ≤ i) && w.toNat.testBit (i - 21))) ^^
        w.toNat.testBit (i + 14)) := by
  have hhigh : w.toNat.testBit (35 + i) = false := testBit_beyond hw (by omega)
  have hdown : 35 + i - 21 = i + 14 := by omega
  have hup : 21 ≤ 35 + i := by omega
  rw [testBit_mixDown (n := 35) rfl (by decide), testBit_mixUp (n := 21) rfl (by decide) (by omega),
    testBit_mixUp (n := 21) rfl (by decide) (by omega), hhigh, hdown, decide_eq_true hup,
    Bool.true_and, Bool.false_xor]

/-- A bit that is zero after the first two steps was zero before, if those mixed with it were. -/
lemma testBit_eq_false (hk : k ≤ 28) (hw : w.toNat < 2 ^ k)
    (hlow : ZeroBelow k (mixDown 35 (mixUp 21 w))) (habove : w.toNat.testBit (i + 14) = false)
    (hbelow : 21 ≤ i → w.toNat.testBit (i - 21) = false) : w.toNat.testBit i = false := by
  by_cases hi : i < k
  · have hbit := hlow i hi
    rw [testBit_mixDown_mixUp hk hw hi, habove, Bool.xor_false] at hbit
    by_cases hle : 21 ≤ i
    · rwa [hbelow hle, Bool.and_false, Bool.xor_false] at hbit
    · rwa [decide_eq_false hle, Bool.false_and, Bool.xor_false] at hbit
  · exact testBit_beyond hw (Nat.not_lt.1 hi)

/-- If the low bits of a scrambled small word are zero, the word is zero. -/
lemma eq_zero_of_zeroBelow_xorshift (hk : k ≤ 28) (hw : w.toNat < 2 ^ k)
    (h : ZeroBelow k (xorshift w)) : w = 0 := by
  have hlow : ZeroBelow k (mixDown 35 (mixUp 21 w)) :=
    h.of_mixUp (n := 4) rfl (by decide) (by decide) (by omega)
  -- bits 14 to 20 are mixed with nothing, and each other range with one already settled
  have hthird (i : Nat) (hi : 14 ≤ i ∧ i < 21) : w.toNat.testBit i = false :=
    testBit_eq_false hk hw hlow (testBit_beyond hw (by omega)) (by omega)
  have hfirst (i : Nat) (hi : i < 7) : w.toNat.testBit i = false :=
    testBit_eq_false hk hw hlow (hthird _ (by omega)) (by omega)
  have hfourth (i : Nat) (hi : 21 ≤ i ∧ i < 28) : w.toNat.testBit i = false :=
    testBit_eq_false hk hw hlow (testBit_beyond hw (by omega)) fun _ => hfirst _ (by omega)
  have hsecond (i : Nat) (hi : 7 ≤ i ∧ i < 14) : w.toNat.testBit i = false :=
    testBit_eq_false hk hw hlow (hfourth _ (by omega)) (by omega)
  refine UInt64.toNat_inj.1 (Nat.eq_of_testBit_eq fun i => ?_)
  rw [UInt64.toNat_zero, Nat.zero_testBit]
  obtain hi | hi | hi | hi | hi : i < 7 ∨ (7 ≤ i ∧ i < 14) ∨ (14 ≤ i ∧ i < 21) ∨
      (21 ≤ i ∧ i < 28) ∨ k ≤ i := by omega
  · exact hfirst i hi
  · exact hsecond i hi
  · exact hthird i hi
  · exact hfourth i hi
  · exact testBit_beyond hw hi

/-! ## Blocks of slots -/

/-- The word that is scrambled for a slot. -/
lemma toNat_ofNat_add_one (slot : Nat) : (UInt64.ofNat slot + 1).toNat = (slot + 1) % 2 ^ 64 := by
  rw [UInt64.toNat_add, UInt64.toNat_ofNat', UInt64.toNat_one, Nat.mod_add_mod]

variable {c : HashedCounters} {slot other : Nat}

/-- The bucket is the remainder of the scrambled index. -/
lemma bucket_eq_mod (hk : k ≤ 64) (hc : c.size = 2 ^ k) (slot : Nat) :
    c.bucket slot = (scramble slot).toNat % 2 ^ k := by
  have hlt : 2 ^ k - 1 < 2 ^ 64 :=
    (Nat.sub_one_lt (Nat.two_pow_pos k).ne').trans_le (Nat.pow_le_pow_right (by decide) hk)
  rw [bucket, hc, UInt64.toNat_and, UInt64.toNat_ofNat', Nat.mod_eq_of_lt hlt,
    Nat.and_two_pow_sub_one_eq_mod]

/-- The words of two slots of a block differ in low bits only. -/
lemma toNat_xor_lt (hk : k ≤ 64) (hblock : (slot + 1) / 2 ^ k = (other + 1) / 2 ^ k) :
    ((UInt64.ofNat slot + 1) ^^^ (UInt64.ofNat other + 1)).toNat < 2 ^ k := by
  have hdiv (m : Nat) : m % 2 ^ 64 / 2 ^ k = m / 2 ^ k % 2 ^ (64 - k) := by
    rw [← Nat.mod_mul_right_div_self, ← Nat.pow_add, Nat.add_sub_cancel' hk]
  refine Nat.lt_of_div_eq_zero (Nat.two_pow_pos k) ?_
  rw [UInt64.toNat_xor, Nat.xor_div_two_pow, toNat_ofNat_add_one, toNat_ofNat_add_one, hdiv, hdiv,
    hblock, Nat.xor_self]

/-- Two slots of a block have different buckets. -/
lemma eq_of_bucket_eq (hk : k ≤ 28) (hc : c.size = 2 ^ k)
    (hblock : (slot + 1) / 2 ^ k = (other + 1) / 2 ^ k)
    (h : c.bucket slot = c.bucket other) : slot = other := by
  have hword : k ≤ 64 := by omega
  rw [bucket_eq_mod hword hc, bucket_eq_mod hword hc, scramble_eq_xorshift,
    scramble_eq_xorshift] at h
  have hlow : ZeroBelow k (xorshift ((UInt64.ofNat slot + 1) ^^^ (UInt64.ofNat other + 1))) := by
    refine zeroBelow_of_mod_eq_zero ?_
    rw [xorshift_xor, UInt64.toNat_xor, Nat.xor_mod_two_pow, h, Nat.xor_self]
  have hsame : UInt64.ofNat slot + 1 = UInt64.ofNat other + 1 :=
    UInt64.xor_eq_zero_iff.1 (eq_zero_of_zeroBelow_xorshift hk (toNat_xor_lt hword hblock) hlow)
  have hmod : (slot + 1) % 2 ^ k = (other + 1) % 2 ^ k := by
    have hdvd : 2 ^ k ∣ 2 ^ 64 := Nat.pow_dvd_pow 2 hword
    rw [← Nat.mod_mod_of_dvd _ hdvd, ← toNat_ofNat_add_one, hsame, toNat_ofNat_add_one,
      Nat.mod_mod_of_dvd _ hdvd]
  have hsucc : slot + 1 = other + 1 := by
    rw [← Nat.div_add_mod (slot + 1) (2 ^ k), hblock, hmod, Nat.div_add_mod]
  exact Nat.succ.inj hsucc

/-- Every bucket has a slot in every block but the first, where the number before that of the first
slot takes a place. -/
lemma exists_slot_in_block (hk : k ≤ 28) (hc : c.size = 2 ^ k) {q b : Nat} (hq : 0 < q)
    (hb : b < 2 ^ k) : ∃ slot, (slot + 1) / 2 ^ k = q ∧ c.bucket slot = b := by
  have hpos := Nat.two_pow_pos k
  obtain ⟨first, hfirst⟩ : ∃ first, first + 1 = 2 ^ k * q :=
    ⟨_, Nat.sub_add_cancel (Nat.mul_pos hpos hq)⟩
  have hblock {j : Nat} (hj : j < 2 ^ k) : (first + j + 1) / 2 ^ k = q := by
    rw [Nat.add_right_comm, hfirst, Nat.mul_add_div hpos, Nat.div_eq_of_lt hj, Nat.add_zero]
  -- the block has as many slots as there are buckets, and no two of them share one
  have hmaps : Set.MapsTo (fun j => c.bucket (first + j)) (Finset.range (2 ^ k))
      (Finset.range (2 ^ k)) := by
    intro j _
    rw [Finset.mem_coe, Finset.mem_range, ← hc]
    exact bucket_lt (hc ▸ hpos) _
  have hinj : Set.InjOn (fun j => c.bucket (first + j)) (Finset.range (2 ^ k)) := by
    intro i hi j hj hij
    have hsame := (hblock (Finset.mem_range.1 hi)).trans (hblock (Finset.mem_range.1 hj)).symm
    exact Nat.add_left_cancel (eq_of_bucket_eq hk hc hsame hij)
  obtain ⟨j, hj, hbucket⟩ := Finset.surjOn_of_injOn_of_card_le _ hmaps hinj le_rfl
    (Finset.mem_coe.2 (Finset.mem_range.2 hb))
  exact ⟨first + j, hblock (Finset.mem_range.1 hj), hbucket⟩

/-! ## The number of slots of a bucket -/

/-- At most one slot for each block, the last of which need not be full. -/
lemma count_bucket_le (hk : k ≤ 28) (hc : c.size = 2 ^ k) (N b : Nat) :
    Nat.count (c.bucket · = b) N ≤ (N + 1) ⌈/⌉ 2 ^ k := by
  have hblocks : N + 1 ≤ 2 ^ k * ((N + 1) ⌈/⌉ 2 ^ k) := le_smul_ceilDiv (Nat.two_pow_pos k)
  rw [Nat.count_eq_card_filter_range, ← Finset.card_range ((N + 1) ⌈/⌉ 2 ^ k)]
  refine Finset.card_le_card_of_injOn (fun slot => (slot + 1) / 2 ^ k) ?_ ?_
  · intro slot hslot
    have hlt := Finset.mem_range.1 (Finset.mem_filter.1 hslot).1
    exact Finset.mem_coe.2 (Finset.mem_range.2 (Nat.div_lt_of_lt_mul (by omega)))
  · intro slot hslot other hother hblock
    have hbucket := (Finset.mem_filter.1 hslot).2.trans (Finset.mem_filter.1 hother).2.symm
    exact eq_of_bucket_eq hk hc hblock hbucket

/-- At least one slot for each full block but the first. -/
lemma le_count_bucket (hk : k ≤ 28) (hc : c.size = 2 ^ k) (N : Nat) {b : Nat} (hb : b < 2 ^ k) :
    (N + 1) / 2 ^ k - 1 ≤ Nat.count (c.bucket · = b) N := by
  rw [Nat.count_eq_card_filter_range, ← Nat.card_Ico]
  refine le_trans (Finset.card_le_card ?_)
    (Finset.card_image_le (f := fun slot => (slot + 1) / 2 ^ k))
  intro q hq
  obtain ⟨hpos, hlt⟩ := Finset.mem_Ico.1 hq
  obtain ⟨slot, hblock, hbucket⟩ := exists_slot_in_block hk hc hpos hb
  refine Finset.mem_image.2 ⟨slot, Finset.mem_filter.2 ⟨Finset.mem_range.2 ?_, hbucket⟩, hblock⟩
  have hle : slot + 1 < N + 1 := Nat.lt_of_div_lt_div (hblock.trans_lt hlt)
  omega

/-- Of distinct slots below a bound, at most as many have a property as numbers below the bound. -/
lemma countP_le_count {slots : List Nat} {N : Nat} (hslots : slots.Nodup)
    (hlt : ∀ slot ∈ slots, slot < N) (p : Nat → Prop) [DecidablePred p] :
    slots.countP (fun slot => decide (p slot)) ≤ Nat.count p N := by
  rw [Nat.count_eq_card_filter_range, List.countP_eq_length_filter,
    ← List.toFinset_card_of_nodup (hslots.filter _)]
  refine Finset.card_le_card fun slot hslot => ?_
  obtain ⟨hmem, hp⟩ := List.mem_filter.1 (List.mem_toFinset.1 hslot)
  exact Finset.mem_filter.2 ⟨Finset.mem_range.2 (hlt slot hmem), of_decide_eq_true hp⟩

end HashedCounters

open HashedCounters Indicator Motion

/-- The number of buckets of hashed counters is the least power of two that is at least one and at
least the number asked for. It is at most 2 ^ 63 if the latter is. Every slot has one of these
buckets, whatever its index.

Up to 2 ^ 28 buckets, slots have different buckets if their indices plus one are in one aligned
block of as many numbers as there are buckets. So among the first `N` slots a bucket has at most one
for each block, and at least one for each full block but the first. -/
theorem slots_spread_evenly :
    (∀ n ≤ 2 ^ 63,
      IsLeast {b | max n 1 ≤ b ∧ ∃ k, b = 2 ^ k} (ofCount n).size ∧ (ofCount n).size ≤ 2 ^ 63 ∧
      ∀ slot, (ofCount n).bucket slot < (ofCount n).size) ∧
    ∀ (c : HashedCounters) (k : Nat), k ≤ 28 → c.size = 2 ^ k →
      (∀ q, Set.InjOn c.bucket {slot | slot + 1 ∈ Set.Ico (q * 2 ^ k) ((q + 1) * 2 ^ k)}) ∧
      ∀ N, (∀ b, Nat.count (c.bucket · = b) N ≤ (N + 1) ⌈/⌉ 2 ^ k) ∧
        ∀ b < 2 ^ k, (N + 1) / 2 ^ k - 1 ≤ Nat.count (c.bucket · = b) N := by
  refine ⟨fun n hn => ⟨?_, ?_, bucket_lt (size_ofCount_pos n)⟩, fun c k hk hc => ⟨?_, fun N =>
    ⟨count_bucket_le hk hc N, fun b => le_count_bucket hk hc N⟩⟩⟩
  · rw [size_ofCount]
    exact isLeast_leastPowerOfTwo n
  · rw [size_ofCount]
    exact leastPowerOfTwo_le_iff.2 hn
  · intro q slot hslot other hother hbucket
    have hblock {s : Nat} (hs : s + 1 ∈ Set.Ico (q * 2 ^ k) ((q + 1) * 2 ^ k)) :
        (s + 1) / 2 ^ k = q := Nat.div_eq_of_lt_le hs.1 hs.2
    exact eq_of_bucket_eq hk hc ((hblock hslot).trans (hblock hother).symm) hbucket

/-- The largest number of buckets, and somewhat more than four blocks of slots: the first and the
last slot of the second block have different buckets, and a bucket has between three and five slots.
The largest count that can be asked for has a bucket for the last slot of all. -/
theorem slots_spread_evenly_at_limit :
    let c := ofCount (2 ^ 27 + 1)
    c.size = 2 ^ 28 ∧ c.bucket (2 ^ 28 - 1) ≠ c.bucket (2 ^ 29 - 2) ∧
      Nat.count (c.bucket · = 7) (2 ^ 30) ≤ 5 ∧ 3 ≤ Nat.count (c.bucket · = 7) (2 ^ 30) ∧
      (ofCount (2 ^ 63)).size ≤ 2 ^ 63 ∧
      (ofCount (2 ^ 63)).bucket (2 ^ 64 - 2) < (ofCount (2 ^ 63)).size := by
  intro c
  have hsize : c.size = 2 ^ 28 := (size_ofCount _).trans (by decide)
  obtain ⟨hcount, hspread⟩ := slots_spread_evenly
  obtain ⟨hinj, hnumbers⟩ := hspread c 28 (by decide) hsize
  obtain ⟨hle, hge⟩ := hnumbers (2 ^ 30)
  obtain ⟨-, hword, hrange⟩ := hcount (2 ^ 63) (by decide)
  refine ⟨hsize, fun h => ?_, hle 7, hge 7 (by decide), hword, hrange _⟩
  have hsame : 2 ^ 28 - 1 = 2 ^ 29 - 2 := hinj 1 (by decide) (by decide) h
  exact absurd hsame (by decide)

/-- With more buckets two slots of the first block share one. -/
example : (scramble 0).toNat % 2 ^ 29 = (scramble 0x1020407f).toNat % 2 ^ 29 := by decide

/-! ## The counters -/

namespace Indicator

variable {i : Indicator} {ps : List Motion} {inside : List Nat}

/-- If departures are matched, exactly the slots inside are counted. -/
lemma holds_inside (h : i.Holds [] 0) (hps : arrivals anyone ps < 2 ^ 64) (hmatched : Matched ps)
    (hinside : ∀ among, arrivals among ps = departures among ps + inside.countP among) :
    (i.after ps).place = i.place ∧ (i.after ps).Holds inside (arrivals anyone ps) := by
  obtain ⟨counted, hnet⟩ := exists_netCounts h hps
  have hload : (fun b => counted.countP ((i.after ps).place · == b)) =
      fun b => inside.countP ((i.after ps).place · == b) := by
    funext b
    rw [hnet.place_eq]
    have hbalance := hnet.balance (i.place · == b) fun s t hst => by rw [hst]
    rw [(answers_of_matched h hmatched hps).2, hinside] at hbalance
    exact (Nat.add_left_cancel hbalance).symm
  refine ⟨hnet.place_eq, ?_⟩
  rw [Holds, ← hload]
  exact hnet.holds

end Indicator

/-- If departures are matched, no slot is inside twice, and all slots are among the first `N`, then
the counters are as even as the slots. -/
theorem counters_stay_even {n k N : Nat} (hk : k ≤ 28) (hn : leastPowerOfTwo n = 2 ^ k)
    {ps : List Motion} (hps : arrivals anyone ps < 2 ^ 64) (hmatched : Matched ps)
    (honce : ∀ slot, arrivals (· == slot) ps ≤ departures (· == slot) ps + 1)
    (hdense : ∀ slot, N ≤ slot → arrivals (· == slot) ps = 0) {c : HashedCounters}
    (hc : (ofSize .hashed n).after ps = hashed c) :
    ∀ count ∈ c.buckets, count.toNat ≤ (N + 1) ⌈/⌉ 2 ^ k := by
  obtain ⟨inside, hinside⟩ := exists_inside hmatched
  have hslot (slot : Nat) :
      arrivals (· == slot) ps = departures (· == slot) ps + inside.count slot := hinside _
  have hnodup : inside.Nodup := List.nodup_iff_count_le_one.2 fun slot => by
    have hle := honce slot
    rw [hslot] at hle
    exact Nat.le_of_add_le_add_left hle
  have hlt : ∀ slot ∈ inside, slot < N := fun slot hmem => by
    by_contra hge
    have hnone := hdense slot (Nat.not_lt.1 hge)
    have hpos := List.count_pos_iff.2 hmem
    rw [hslot] at hnone
    omega
  have hkind : IndicatorKind.Counting .hashed := trivial
  obtain ⟨hplace, hholds⟩ := holds_inside (counts_ofSize hkind n) hps hmatched hinside
  rw [hc] at hplace hholds
  intro count hmem
  obtain ⟨b, hb⟩ := List.mem_iff_getElem?.1 hmem
  have hbucket : c.bucket = (ofCount n).bucket := hplace
  calc count.toNat = inside.countP (fun slot => decide (c.bucket slot = b)) :=
        (hholds.2 b count hb).1
    _ ≤ Nat.count (c.bucket · = b) N := countP_le_count hnodup hlt _
    _ ≤ (N + 1) ⌈/⌉ 2 ^ k := by
        rw [hbucket]
        exact count_bucket_le hk ((size_ofCount n).trans hn) N b

end TwinCopy
