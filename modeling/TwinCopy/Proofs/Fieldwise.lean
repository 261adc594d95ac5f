import TwinCopy.Proofs.PackedVersions

/-!
# Arithmetic on the fields of the packed words

A gate in one word changes a field by adding to the whole word or subtracting from it. Read as a
number, the word is the sum of its fields at their places, so adding one at the place of a counter
that is not full carries nothing, and subtracting from a counter that is not zero borrows nothing.
For the word without versions the fields are truncated to their widths; for the word with versions
`Layout` includes the two bits that no field uses, so that it determines the whole word. Main
statement: `packed_fields_independent`.
-/

namespace TwinCopy

/-! ## The word without versions -/

namespace IngressWord

lemma and_counterMask_idem (n : UInt64) :
    n &&& counterMask &&& counterMask = n &&& counterMask := by
  rw [UInt64.and_assoc, UInt64.and_self]

lemma and_counterMask_of_lt {n : UInt64} (h : n.toNat < 2 ^ 20) : n &&& counterMask = n := by
  rw [← UInt64.toNat_inj, toNat_and_counterMask, Nat.mod_eq_of_lt h]

namespace Fields

/-- The fields, each truncated to its width. -/
def cut (f : Fields) : Fields where
  side := f.side
  ingress := f.ingress &&& counterMask
  egressLeft := f.egressLeft &&& counterMask
  egressRight := f.egressRight &&& counterMask

lemma egress_cut (f : Fields) (s : Side) : f.cut.egress s = f.egress s &&& counterMask := by
  cases s <;> rfl

lemma egress_setEgress (f : Fields) (s : Side) (n : UInt64) : (f.setEgress s n).egress s = n := by
  cases s <;> rfl

lemma cut_setEgress (f : Fields) (s : Side) {n : UInt64} (h : n.toNat < 2 ^ 20) :
    (f.setEgress s n).cut = f.cut.setEgress s n := by
  cases s <;> simp only [cut, setEgress, and_counterMask_of_lt h]

lemma counts_setEgress (f : Fields) (s : Side) (n : UInt64) :
    (f.setEgress s n).counts = f.counts.setEgress s n.toNat := by
  cases s <;> rfl

/-- Packing truncates the fields. -/
lemma pack_cut (f : Fields) : f.cut.pack = f.pack := by
  simp only [pack, cut, and_counterMask_idem]

lemma fits_cut (f : Fields) : f.cut.counts.Fits := by
  refine ⟨?_, ?_, ?_⟩ <;>
    · simp only [counts, cut, toNat_and_counterMask]
      exact Nat.mod_lt _ (Nat.two_pow_pos 20)

/-- A gate whose word was packed has the truncated counts. -/
lemma keeps_pack (f : Fields) (rebases : Nat) : Keeps ⟨f.pack, rebases⟩ f.cut.counts := by
  rw [← pack_cut]
  exact .of_pack f.fits_cut

/-- Words with the same counts are equal. -/
lemma pack_eq_of_keeps {f : Fields} {w : UInt64} (rebases : Nat)
    (h : Keeps ⟨w, rebases⟩ f.cut.counts) : w = f.pack := by
  rw [← UInt64.toNat_inj, h.2, (f.keeps_pack rebases).2]

/-- An arrival increases the arrivals and leaves the other fields unchanged. -/
lemma pack_add_one {f : Fields} (h : f.ingress.toNat + 1 < 2 ^ 20) :
    f.pack + 1 = pack { f with ingress := f.ingress + 1 } := by
  have hraised : (f.ingress + 1).toNat = f.ingress.toNat + 1 := toNat_add_one (by omega)
  have hcut : (cut { f with ingress := f.ingress + 1 }).counts = f.cut.counts.arrive := by
    simp only [cut, counts, Counts.arrive, and_counterMask_of_lt (hraised.trans_lt h),
      and_counterMask_of_lt (Nat.lt_of_succ_lt h), hraised]
  refine pack_eq_of_keeps 0 ?_
  rw [hcut]
  refine (f.keeps_pack 0).arrive ?_
  change (f.ingress &&& counterMask).toNat + 1 < 2 ^ 20
  rwa [and_counterMask_of_lt (Nat.lt_of_succ_lt h)]

/-- A departure increases the departures from its side and leaves the other fields unchanged. -/
lemma pack_add_egressUnit {f : Fields} {s : Side} (h : (f.egress s).toNat + 1 < 2 ^ 20) :
    f.pack + egressUnit s = (f.setEgress s (f.egress s + 1)).pack := by
  have hfits : (f.egress s).toNat < 2 ^ 20 := Nat.lt_of_succ_lt h
  have hraised : (f.egress s + 1).toNat = (f.egress s).toNat + 1 := toNat_add_one (by omega)
  have hkept : f.cut.counts.egress s = (f.egress s).toNat := by
    rw [egress_counts, egress_cut, and_counterMask_of_lt hfits]
  have hcut : (f.setEgress s (f.egress s + 1)).cut.counts = f.cut.counts.count s := by
    rw [cut_setEgress f s (hraised.trans_lt h), counts_setEgress, hraised, Counts.count, hkept]
  refine pack_eq_of_keeps 0 ?_
  rw [hcut]
  exact (f.keeps_pack 0).count (hkept ▸ h)

lemma setEgress_setEgress (f : Fields) (s : Side) (n m : UInt64) :
    (f.setEgress s n).setEgress s m = f.setEgress s m := by
  cases s <;> rfl

lemma setEgress_egress (f : Fields) (s : Side) : f.setEgress s (f.egress s) = f := by
  cases s <;> rfl

/-- Subtracting a departure undoes its addition. -/
lemma pack_sub_egressUnit {f : Fields} {s : Side} (hpos : 0 < (f.egress s).toNat)
    (hfits : (f.egress s).toNat < 2 ^ 20) :
    f.pack - egressUnit s = (f.setEgress s (f.egress s - 1)).pack := by
  have hne : f.egress s ≠ 0 := fun h => Nat.ne_of_gt hpos (congrArg UInt64.toNat h)
  have hlowered : (f.egress s - 1).toNat = (f.egress s).toNat - 1 := toNat_sub_one hne
  have hraise := pack_add_egressUnit (f := f.setEgress s (f.egress s - 1)) (s := s)
    (by rw [egress_setEgress, hlowered]; omega)
  rw [egress_setEgress, setEgress_setEgress, UInt64.sub_add_cancel, setEgress_egress] at hraise
  rw [← hraise, UInt64.add_sub_cancel]

end Fields

end IngressWord

/-! ## The word with versions -/

namespace VersionedWord

/-- The content of a word: the fields, and the number in the two bits above them. -/
structure Layout extends Tally where
  spare : Nat

namespace Layout

/-- Every part fits its place in the word. -/
def Fits (l : Layout) : Prop :=
  (∀ v, l.count v < 2 ^ 30) ∧ l.spare < 2 ^ 2

/-- The number that has the parts at their places in the word. -/
def value (l : Layout) : Nat :=
  l.toTally.value + 2 ^ 62 * l.spare

/-- The same layout with another number of readers of a version. -/
def setCount (l : Layout) (v : Version) (n : Nat) : Layout :=
  { l with count := Function.update l.count v n }

lemma fits_setCount {l : Layout} (h : l.Fits) (v : Version) {n : Nat} (hn : n < 2 ^ 30) :
    (l.setCount v n).Fits :=
  ⟨Keeps.fits_update h.1 v hn, h.2⟩

lemma value_setCount (l : Layout) (v : Version) (n : Nat) :
    (l.setCount v n).value + (unit v).toNat * l.count v = l.value + (unit v).toNat * n := by
  have h := Keeps.value_update l.toTally v n
  simp only [value, setCount]
  omega

lemma Fits.value_lt {l : Layout} (h : l.Fits) : l.value < 2 ^ 64 := by
  have htally := tally_value_lt h.1
  have hspare := h.2
  simp only [value]
  omega

/-- The parts are determined by the number. -/
lemma eq_of_value {l m : Layout} (hl : l.Fits) (hm : m.Fits) (h : l.value = m.value) : l = m := by
  have hlz := hl.1 .zero
  have hlo := hl.1 .one
  have hmz := hm.1 .zero
  have hmo := hm.1 .one
  have hls := IngressWord.bit_toNat_lt l.side
  have hlc := version_bit_lt l.current
  have hms := IngressWord.bit_toNat_lt m.side
  have hmc := version_bit_lt m.current
  simp only [value, Tally.value] at h
  have hzero : l.count .zero = m.count .zero := by omega
  have hone : l.count .one = m.count .one := by omega
  have hside : l.side = m.side := IngressWord.side_eq_of_bit (by omega)
  have hcurrent : l.current = m.current := version_eq_of_bit (by omega)
  have hspare : l.spare = m.spare := by omega
  obtain ⟨⟨s, v, n⟩, a⟩ := l
  obtain ⟨⟨s', v', n'⟩, a'⟩ := m
  have hcount : n = n' := by
    funext v
    cases v with
    | zero => exact hzero
    | one => exact hone
  subst hside hcurrent hspare hcount
  rfl

end Layout

/-- The layout of a word. -/
def layout (g : VersionedWord) : Layout where
  side := g.side
  current := g.current
  count v := (g.readers v).toNat
  spare := g.word.toNat / 2 ^ 62

lemma fits_layout (g : VersionedWord) : g.layout.Fits := by
  refine ⟨fun v => ?_, ?_⟩
  · change (g.readers v).toNat < 2 ^ 30
    rw [toNat_readers]
    exact Nat.mod_lt _ (Nat.two_pow_pos 30)
  · have hlt := g.word.toNat_lt
    change g.word.toNat / 2 ^ 62 < 2 ^ 2
    omega

/-- A word is the number of its layout. -/
lemma value_layout (g : VersionedWord) : g.layout.value = g.word.toNat := by
  have hzero : (g.readers .zero).toNat = g.word.toNat % 2 ^ 30 := by
    rw [toNat_readers, show (unit .zero).toNat = 1 by decide, Nat.div_one]
  have hone : (g.readers .one).toNat = g.word.toNat / 2 ^ 30 % 2 ^ 30 := by
    rw [toNat_readers, show (unit .one).toNat = 2 ^ 30 by decide]
  have hside : g.side.bit.toNat = g.word.toNat / 2 ^ 60 % 2 := by
    rw [side, IngressWord.bit_ofBit, IngressWord.toNat_shiftRight (n := 60) rfl (by omega)]
  have hcurrent := g.bit_current
  simp only [Layout.value, Tally.value, layout]
  omega

lemma layout_eq_of_value {g : VersionedWord} {l : Layout} (hl : l.Fits)
    (h : g.word.toNat = l.value) : g.layout = l :=
  Layout.eq_of_value g.fits_layout hl (g.value_layout.trans h)

lemma eq_of_layout {g g' : VersionedWord} (h : g.layout = g'.layout) : g = g' := by
  obtain ⟨w⟩ := g
  obtain ⟨w'⟩ := g'
  have hword : w.toNat = w'.toNat := by
    rw [← value_layout ⟨w⟩, ← value_layout ⟨w'⟩, h]
  rw [UInt64.toNat_inj.1 hword]

/-- A word composed of counts that fit has them in its fields, and nothing above. -/
lemma layout_compose {readers : Version → UInt64} (h : ∀ v, (readers v).toNat < 2 ^ 30)
    (side : Side) (current : Version) :
    (compose readers side current).layout = ⟨⟨side, current, fun v => (readers v).toNat⟩, 0⟩ := by
  have hmask (n : UInt64) (hn : n.toNat < 2 ^ 30) : (n &&& counterMask).toNat = n.toNat := by
    rw [UInt64.toNat_and, show counterMask.toNat = 2 ^ 30 - 1 by decide,
      Nat.and_two_pow_sub_one_eq_mod, Nat.mod_eq_of_lt hn]
  have hzero := h .zero
  have hone := h .one
  have hs := IngressWord.bit_toNat_lt side
  have hc := version_bit_lt current
  refine layout_eq_of_value ⟨h, Nat.two_pow_pos 2⟩ ?_
  have hreaders : ((readers .one &&& counterMask) <<< counterBit .one).toNat =
      2 ^ 30 * (readers .one).toNat := by
    rw [IngressWord.toNat_shiftLeft (n := 30) rfl (by omega) (by rw [hmask _ hone]; omega),
      hmask _ hone]
  have hside : (side.bit <<< sideBit).toNat = 2 ^ 60 * side.bit.toNat :=
    IngressWord.toNat_shiftLeft rfl (by omega) (by omega)
  have hcurrent : (current.bit <<< versionBit).toNat = 2 ^ 61 * current.bit.toNat :=
    IngressWord.toNat_shiftLeft rfl (by omega) (by omega)
  -- each part is below the place of the next one, so that no bits overlap
  have hlow : (readers .zero).toNat ||| 2 ^ 30 * (readers .one).toNat =
      2 ^ 30 * (readers .one).toNat + (readers .zero).toNat := by
    rw [Nat.or_comm]
    exact (Nat.two_pow_add_eq_or_of_lt hzero _).symm
  have hmiddle : (2 ^ 30 * (readers .one).toNat + (readers .zero).toNat) |||
      2 ^ 60 * side.bit.toNat =
      2 ^ 60 * side.bit.toNat + (2 ^ 30 * (readers .one).toNat + (readers .zero).toNat) := by
    rw [Nat.or_comm]
    exact (Nat.two_pow_add_eq_or_of_lt (by omega) _).symm
  have hhigh : (2 ^ 60 * side.bit.toNat +
      (2 ^ 30 * (readers .one).toNat + (readers .zero).toNat)) ||| 2 ^ 61 * current.bit.toNat =
      2 ^ 61 * current.bit.toNat + (2 ^ 60 * side.bit.toNat +
        (2 ^ 30 * (readers .one).toNat + (readers .zero).toNat)) := by
    rw [Nat.or_comm]
    exact (Nat.two_pow_add_eq_or_of_lt (by omega) _).symm
  simp only [compose, UInt64.toNat_or, hmask _ hzero, hreaders, hside, hcurrent, hlow, hmiddle,
    hhigh, Layout.value, Tally.value]
  omega

/-- A word without anything above its fields is composed of them. -/
lemma compose_fields {g : VersionedWord} (h : g.word.toNat < 2 ^ 62) :
    compose g.readers g.side g.current = g := by
  refine eq_of_layout ?_
  rw [layout_compose g.fits_layout.1]
  simp only [layout, Nat.div_eq_of_lt h]

/-- Adding to a word gives a layout if it gives the number of this layout. -/
lemma layout_add {g : VersionedWord} {l : Layout} {n : UInt64} (hl : l.Fits)
    (h : l.value = g.layout.value + n.toNat) : layout ⟨g.word + n⟩ = l := by
  have hlt := hl.value_lt
  rw [g.value_layout] at h
  refine layout_eq_of_value hl ?_
  rw [UInt64.toNat_add, Nat.mod_eq_of_lt (by omega), h]

/-- Subtracting from a word gives a layout if it gives the number of this layout. -/
lemma layout_sub {g : VersionedWord} {l : Layout} {n : UInt64} (hl : l.Fits)
    (h : l.value + n.toNat = g.layout.value) : layout ⟨g.word - n⟩ = l := by
  rw [g.value_layout] at h
  refine layout_eq_of_value hl ?_
  rw [UInt64.toNat_sub_of_le _ _ (UInt64.le_iff_toNat_le.2 (by omega)), ← h, Nat.add_sub_cancel]

/-! ### One reader more or less -/

/-- Adding a unit counts a reader of its version and leaves everything else unchanged. -/
lemma layout_add_unit {g : VersionedWord} {v : Version} (h : (g.readers v).toNat + 1 < 2 ^ 30) :
    layout ⟨g.word + unit v⟩ = g.layout.setCount v ((g.readers v).toNat + 1) := by
  refine layout_add (Layout.fits_setCount g.fits_layout v h) ?_
  have hvalue := Layout.value_setCount g.layout v ((g.readers v).toNat + 1)
  have hcount : g.layout.count v = (g.readers v).toNat := rfl
  rw [hcount, Nat.mul_add, Nat.mul_one] at hvalue
  omega

/-- Subtracting a unit removes a reader of its version and leaves everything else unchanged. -/
lemma layout_sub_unit {g : VersionedWord} {v : Version} (h : 0 < (g.readers v).toNat) :
    layout ⟨g.word - unit v⟩ = g.layout.setCount v ((g.readers v).toNat - 1) := by
  have hroom : (g.readers v).toNat < 2 ^ 30 := g.fits_layout.1 v
  refine layout_sub (Layout.fits_setCount g.fits_layout v (by omega)) ?_
  have hvalue := Layout.value_setCount g.layout v ((g.readers v).toNat - 1)
  have hcount : g.layout.count v = (g.readers v).toNat := rfl
  have hsplit : (unit v).toNat * (g.readers v).toNat =
      (unit v).toNat * ((g.readers v).toNat - 1) + (unit v).toNat := by
    rw [← Nat.mul_succ, Nat.succ_eq_add_one, Nat.sub_add_cancel h]
  rw [hcount, hsplit] at hvalue
  omega

/-- The place of the part above the counter of a version. -/
def placeAbove : Version → Nat
  | .zero => 2 ^ 30
  | .one => 2 ^ 60

/-- A unit subtracted from a counter that is zero is borrowed from everything above it, read as one
number: the counter is full afterwards, and what is below it is unchanged. -/
lemma borrow_unit {g : VersionedWord} {v : Version} (h : g.readers v = 0) :
    readers ⟨g.word - unit v⟩ v = counterMask ∧
      (g.word - unit v).toNat / placeAbove v =
        (g.word.toNat / placeAbove v + 2 ^ 64 / placeAbove v - 1) % (2 ^ 64 / placeAbove v) ∧
      (g.word - unit v).toNat % (unit v).toNat = g.word.toNat % (unit v).toNat := by
  have hzero : g.word.toNat / (unit v).toNat % 2 ^ 30 = 0 := by
    rw [← toNat_readers, h, UInt64.toNat_zero]
  have hlt := g.word.toNat_lt
  have hmask : counterMask.toNat = 2 ^ 30 - 1 := by decide
  rw [← UInt64.toNat_inj, toNat_readers, hmask, UInt64.toNat_sub]
  cases v with
  | zero =>
    rw [show (unit .zero).toNat = 1 by decide] at hzero ⊢
    simp only [placeAbove]
    omega
  | one =>
    rw [show (unit .one).toNat = 2 ^ 30 by decide] at hzero ⊢
    simp only [placeAbove]
    omega

/-! ### The side and the version -/

/-- The other side becomes active and nothing else changes. -/
lemma layout_flipSide (g : VersionedWord) :
    g.flipSide.layout = { g.layout with side := g.side.opposite } := by
  have hfits : Layout.Fits { g.layout with side := g.side.opposite } := g.fits_layout
  have hbit : ((1 : UInt64) <<< sideBit).toNat = 2 ^ 60 := by decide
  rw [flipSide]
  cases hs : g.side with
  | left =>
    have hside : g.layout.side = .left := hs
    refine layout_add (hs ▸ hfits) ?_
    simp only [hbit, hside, Layout.value, Tally.value, Side.opposite, Side.bit,
      UInt64.toNat_zero, UInt64.toNat_one]
    omega
  | right =>
    have hside : g.layout.side = .right := hs
    refine layout_sub (hs ▸ hfits) ?_
    simp only [hbit, hside, Layout.value, Tally.value, Side.opposite, Side.bit,
      UInt64.toNat_zero, UInt64.toNat_one]
    omega

/-- The other version becomes current and nothing else changes. -/
lemma layout_flipVersion (g : VersionedWord) :
    (g.flipVersion g.current).layout = { g.layout with current := g.current.next } := by
  have hfits : Layout.Fits { g.layout with current := g.current.next } := g.fits_layout
  have hbit : ((1 : UInt64) <<< versionBit).toNat = 2 ^ 61 := by decide
  cases hc : g.current with
  | zero =>
    have hcurrent : g.layout.current = .zero := hc
    refine layout_add (hc ▸ hfits) ?_
    simp only [hbit, hcurrent, Layout.value, Tally.value, Version.next, Version.bit,
      UInt64.toNat_zero, UInt64.toNat_one]
    omega
  | one =>
    have hcurrent : g.layout.current = .one := hc
    refine layout_sub (hc ▸ hfits) ?_
    simp only [hbit, hcurrent, Layout.value, Tally.value, Version.next, Version.bit,
      UInt64.toNat_zero, UInt64.toNat_one]
    omega

end VersionedWord

/-! ## Both words -/

/-- Arithmetic on a packed word is arithmetic on one of its fields.

Without versions: packing and unpacking are inverse to each other, on fields that fit and on words
without anything above the side; and one arrival or departure more, or one departure less, is the
word of the fields with this count alone changed, however large the other counts are.

With versions: the fields of a composed word are those it is composed of, and a word without
anything above the version is composed of its fields. Adding or subtracting a unit changes the
counter of its version only, and each turn changes its own bit only, for all words: the layout
includes what is above the fields. A departure from a version without readers borrows through
everything above the counter, and adding the unit back restores the word. -/
theorem packed_fields_independent :
    (∀ f : IngressWord.Fields, f.counts.Fits → IngressWord.Fields.unpack f.pack = f) ∧
    (∀ w : UInt64, w.toNat < 2 ^ 61 → (IngressWord.Fields.unpack w).pack = w) ∧
    (∀ f : IngressWord.Fields, f.ingress.toNat < 2 ^ 20 - 1 →
      f.pack + 1 = IngressWord.Fields.pack { f with ingress := f.ingress + 1 }) ∧
    (∀ (f : IngressWord.Fields) (s : Side), (f.egress s).toNat < 2 ^ 20 - 1 →
      f.pack + IngressWord.egressUnit s = (f.setEgress s (f.egress s + 1)).pack) ∧
    (∀ (f : IngressWord.Fields) (s : Side),
      0 < (f.egress s).toNat → (f.egress s).toNat < 2 ^ 20 →
      f.pack - IngressWord.egressUnit s = (f.setEgress s (f.egress s - 1)).pack) ∧
    (∀ (readers : Version → UInt64) (side : Side) (current : Version),
      (∀ v, (readers v).toNat < 2 ^ 30) →
      let g := VersionedWord.compose readers side current
      g.readers = readers ∧ g.side = side ∧ g.current = current) ∧
    (∀ g : VersionedWord, g.word.toNat < 2 ^ 62 →
      VersionedWord.compose g.readers g.side g.current = g) ∧
    (∀ g : VersionedWord, g.layout.value = g.word.toNat) ∧
    (∀ (g : VersionedWord) (v : Version), (g.readers v).toNat < 2 ^ 30 - 1 →
      VersionedWord.layout ⟨g.word + VersionedWord.unit v⟩ =
        g.layout.setCount v ((g.readers v).toNat + 1)) ∧
    (∀ (g : VersionedWord) (v : Version), 0 < (g.readers v).toNat →
      g.depart v = (.ok (), ⟨g.word - VersionedWord.unit v⟩) ∧
      VersionedWord.layout ⟨g.word - VersionedWord.unit v⟩ =
        g.layout.setCount v ((g.readers v).toNat - 1)) ∧
    (∀ g : VersionedWord, g.flipSide.layout = { g.layout with side := g.side.opposite }) ∧
    (∀ g : VersionedWord,
      (g.flipVersion g.current).layout = { g.layout with current := g.current.next }) ∧
    ∀ (g : VersionedWord) (v : Version), g.readers v = 0 →
      (VersionedWord.readers ⟨g.word - VersionedWord.unit v⟩ v = VersionedWord.counterMask ∧
        (g.word - VersionedWord.unit v).toNat / VersionedWord.placeAbove v =
          (g.word.toNat / VersionedWord.placeAbove v + 2 ^ 64 / VersionedWord.placeAbove v - 1) %
            (2 ^ 64 / VersionedWord.placeAbove v) ∧
        (g.word - VersionedWord.unit v).toNat % (VersionedWord.unit v).toNat =
          g.word.toNat % (VersionedWord.unit v).toNat) ∧
      g.word - VersionedWord.unit v + VersionedWord.unit v = g.word ∧
      g.depart v = (.error .unmatchedDeparture, g) := by
  refine ⟨fun _ => IngressWord.Fields.unpack_pack, fun _ => IngressWord.Fields.pack_unpack,
    fun _ h => IngressWord.Fields.pack_add_one (by omega),
    fun _ _ h => IngressWord.Fields.pack_add_egressUnit (by omega),
    fun _ _ => IngressWord.Fields.pack_sub_egressUnit, ?_,
    fun _ => VersionedWord.compose_fields, VersionedWord.value_layout,
    fun _ _ h => VersionedWord.layout_add_unit (by omega), ?_, VersionedWord.layout_flipSide,
    VersionedWord.layout_flipVersion, ?_⟩
  · intro readers side current hfits g
    have hlayout := VersionedWord.layout_compose hfits side current
    refine ⟨funext fun v => UInt64.toNat_inj.1 ?_, ?_, ?_⟩
    · exact congrArg (fun l => l.count v) hlayout
    · exact congrArg (fun l => l.side) hlayout
    · exact congrArg (fun l => l.current) hlayout
  · intro g v hreader
    refine ⟨?_, VersionedWord.layout_sub_unit hreader⟩
    have hne : g.readers v ≠ 0 := fun h0 => Nat.ne_of_gt hreader (congrArg UInt64.toNat h0)
    rw [VersionedWord.depart, if_neg hne]
  · intro g v hnone
    exact ⟨VersionedWord.borrow_unit hnone, UInt64.sub_add_cancel _ _,
      VersionedWord.depart_of_readers_eq_zero hnone⟩

/-- Fields next to full and empty ones: nothing is carried or borrowed. The last word has no reader
of the first version, and its borrow goes up to the top. -/
theorem packed_fields_independent_beside_limits :
    let f : IngressWord.Fields := ⟨.right, 0xffffe, 0xffffe, 1⟩
    let readers : Version → UInt64 := fun | .zero => 0x3ffffffe | .one => 1
    let g := VersionedWord.compose readers .right .zero
    let idle : VersionedWord := ⟨0xc000000000000000⟩
    IngressWord.Fields.unpack f.pack = f ∧
    (IngressWord.Fields.unpack 0x1fffffffffffffff).pack = 0x1fffffffffffffff ∧
    f.pack + 1 = IngressWord.Fields.pack { f with ingress := 0xfffff } ∧
    f.pack + IngressWord.egressUnit .left =
      IngressWord.Fields.pack { f with egressLeft := 0xfffff } ∧
    f.pack - IngressWord.egressUnit .right = (f.setEgress .right 0).pack ∧
    g.readers = readers ∧
    VersionedWord.compose g.readers g.side g.current = g ∧
    VersionedWord.layout ⟨g.word + VersionedWord.unit .zero⟩ =
      g.layout.setCount .zero ((g.readers .zero).toNat + 1) ∧
    VersionedWord.layout ⟨g.word - VersionedWord.unit .one⟩ =
      g.layout.setCount .one ((g.readers .one).toNat - 1) ∧
    idle.word - VersionedWord.unit .zero = 0xbfffffffffffffff ∧
    idle.depart .zero = (.error .unmatchedDeparture, idle) := by
  intro f readers g idle
  obtain ⟨hunpack, hpack, hingress, hegress, hback, hfields, hcompose, -, hadd, hsub, -, -,
    hidle⟩ :=
    packed_fields_independent
  have hreaders : ∀ v, (readers v).toNat < 2 ^ 30 := fun | .zero => by decide | .one => by decide
  have hlast : f.egress .right - 1 = 0 := by decide
  exact ⟨hunpack f ⟨by decide, by decide, by decide⟩, hpack _ (by decide), hingress f (by decide),
    hegress f .left (by decide), hlast ▸ hback f .right (by decide) (by decide),
    (hfields readers .right .zero hreaders).1, hcompose g (by decide), hadd g .zero (by decide),
    (hsub g .one (by decide)).2, by decide, (hidle idle .zero (by decide)).2.2⟩

end TwinCopy
