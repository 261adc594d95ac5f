import TwinCopy.Proofs.GateInvariant
import TwinCopy.Proofs.PackedVersions
import TwinCopy.Proofs.Tracking
import TwinCopy.Proofs.Versions

/-!
# The readers inside each gate

Two read-indicators that count, a word with versions, and a word without versions: each of these
gates knows the readers inside, within a limit of its own. A counter of readers in flight must not
wrap, nor a counter of arrivals; a word with versions has thirty bits for the readers of a version;
a word without versions admits `2 ^ 19` readers at once, and any number in all.
-/

namespace TwinCopy

/-! ## Two read-indicators -/

namespace Indicator

/-- The kind of a read-indicator. -/
def kind : Indicator → IndicatorKind
  | single _ => .single
  | paired _ => .paired
  | hashed _ => .hashed
  | flagged _ => .flagged
  | watched _ => .watched

lemma kind_ofConfig (kind : IndicatorKind) (c : Config) : (ofConfig kind c).kind = kind := by
  cases kind <;> rfl

lemma kind_arrive {i j : Indicator} {slot : Nat} (h : i.arrive slot = .ok j) : j.kind = i.kind := by
  cases i with
  | single | paired | hashed =>
    cases h
    rfl
  | flagged f | watched f =>
    simp only [arrive] at h
    rcases hf : f.arrive slot with m | f' <;> rw [hf] at h <;> cases h
    rfl

lemma kind_depart (i : Indicator) (slot : Nat) : (i.depart slot).2.kind = i.kind := by
  cases i <;> rfl

/-- A counter of readers in flight depends on these readers only. -/
lemma Holds.tighten {i : Indicator} {inside : List Nat} {arrivals : Nat}
    (h : i.Holds inside arrivals) (hkind : i.kind ≠ .paired) : i.Holds inside inside.length := by
  cases i with
  | single c => exact ⟨h.1, List.countP_le_length⟩
  | paired c => exact absurd rfl hkind
  | hashed c => exact ⟨h.1, fun b count hb => ⟨(h.2 b count hb).1, List.countP_le_length⟩⟩
  | flagged f | watched f => exact h

end Indicator

/-- What a counter must be able to hold, given the readers in flight and the arrivals. -/
def IndicatorKind.load (kind : IndicatorKind) (inFlight arrivals : Nat) : Nat :=
  match kind with
  | .paired => arrivals
  | _ => inFlight

namespace Versioned

/-- The condition on the versions in each phase. -/
def Awaits (g : Versioned) : Option (Phase Version) → Prop
  | none => g.Clean
  | some (.standby d) => g.Clean ∧ d = g.current
  | some (.clearing d) => d = g.current.next

lemma Awaits.sameVersions {g g' : Versioned} {p : Option (Phase Version)} (h : g.Awaits p)
    (hversions : g.SameVersions g') : g'.Awaits p := by
  rcases p with _ | d | d
  · exact hversions.clean h
  · exact ⟨hversions.clean h.1, h.2.trans hversions.current.symm⟩
  · exact Eq.trans h (congrArg Version.next hversions.current.symm)

/-- The readers with slots in place of indices; the issuers do not matter. -/
def withSlots (readers : List (Nat × Version)) : List (Slot × Version) :=
  readers.map fun r => (⟨0, r.1⟩, r.2)

/-- Both read-indicators are of this kind and count exactly the readers inside. -/
structure Knows (kind : IndicatorKind) (g : Versioned) (p : Option (Phase Version))
    (readers : List (Nat × Version)) (arrivals : Nat) : Prop where
  sort : ∀ v, (g.readers v).kind = kind
  tallies : g.Tallies (withSlots readers) (kind.load readers.length arrivals)
  room : kind.load readers.length arrivals < 2 ^ 64
  awaits : g.Awaits p

lemma knows_ofConfig {kind : IndicatorKind} (hkind : kind.Counting) (c : Config) :
    (ofConfig kind c).Knows kind none [] 0 where
  sort v := by
    have hreaders : (ofConfig kind c).readers v = .ofConfig kind c := by cases v <;> rfl
    rw [hreaders, Indicator.kind_ofConfig]
  tallies := by
    have hload : kind.load (List.length ([] : List (Nat × Version))) 0 = 0 := by cases kind <;> rfl
    rw [hload]
    exact tallies_ofConfig hkind c
  room := by cases kind <;> exact Nat.two_pow_pos 64
  awaits := clean_ofConfig kind c

variable {kind : IndicatorKind} {g g' : Versioned} {p : Option (Phase Version)}
  {readers : List (Nat × Version)} {arrivals : Nat}

lemma Tallies.mono {readers : List (Slot × Version)} {n : Nat} (h : g.Tallies readers arrivals)
    (hn : arrivals ≤ n) : g.Tallies readers n :=
  fun v => (h v).mono hn

/-- Where readers in flight are counted, the number of arrivals does not matter. -/
lemma Tallies.tighten {readers : List (Slot × Version)} (h : g.Tallies readers arrivals)
    (hkind : ∀ v, (g.readers v).kind ≠ .paired) : g.Tallies readers readers.length := by
  intro v
  have hle : (among readers v).length ≤ readers.length := by
    rw [among, List.length_map]
    exact List.length_filter_le _ _
  exact ((h v).tighten (hkind v)).mono hle

lemma mem_withSlots (readers : List (Nat × Version)) (v : Version) :
    among (withSlots readers) v = [] ↔ v ∉ readers.map Prod.snd := by
  rw [among, List.map_eq_nil_iff, List.filter_eq_nil_iff, withSlots, List.forall_mem_map,
    List.mem_map]
  simp only [decide_eq_true_eq, not_exists, not_and]

lemma kind_of_arrive {index : Nat} {v : Version} (h : Gate.arrive g index = .ok (v, g'))
    (hkind : ∀ w, (g.readers w).kind = kind) (w : Version) : (g'.readers w).kind = kind := by
  obtain ⟨i, hi, -, rfl⟩ := of_arrive h
  by_cases hw : w = g.current
  · subst hw
    rw [readers_setReaders_same, Indicator.kind_arrive hi, hkind]
  · rw [readers_setReaders_of_ne _ _ hw, hkind]

lemma kind_of_depart {index : Nat} {v : Version} (hkind : ∀ w, (g.readers w).kind = kind)
    (w : Version) : ((Gate.depart g index v).2.readers w).kind = kind := by
  rw [depart_state]
  by_cases hw : w = v
  · subst hw
    rw [readers_setReaders_same, Indicator.kind_depart, hkind]
  · rw [readers_setReaders_of_ne _ _ hw, hkind]

namespace Knows

lemma arrive (h : g.Knows kind p readers arrivals) {index : Nat} {v : Version}
    (harrive : Gate.arrive g index = .ok (v, g'))
    (hroom : kind.load (readers.length + 1) (arrivals + 1) < 2 ^ 64) :
    g'.Knows kind p ((index, v) :: readers) (arrivals + 1) := by
  have hload : kind.load (readers.length + 1) (arrivals + 1) =
      kind.load readers.length arrivals + 1 := by cases kind <;> rfl
  obtain ⟨g'', harrive', htallies⟩ := h.tallies.arrive (hload ▸ hroom) ⟨0, index⟩
  rw [harrive] at harrive'
  cases harrive'
  refine ⟨kind_of_arrive harrive h.sort, ?_, hroom,
    h.awaits.sameVersions (sameVersions_arrive harrive)⟩
  rw [List.length_cons, hload]
  exact htallies

lemma depart {index : Nat} {v : Version} (h : g.Knows kind p ((index, v) :: readers) arrivals) :
    (Gate.depart g index v).1 = .ok [] ∧
      (Gate.depart g index v).2.Knows kind p readers arrivals := by
  have hcounted : g.Tallies ((⟨0, index⟩, v) :: withSlots readers) _ := h.tallies
  obtain ⟨g', hdepart, htallies⟩ := hcounted.depart h.room
  have hle : kind.load readers.length arrivals ≤ kind.load (readers.length + 1) arrivals := by
    cases kind with
    | paired => exact Nat.le_refl _
    | _ => exact Nat.le_succ _
  have hkind : ∀ w, (g'.readers w).kind = kind := fun w => by
    have hdeparted : ((Gate.depart g index v).2.readers w).kind = kind := kind_of_depart h.sort w
    rwa [hdepart] at hdeparted
  have hversions := g.sameVersions_depart index v
  rw [hdepart] at hversions ⊢
  refine ⟨rfl, hkind, ?_, Nat.lt_of_le_of_lt hle h.room, h.awaits.sameVersions hversions⟩
  by_cases hpaired : kind = .paired
  · subst hpaired
    exact htallies
  · have hload : kind.load readers.length arrivals = (withSlots readers).length := by
      rw [withSlots, List.length_map]
      cases kind <;> first | rfl | exact absurd rfl hpaired
    rw [hload]
    exact htallies.tighten fun w => by rw [hkind]; exact hpaired

end Knows

/-- The readers in flight fit a counter, or all arrivals where these are counted. -/
def Limit (kind : IndicatorKind) (tickets : List Version) (arrivals : Nat) : Prop :=
  kind.load tickets.length arrivals < 2 ^ 64

instance (kind : IndicatorKind) (tickets : List Version) (arrivals : Nat) :
    Decidable (Limit kind tickets arrivals) :=
  inferInstanceAs (Decidable (_ < _))

/-- No counter overflows if there are fewer arrivals than it can hold. -/
lemma within_of_arrivals {α ρ : Type} (kind : IndicatorKind)
    {h : History Versioned Version Version α ρ} (harrivals : h.arrivals < 2 ^ 64) :
    h.Within (Limit kind) := by
  refine (History.Within.of_arrivals harrivals).mono fun tickets n hn => ?_
  have hload : kind.load tickets.length n ≤ n := by
    cases kind with
    | paired => exact Nat.le_refl n
    | _ => exact hn.1
  exact Nat.lt_of_le_of_lt hload hn.2

/-- When the readers that a writer waits for are gone, the other version has no reader. -/
lemma Awaits.clear {d : Version} (h : g.Awaits (some (.clearing d)))
    (hcleared : Gate.cleared g d = .ok true) : g.Clean := by
  obtain rfl : d = g.current.next := h
  exact Except.ok.inj hcleared

lemma Awaits.current_ne {d : Version} (h : g.Awaits (some (.clearing d))) : g.current ≠ d := by
  obtain rfl : d = g.current.next := h
  exact Ne.symm (next_ne _)

/-- Two read-indicators of any kind satisfy `GateInv`, whether or not they count exactly. -/
theorem gateInv : GateInv current id (fun _ _ => True) fun g p _ _ => g.Awaits p where
  limit_perm _ _ := trivial
  perm _ h := h
  mono h _ := h
  ticket _ harrive := ticket_of_arrive harrive
  arrive h harrive _ :=
    ⟨h.sameVersions (sameVersions_arrive harrive), (sameVersions_arrive harrive).side,
      (sameVersions_arrive harrive).current⟩
  depart {g p readers n index ticket} h :=
    have hversions := g.sameVersions_depart index ticket
    ⟨h.sameVersions hversions, hversions.side, hversions.current⟩
  turn h := ⟨⟨h, rfl⟩, rfl, rfl⟩
  shift {g d readers n} h _ := by
    obtain ⟨-, rfl⟩ := h
    exact ⟨(Version.next_next _).symm, rfl⟩
  clear h hcleared := h.clear hcleared
  sound _ := nofun
  current_ne h := h.current_ne

/-- Two read-indicators that count know the readers inside. -/
theorem exactGateInv (kind : IndicatorKind) :
    ExactGateInv current id (Limit kind) (Knows kind) where
  limit_perm hperm h := by
    rw [Limit, ← hperm.length_eq]
    exact h
  perm hperm h := by
    refine ⟨h.sort, ?_, ?_, h.awaits⟩
    · rw [← hperm.length_eq]
      exact h.tallies.perm (hperm.map _)
    · rw [← hperm.length_eq]
      exact h.room
  mono {g p readers n tickets} h hlimit := by
    cases kind with
    | paired => exact ⟨h.sort, h.tallies.mono (Nat.le_succ _), hlimit, h.awaits⟩
    | _ => exact ⟨h.sort, h.tallies, h.room, h.awaits⟩
  ticket _ harrive := ticket_of_arrive harrive
  arrive h harrive hlimit := by
    rw [Limit, List.length_cons, List.length_map] at hlimit
    exact ⟨h.arrive harrive hlimit, (sameVersions_arrive harrive).side,
      (sameVersions_arrive harrive).current⟩
  depart {g p readers n index ticket} h :=
    have hversions := g.sameVersions_depart index ticket
    ⟨h.depart.2, hversions.side, hversions.current⟩
  turn h := ⟨⟨h.sort, h.tallies, h.room, h.awaits, rfl⟩, rfl, rfl⟩
  shift {g d readers n} h _ := by
    obtain ⟨-, rfl⟩ := h.awaits
    exact ⟨⟨h.sort, h.tallies, h.room, (Version.next_next _).symm⟩, rfl⟩
  clear h hcleared := ⟨h.sort, h.tallies, h.room, h.awaits.clear hcleared⟩
  sound _ := nofun
  current_ne h := h.awaits.current_ne
  admits {g p readers n} h index := by
    obtain ⟨i, hi⟩ : ∃ i, (g.readers g.current).arrive index = .ok i := by
      have hcounts := h.tallies g.current
      -- flags do not count, so the last two cases do not occur
      rcases hreaders : g.readers g.current with c | c | c | f | f
      · exact ⟨_, rfl⟩
      · exact ⟨_, rfl⟩
      · exact ⟨_, rfl⟩
      · rw [hreaders] at hcounts
        exact hcounts.elim
      · rw [hreaders] at hcounts
        exact hcounts.elim
    refine ⟨g.setReaders g.current i, ?_⟩
    change g.arrive index = _
    rw [Versioned.arrive, hi]
  departs h := ⟨[], h.depart.1⟩
  standby {g d readers n} h := by
    obtain ⟨hclean, rfl⟩ := h.awaits
    exact hclean
  cleared {g d readers n} h := by
    refine congrArg Except.ok ?_
    rw [Bool.eq_iff_iff, (h.tallies d).isEmpty_iff, mem_withSlots, decide_eq_true_iff]
    rfl
  ticket_eq {g readers n} h r hr :=
    h.tallies.ticket_eq (r := (⟨0, r.1⟩, r.2)) h.awaits (List.mem_map_of_mem hr)

end Versioned

/-! ## One word, with versions -/

namespace VersionedWord

/-- The number of readers of a version. -/
def counts (readers : List (Nat × Version)) (v : Version) : Nat :=
  (readers.map Prod.snd).count v

/-- The condition on the counts in each phase. -/
def Awaits (current : Version) (count : Version → Nat) : Option (Phase Version) → Prop
  | none => count current.next = 0
  | some (.standby d) => count current.next = 0 ∧ d = current
  | some (.clearing d) => d = current.next

lemma Awaits.of_next {current : Version} {count count' : Version → Nat}
    {p : Option (Phase Version)} (h : Awaits current count p)
    (hcount : count current.next = 0 → count' current.next = 0) : Awaits current count' p := by
  rcases p with _ | d | d
  · exact hcount h
  · exact ⟨hcount h.1, h.2⟩
  · exact h

/-- The word counts exactly the readers inside. -/
structure Knows (g : VersionedWord) (p : Option (Phase Version)) (readers : List (Nat × Version))
    (_arrivals : Nat) : Prop where
  keeps : g.Keeps ⟨g.side, g.current, counts readers⟩
  awaits : Awaits g.current (counts readers) p

lemma knows_fresh : fresh.Knows none [] 0 where
  keeps := by
    have hcounts : counts [] = RefGate.fresh.tally.count := rfl
    rw [hcounts, keeps_fresh.side_eq, keeps_fresh.current_eq]
    exact keeps_fresh
  awaits := rfl

/-- The readers of a version fit thirty bits. -/
def Limit (tickets : List Version) (_arrivals : Nat) : Prop :=
  tickets.count .zero < 2 ^ 30 ∧ tickets.count .one < 2 ^ 30

instance (tickets : List Version) (arrivals : Nat) : Decidable (Limit tickets arrivals) :=
  inferInstanceAs (Decidable (_ ∧ _))

lemma Limit.count_lt {tickets : List Version} {arrivals : Nat} (h : Limit tickets arrivals)
    (v : Version) : tickets.count v < 2 ^ 30 := by
  cases v with
  | zero => exact h.1
  | one => exact h.2

variable {g : VersionedWord} {p : Option (Phase Version)} {readers : List (Nat × Version)}
  {arrivals index : Nat} {v : Version}

lemma counts_cons (readers : List (Nat × Version)) (index : Nat) (v : Version) :
    counts ((index, v) :: readers) = Function.update (counts readers) v (counts readers v + 1) := by
  funext w
  by_cases hw : w = v
  · subst hw
    rw [Function.update_self, counts, List.map_cons, List.count_cons_self]
    rfl
  · rw [Function.update_of_ne hw, counts, List.map_cons, List.count_cons_of_ne (Ne.symm hw)]
    rfl

/-- The counts are independent of the side and the version in the word. -/
lemma Knows.of_keeps {side : Side} {current : Version}
    (hkeeps : g.Keeps ⟨side, current, counts readers⟩)
    (hawaits : Awaits current (counts readers) p) :
    g.Knows p readers arrivals ∧ g.side = side ∧ g.current = current := by
  obtain rfl : g.side = side := hkeeps.side_eq
  obtain rfl : g.current = current := hkeeps.current_eq
  exact ⟨⟨hkeeps, hawaits⟩, rfl, rfl⟩

lemma Knows.arrive (h : g.Knows p readers arrivals)
    (hlimit : Limit (g.current :: readers.map Prod.snd) (arrivals + 1)) :
    g.arrive.2.Knows p ((index, g.current) :: readers) (arrivals + 1) ∧
      g.arrive.2.side = g.side ∧ g.arrive.2.current = g.current := by
  have hroom := hlimit.count_lt g.current
  rw [List.count_cons_self] at hroom
  refine Knows.of_keeps ?_ (h.awaits.of_next fun hnone => ?_)
  · rw [counts_cons]
    exact h.keeps.arrive hroom
  · rw [counts_cons, Function.update_of_ne (Versioned.next_ne _)]
    exact hnone

lemma Knows.depart (h : g.Knows p ((index, v) :: readers) arrivals) :
    g.depart v = (.ok (), ⟨g.word - unit v⟩) ∧
      Knows ⟨g.word - unit v⟩ p readers arrivals ∧ side ⟨g.word - unit v⟩ = g.side ∧
      current ⟨g.word - unit v⟩ = g.current := by
  have hcount : counts ((index, v) :: readers) v = counts readers v + 1 := by
    rw [counts_cons, Function.update_self]
  have hne : counts ((index, v) :: readers) v ≠ 0 := by omega
  have hleft : Function.update (counts ((index, v) :: readers)) v
      (counts ((index, v) :: readers) v - 1) = counts readers := by
    rw [hcount, Nat.add_sub_cancel, counts_cons, Function.update_idem, Function.update_eq_self]
  refine ⟨?_, Knows.of_keeps ?_ (h.awaits.of_next fun hnone => ?_)⟩
  · rw [VersionedWord.depart, if_neg (mt (h.keeps.readers_eq_zero_iff v).1 hne)]
  · rw [← hleft]
    exact h.keeps.depart hne
  · rw [← hleft]
    by_cases hv : g.current.next = v
    · rw [hv] at hnone
      rw [hv, Function.update_self, hnone]
    · rw [Function.update_of_ne hv]
      exact hnone

/-- A word with versions knows the readers inside. -/
theorem exactGateInv : ExactGateInv current id Limit Knows where
  limit_perm hperm h := by
    rw [Limit, ← hperm.count_eq, ← hperm.count_eq]
    exact h
  perm hperm h := by
    have hcounts : ∀ {readers readers' : List (Nat × Version)}, readers.Perm readers' →
        counts readers' = counts readers := fun hperm =>
      funext fun v => ((hperm.map Prod.snd).count_eq v).symm
    refine ⟨?_, ?_⟩
    · rw [hcounts hperm]
      exact h.keeps
    · rw [hcounts hperm]
      exact h.awaits
  mono h _ := ⟨h.keeps, h.awaits⟩
  ticket _ harrive := (Prod.mk.inj (Except.ok.inj harrive)).1.symm
  arrive {g g' p readers n index ticket} h harrive hlimit := by
    obtain ⟨rfl, rfl⟩ := Prod.mk.inj (Except.ok.inj harrive)
    exact h.arrive hlimit
  depart {g p readers n index ticket} h := by
    have hgate : Gate.depart g index ticket = (g.depart ticket).map (·.map fun _ => []) id := rfl
    rw [hgate, h.depart.1]
    exact h.depart.2
  turn {g readers n} h := by
    have hwaits : Awaits g.current (counts readers) (some (.standby g.current)) := ⟨h.awaits, rfl⟩
    obtain ⟨hknows, hside, -⟩ := Knows.of_keeps h.keeps.flipSide hwaits
    exact ⟨hknows, rfl, hside⟩
  shift {g d readers n} h _ := by
    obtain ⟨-, rfl⟩ := h.awaits
    have hwaits : Awaits g.current.next (counts readers) (some (.clearing g.current)) :=
      (Version.next_next _).symm
    obtain ⟨hknows, hside, -⟩ := Knows.of_keeps h.keeps.flipVersion hwaits
    exact ⟨hknows, hside⟩
  clear {g d readers n} h hcleared := by
    obtain rfl : d = g.current.next := h.awaits
    refine ⟨h.keeps, (h.keeps.readers_eq_zero_iff _).1 ?_⟩
    simpa using Except.ok.inj hcleared
  sound _ := nofun
  current_ne {g d readers n} h := by
    obtain rfl : d = g.current.next := h.awaits
    exact Ne.symm (Versioned.next_ne _)
  admits {g p readers n} _ _ := ⟨g.arrive.2, rfl⟩
  departs {g p readers n index ticket} h := by
    have hgate : Gate.depart g index ticket = (g.depart ticket).map (·.map fun _ => []) id := rfl
    rw [hgate, h.depart.1]
    exact ⟨[], rfl⟩
  standby {g d readers n} h := by
    obtain ⟨hnone, rfl⟩ := h.awaits
    change (g.readers g.current.next == 0) = true
    rw [h.keeps.isEmpty, decide_eq_true_iff]
    exact hnone
  cleared {g d readers n} h := by
    refine congrArg Except.ok ((h.keeps.isEmpty d).trans ?_)
    rw [decide_eq_decide]
    exact List.count_eq_zero
  ticket_eq {g readers n} h r hr := by
    have hnone : g.current.next ∉ readers.map Prod.snd := List.count_eq_zero.1 h.awaits
    have hne : r.2 ≠ g.current.next := fun heq => hnone (heq ▸ List.mem_map_of_mem hr)
    revert hne
    cases r.2 <;> cases g.current <;> simp [Version.next]

end VersionedWord

/-! ## One word, without versions -/

namespace IngressWord

/-- The backlog in each phase. -/
def backlog? : Option (Phase Backlog) → Option Backlog
  | none => none
  | some (.standby b) | some (.clearing b) => some b

/-- The counts of the word agree with the readers inside, which are within the limit. -/
structure Knows (g : IngressWord) (p : Option (Phase Backlog)) (readers : List (Nat × Side))
    (_arrivals : Nat) : Prop where
  countsExact : g.CountsExact (readers.map Prod.snd) (backlog? p)
  room : readers.length ≤ 2 ^ 19

lemma knows_fresh : fresh.Knows none [] 0 :=
  ⟨.fresh, Nat.zero_le _⟩

/-- The number of readers inside at one time is bounded. -/
def Limit (tickets : List Side) (_arrivals : Nat) : Prop :=
  tickets.length ≤ 2 ^ 19

instance (tickets : List Side) (arrivals : Nat) : Decidable (Limit tickets arrivals) :=
  inferInstanceAs (Decidable (_ ≤ _))

/-- A word without versions knows the readers inside, though not the readers that have departed. -/
theorem exactGateInv : ExactGateInv side Backlog.side Limit Knows where
  limit_perm hperm h := by
    rw [Limit, ← hperm.length_eq]
    exact h
  perm hperm h := ⟨h.countsExact.perm (hperm.map _), hperm.length_eq ▸ h.room⟩
  mono h _ := ⟨h.countsExact, h.room⟩
  ticket _ harrive := (Prod.mk.inj (Except.ok.inj harrive)).1.symm
  arrive {g g' p readers n index ticket} h harrive hlimit := by
    obtain ⟨rfl, rfl⟩ := Prod.mk.inj (Except.ok.inj harrive)
    rw [Limit, List.length_cons, List.length_map] at hlimit
    obtain ⟨hcountsExact, hside⟩ := h.countsExact.arrive (by rwa [List.length_map])
    exact ⟨⟨hcountsExact, hlimit⟩, hside, hside⟩
  depart {g p readers n index ticket} h := by
    obtain ⟨-, hcountsExact, hside⟩ := CountsExact.depart h.countsExact
    exact ⟨⟨hcountsExact, Nat.le_of_succ_le h.room⟩, hside, hside⟩
  turn {g readers n} h := by
    obtain ⟨hcountsExact, hold, hside⟩ := h.countsExact.turn (by rw [List.length_map]; exact h.room)
    exact ⟨⟨hcountsExact, h.room⟩, hold, hside⟩
  shift h _ := ⟨⟨h.countsExact, h.room⟩, rfl⟩
  clear {g d readers n} h hcleared := by
    have hgone := h.countsExact.cleared.1.symm.trans hcleared
    exact ⟨h.countsExact.rest (of_decide_eq_true (Except.ok.inj hgone)), h.room⟩
  sound {g d readers n m} h hcleared := by
    cases h.countsExact.cleared.1.symm.trans hcleared
  current_ne {g d readers n} h := by
    rw [h.countsExact.cleared.2]
    exact Ne.symm (Side.opposite_ne _)
  admits {g p readers n} _ _ := ⟨g.arrive.2, rfl⟩
  departs {g p readers n index ticket} h := by
    obtain ⟨⟨events, hevents, -⟩, -⟩ := CountsExact.depart h.countsExact
    exact ⟨events, hevents⟩
  standby _ := rfl
  cleared h := h.countsExact.cleared.1
  ticket_eq {g readers n} h r hr := by
    have hnone : g.side.opposite ∉ readers.map Prod.snd := h.countsExact.inactive
    have hne : r.2 ≠ g.side.opposite := fun heq => hnone (heq ▸ List.mem_map_of_mem hr)
    exact (Side.eq_or_eq_opposite r.2 g.side).resolve_right hne

end IngressWord

end TwinCopy
