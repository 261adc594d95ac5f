import Mathlib.Data.List.Count
import TwinCopy.Proofs.Crossings
import TwinCopy.Proofs.Packing

/-!
# Counts and the readers in flight

A gate in one word without versions counts arrivals and departures in fields of twenty bits.
`Tracks` relates the counts to the readers in flight: on the active side the difference of arrivals
and departures is their number, and there are less than `2 ^ 19` departures, because a departure
that finds more arrivals reduces both counts. So the arrivals fit their field as long as no more
than `2 ^ 19` readers are in flight at once. On the other side the departures and the readers in
flight add up to the readers that were there at the turn.

`History.counts` are the counts of a history as numbers without overflow, and `Crossed.keeps` and
`pass_keeps` prove that the word contains them.
-/

namespace TwinCopy

namespace IngressWord

namespace Counts

/-- On the active side the difference of arrivals and departures is the number of readers in flight,
and there are less than `2 ^ 19` departures. -/
structure ActiveExact (c : Counts) (sides : List Side) : Prop where
  active : c.ingress = c.egress c.side + sides.count c.side
  low : c.egress c.side < 2 ^ 19

/-- The counts agree with the sides of the readers in flight. -/
structure Tracks (c : Counts) (sides : List Side) : Prop extends c.ActiveExact sides where
  inactive : c.egress c.side.opposite + sides.count c.side.opposite ≤ 2 ^ 19

variable {c : Counts} {sides : List Side} {s : Side}

/-- The counts of a fresh word. -/
lemma tracks_nil : Tracks ⟨.left, 0, 0, 0⟩ [] :=
  ⟨⟨rfl, Nat.two_pow_pos 19⟩, Nat.zero_le _⟩

lemma ActiveExact.perm {others : List Side} (h : c.ActiveExact sides) (hperm : sides.Perm others) :
    c.ActiveExact others :=
  ⟨by rw [← hperm.count_eq]; exact h.active, h.low⟩

lemma Tracks.perm {others : List Side} (h : c.Tracks sides) (hperm : sides.Perm others) :
    c.Tracks others :=
  ⟨h.toActiveExact.perm hperm, by rw [← hperm.count_eq]; exact h.inactive⟩

/-- An arrival is on the active side. -/
lemma ActiveExact.arrive (h : c.ActiveExact sides) : c.arrive.ActiveExact (c.side :: sides) := by
  have hside : c.arrive.side = c.side := rfl
  have hingress : c.arrive.ingress = c.ingress + 1 := rfl
  have hactive := h.active
  refine ⟨?_, ?_⟩
  · rw [hside, hingress, egress_arrive, List.count_cons_self]
    omega
  · rw [hside, egress_arrive]
    exact h.low

lemma Tracks.arrive (h : c.Tracks sides) : c.arrive.Tracks (c.side :: sides) := by
  have hside : c.arrive.side = c.side := rfl
  refine ⟨h.toActiveExact.arrive, ?_⟩
  rw [hside, egress_arrive, List.count_cons_of_ne (Ne.symm (Side.opposite_ne _))]
  exact h.inactive

/-- The field of arrivals has room for one more as long as the readers in flight are within the
limit. -/
lemma ActiveExact.room (h : c.ActiveExact sides) (hlength : sides.length + 1 ≤ 2 ^ 19) :
    c.ingress + 1 < 2 ^ 20 := by
  have hactive := h.active
  have hlow := h.low
  have hcount : sides.count c.side ≤ sides.length := List.count_le_length
  omega

/-- A departure does not change the count of the other side. -/
lemma egress_count_of_ne {t : Side} (h : t ≠ s) : (c.count s).egress t = c.egress t := by
  obtain rfl : t = s.opposite := (Side.eq_or_eq_opposite t s).resolve_left h
  exact c.egress_count_opposite s

/-- Departures never exceed arrivals, if departures from the active side are those of readers in
flight. -/
lemma ActiveExact.count_le (h : c.ActiveExact sides) (hs : s = c.side → s ∈ sides) :
    (c.count s).egress c.side + (sides.erase s).count c.side = c.ingress := by
  have hactive := h.active
  by_cases hside : s = c.side
  · subst hside
    have hcount := List.count_pos_iff.2 (hs rfl)
    rw [egress_count_same, List.count_erase_self]
    omega
  · rw [egress_count_of_ne (Ne.symm hside), List.count_erase_of_ne (Ne.symm hside)]
    exact hactive.symm

/-- The departure of a reader in flight has room in its field, and does not exceed the arrivals. -/
lemma ActiveExact.backed (h : c.ActiveExact sides) (hmem : c.side ∈ sides) :
    c.egress c.side + 1 < 2 ^ 20 ∧ (c.count c.side).egress c.side ≤ c.ingress := by
  have hlow := h.low
  have hbacked := h.count_le fun _ => hmem
  omega

lemma Tracks.backed (h : c.Tracks (s :: sides)) :
    c.egress s + 1 < 2 ^ 20 ∧ (c.count s).egress c.side ≤ c.ingress := by
  have hbacked := h.toActiveExact.count_le fun _ => List.mem_cons_self (a := s)
  refine ⟨?_, by omega⟩
  obtain ⟨⟨-, hlow⟩, hinactive⟩ := h
  rcases Side.eq_or_eq_opposite s c.side with rfl | rfl
  · omega
  · rw [List.count_cons_self] at hinactive
    omega

/-- A departure from the inactive side is added to its count. -/
lemma egress_depart_opposite (c : Counts) (s : Side) :
    (c.depart s).egress c.side.opposite = (c.count s).egress c.side.opposite := by
  unfold Counts.depart
  split
  · rfl
  · have hrebase := (c.count s).egress_rebase_opposite
    rwa [side_count] at hrebase

/-- The effect of a departure on the inactive side: one more departure and one reader less, or
none. -/
lemma Tracks.inactive_depart (c : Counts) (sides : List Side) (s : Side) :
    (c.depart s).egress c.side.opposite + sides.count c.side.opposite =
      c.egress c.side.opposite + (s :: sides).count c.side.opposite := by
  rw [egress_depart_opposite]
  rcases Side.eq_or_eq_opposite s c.side with rfl | rfl
  · rw [egress_count_opposite, List.count_cons_of_ne (Ne.symm (Side.opposite_ne _))]
  · rw [egress_count_same, List.count_cons_self]
    omega

/-- After a departure the active side has less than `2 ^ 19` arrivals, or no departures counted. -/
lemma depart_low (c : Counts) (s : Side) :
    (c.depart s).ingress < 2 ^ 19 ∨ (c.depart s).egress c.side = 0 := by
  unfold Counts.depart
  split
  · next hlow => exact .inl hlow
  · have hrebase := (c.count s).egress_rebase_same
    rw [side_count] at hrebase
    exact .inr hrebase

/-- A departure removes the reader from those in flight. -/
lemma ActiveExact.depart (h : c.ActiveExact sides) (hs : s = c.side → s ∈ sides) :
    (c.depart s).ActiveExact (sides.erase s) := by
  -- with the departure counted the difference is right, whether or not the counts are rebased
  have hactive := h.count_le hs
  have hdepart : (c.depart s).ingress =
      (c.depart s).egress c.side + (sides.erase s).count c.side := by
    unfold Counts.depart
    split
    · rw [ingress_count]
      exact hactive.symm
    · have hsame := (c.count s).egress_rebase_same
      rw [side_count] at hsame
      rw [hsame, ingress_rebase, ingress_count, side_count]
      omega
  refine ⟨?_, ?_⟩
  · rw [side_depart]
    exact hdepart
  · rw [side_depart]
    rcases c.depart_low s with hlow | hzero
    · omega
    · omega

lemma Tracks.depart (h : c.Tracks (s :: sides)) : (c.depart s).Tracks sides := by
  have hactiveExact := h.toActiveExact.depart fun _ => List.mem_cons_self (a := s)
  rw [List.erase_cons_head] at hactiveExact
  refine ⟨hactiveExact, ?_⟩
  rw [side_depart, inactive_depart]
  exact h.inactive

/-- The number reported by a departure is that of the readers in flight on the active side. -/
lemma ActiveExact.eq_of_mem_reports (h : c.ActiveExact sides) (hs : s = c.side → s ∈ sides)
    {e : Event} (he : e ∈ c.reports s) : e = .ingressRebased ((sides.erase s).count c.side) := by
  have hactive := (h.depart hs).active
  rw [side_depart] at hactive
  unfold Counts.reports at he
  unfold Counts.depart at hactive
  split at he
  · cases he
  · next hhigh =>
    have hsame := (c.count s).egress_rebase_same
    rw [if_neg hhigh] at hactive
    rw [side_count] at hsame
    rw [List.mem_singleton.1 he, hactive, hsame, Nat.zero_add]

lemma Tracks.eq_of_mem_reports (h : c.Tracks (s :: sides)) {e : Event} (he : e ∈ c.reports s) :
    e = .ingressRebased (sides.count c.side) := by
  rw [h.toActiveExact.eq_of_mem_reports (fun _ => List.mem_cons_self) he, List.erase_cons_head]

@[simp] lemma egress_turn (c : Counts) (s : Side) : c.turn.egress s = 0 := by
  cases s <;> rfl

/-- After a turn with no readers on the other side, the new active side has none. -/
lemma ActiveExact.turn (h : sides.count c.side.opposite = 0) : c.turn.ActiveExact sides := by
  refine ⟨?_, ?_⟩
  · rw [egress_turn]
    exact (Nat.zero_add _).trans h |>.symm
  · rw [egress_turn]
    exact Nat.two_pow_pos 19

/-- After a turn all readers are on the inactive side. -/
lemma Tracks.turn (h : sides.count c.side.opposite = 0) (hlength : sides.length ≤ 2 ^ 19) :
    c.turn.Tracks sides := by
  have hle : sides.count c.side.opposite.opposite ≤ sides.length := List.count_le_length
  refine ⟨.turn h, ?_⟩
  rw [egress_turn, Nat.zero_add]
  exact Nat.le_trans hle hlength

/-- No reader is on the inactive side, or, while a writer waits, the readers there are as many as
the departures that are missing. -/
def InactiveExact (c : Counts) (sides : List Side) : Option Backlog → Prop
  | none => c.side.opposite ∉ sides
  | some b => b.side = c.side.opposite ∧ b.ingress.toNat =
      b.carried.toNat + (c.egress c.side.opposite + sides.count c.side.opposite)

/-- `InactiveExact` depends on the counts and the readers of the inactive side only. -/
lemma InactiveExact.congr {c' : Counts} {sides' : List Side} {d : Option Backlog}
    (h : c.InactiveExact sides d) (hside : c'.side = c.side)
    (hfewer : sides'.count c.side.opposite ≤ sides.count c.side.opposite)
    (hcounted : c'.egress c.side.opposite + sides'.count c.side.opposite =
      c.egress c.side.opposite + sides.count c.side.opposite) : c'.InactiveExact sides' d := by
  cases d with
  | none =>
    have hnone : sides.count c.side.opposite = 0 := List.count_eq_zero.2 h
    rw [InactiveExact, hside, ← List.count_eq_zero]
    exact Nat.eq_zero_of_le_zero (hnone ▸ hfewer)
  | some b =>
    rw [InactiveExact, hside, hcounted]
    exact h

end Counts

/-! ## The word and the readers inside -/

/-- The word has counts that agree with the sides of the readers inside, also while a writer waits
for those on the inactive side. -/
def CountsExact (g : IngressWord) (sides : List Side) (d : Option Backlog) : Prop :=
  ∃ c : Counts, g.Keeps c ∧ c.Tracks sides ∧ c.InactiveExact sides d

namespace CountsExact

variable {g : IngressWord} {sides : List Side} {d : Option Backlog}

lemma fresh : IngressWord.fresh.CountsExact [] none :=
  ⟨_, .fresh, Counts.tracks_nil, List.not_mem_nil⟩

lemma perm {others : List Side} (h : g.CountsExact sides d) (hperm : sides.Perm others) :
    g.CountsExact others d := by
  obtain ⟨c, hkeeps, htracks, hinactiveExact⟩ := h
  refine ⟨c, hkeeps, htracks.perm hperm, hinactiveExact.congr rfl ?_ ?_⟩
  · exact Nat.le_of_eq (hperm.count_eq _).symm
  · rw [hperm.count_eq]

/-- An arrival is counted on the active side. -/
lemma arrive (h : g.CountsExact sides d) (hlength : sides.length + 1 ≤ 2 ^ 19) :
    g.arrive.2.CountsExact (g.side :: sides) d ∧ g.arrive.2.side = g.side := by
  obtain ⟨c, hkeeps, htracks, hinactiveExact⟩ := h
  have harrived := hkeeps.arrive (htracks.room hlength)
  have hsame : (c.side :: sides).count c.side.opposite = sides.count c.side.opposite :=
    List.count_cons_of_ne (Ne.symm (Side.opposite_ne _))
  rw [hkeeps.side_eq, harrived.side_eq]
  exact ⟨⟨c.arrive, harrived, htracks.arrive, hinactiveExact.congr rfl (Nat.le_of_eq hsame)
    (by rw [Counts.egress_arrive, hsame])⟩, rfl⟩

/-- A reader inside may depart, and the departure is counted. -/
lemma depart {side : Side} (h : g.CountsExact (side :: sides) d) :
    (∃ events, (g.depart side).1 = .ok events ∧ ∀ e ∈ events, ∃ n, e = .ingressRebased n) ∧
      (g.depart side).2.CountsExact sides d ∧ (g.depart side).2.side = g.side := by
  obtain ⟨c, hkeeps, htracks, hinactiveExact⟩ := h
  obtain ⟨hresult, hleft⟩ := hkeeps.depart htracks.backed.1 htracks.backed.2
  refine ⟨⟨_, hresult, fun e he => ⟨_, htracks.eq_of_mem_reports he⟩⟩,
    ⟨c.depart side, hleft, htracks.depart, hinactiveExact.congr (Counts.side_depart _ _) ?_ ?_⟩, ?_⟩
  · exact (List.sublist_cons_self side sides).count_le _
  · rw [Counts.Tracks.inactive_depart]
  · rw [hleft.side_eq, Counts.side_depart, hkeeps.side_eq]

/-- At a turn the readers of the active side become those to wait for. -/
lemma turn (h : g.CountsExact sides none) (hlength : sides.length ≤ 2 ^ 19) :
    g.exchange.2.CountsExact sides (some g.exchange.1) ∧ g.exchange.1.side = g.side ∧
      g.exchange.2.side = g.side.opposite := by
  obtain ⟨c, hkeeps, htracks, hinactiveExact⟩ := h
  obtain ⟨hold, hingress, hcarried, hturned⟩ := hkeeps.exchange
  have hopposite : c.turn.side.opposite = c.side := Side.opposite_opposite _
  refine ⟨⟨c.turn, hturned, .turn (List.count_eq_zero.2 hinactiveExact) hlength, ?_, ?_⟩, ?_, ?_⟩
  · exact hold.trans hopposite.symm
  · rw [hopposite, Counts.egress_turn, Nat.zero_add, hingress, hcarried]
    exact htracks.active
  · rw [hold, hkeeps.side_eq]
  · rw [hturned.side_eq, hkeeps.side_eq]
    rfl

/-- The gate determines whether the inactive side has readers. -/
lemma cleared {b : Backlog} (h : g.CountsExact sides (some b)) :
    g.cleared b = .ok (decide (b.side ∉ sides)) ∧ b.side = g.side.opposite := by
  obtain ⟨c, hkeeps, -, hwaits, hleft⟩ := h
  rw [hkeeps.cleared (by rw [hwaits]; omega), hwaits, hkeeps.side_eq]
  refine ⟨congrArg Except.ok ?_, rfl⟩
  rw [Bool.eq_iff_iff, beq_iff_eq, decide_eq_true_iff, ← List.count_eq_zero]
  omega

/-- Between rounds no reader is on the inactive side. -/
lemma inactive (h : g.CountsExact sides none) : g.side.opposite ∉ sides := by
  obtain ⟨c, hkeeps, -, hinactiveExact⟩ := h
  rw [hkeeps.side_eq]
  exact hinactiveExact

/-- When no reader is left there, the backlog no longer matters. -/
lemma rest {b : Backlog} (h : g.CountsExact sides (some b)) (hgone : b.side ∉ sides) :
    g.CountsExact sides none := by
  obtain ⟨c, hkeeps, htracks, hwaits, -⟩ := h
  refine ⟨c, hkeeps, htracks, ?_⟩
  rw [Counts.InactiveExact, ← hwaits]
  exact hgone

end CountsExact

end IngressWord

open IngressWord

variable {α ρ : Type}

/-! ## Counts of a history -/

/-- The effect of a crossing on the counts. -/
def Crossing.recount (c : Counts) : Crossing Side → Counts
  | .absent => c
  | .arrived .. | .entered _ => c.arrive
  | .departed _ side => c.depart side
  | .left v => c.depart v.ticket

/-- The effect of an action on the counts. -/
def Action.recount (c : Counts) : Action IngressWord Side Backlog α ρ → Counts
  | .moved s m => (s.crossing m).recount c
  | .applied _ _ _ r => if r.observed then c.arrive.depart c.side else c
  | .turned _ => c.turn
  | _ => c

/-- The counts of a history, as numbers without overflow. -/
def History.counts (h : History IngressWord Side Backlog α ρ) : Counts :=
  h.foldr (fun d c => d.recount c) ⟨.left, 0, 0, 0⟩

/-- What a crossing preserves: the word has the counts, which agree with the readers in flight. The
readers on the inactive side only become fewer, and each departure there is counted. -/
structure Session.Preserved (s : Session IngressWord Side Backlog α ρ) (c c' : Counts)
    (sides sides' : List Side) : Prop where
  keeps : s.inst.gate.Keeps c'
  tracks : c'.Tracks sides'
  side : c'.side = c.side
  fewer : sides'.count c.side.opposite ≤ sides.count c.side.opposite
  counted : c'.egress c.side.opposite + sides'.count c.side.opposite =
    c.egress c.side.opposite + sides.count c.side.opposite

namespace Session

variable {s s' : Session IngressWord Side Backlog α ρ} {c : Counts} {sides : List Side}

lemma preserved_arrive {slot : Nat} {ticket : Side} (hk : s.inst.gate.Keeps c) (ht : c.Tracks sides)
    (hlength : sides.length + 1 ≤ 2 ^ 19)
    (harrive : Gate.arrive s.inst.gate slot = .ok (ticket, s'.inst.gate)) :
    s'.Preserved c c.arrive sides (ticket :: sides) := by
  obtain ⟨hticket, hgate⟩ := Prod.mk.inj (Except.ok.inj harrive)
  have hside : ticket = c.side := hticket.symm.trans hk.side_eq
  rw [hside]
  refine ⟨?_, ht.arrive, rfl, ?_, ?_⟩
  · rw [← hgate]
    exact hk.arrive (ht.room hlength)
  · exact Nat.le_of_eq (List.count_cons_of_ne (Ne.symm (Side.opposite_ne _)))
  · rw [Counts.egress_arrive, List.count_cons_of_ne (Ne.symm (Side.opposite_ne _))]

lemma preserved_depart {slot : Nat} {ticket : Side} (hk : s.inst.gate.Keeps c) (ht : c.Tracks sides)
    (hmem : ticket ∈ sides)
    (hgate : s'.inst.gate = (Gate.depart s.inst.gate slot ticket).2) :
    s'.Preserved c (c.depart ticket) sides (sides.erase ticket) := by
  have hperm : sides.Perm (ticket :: sides.erase ticket) := List.perm_cons_erase hmem
  have htracks : c.Tracks (ticket :: sides.erase ticket) := ht.perm hperm
  refine ⟨?_, htracks.depart, Counts.side_depart _ _, ?_, ?_⟩
  · rw [hgate]
    exact (hk.depart htracks.backed.1 htracks.backed.2).2
  · exact List.erase_sublist.count_le _
  · rw [Counts.Tracks.inactive_depart, hperm.count_eq]

/-- A crossing is counted. -/
lemma Crossed.preserved {x : Crossing Side} (h : s.Crossed x s') (hk : s.inst.gate.Keeps c)
    (ht : c.Tracks sides) (hbacked : x.Backed sides) (hlength : (x.flight sides).length ≤ 2 ^ 19) :
    s'.Preserved c (x.recount c) sides (x.flight sides) := by
  cases h with
  | absent hgate => exact ⟨hgate ▸ hk, ht, rfl, Nat.le_refl _, rfl⟩
  | arrived harrive => exact preserved_arrive hk ht hlength harrive
  | departed hgate => exact preserved_depart hk ht hbacked hgate
  | entered harrive => exact preserved_arrive hk ht hlength harrive
  | left hgate => exact preserved_depart hk ht hbacked hgate

end Session

/-! ## Reads within applications -/

namespace Instance

variable {s : Instance IngressWord Backlog α ρ} {c : Counts} {sides : List Side}

/-- A read with a new slot arrives, departs, and returns the copy on the active side. -/
lemma readAnew_eq (hk : s.gate.Keeps c) (ht : c.ActiveExact sides)
    (hlength : sides.length + 1 ≤ 2 ^ 19) :
    ∃ gate, gate.Keeps (c.arrive.depart c.side) ∧ s.readAnew = (.ok (s.copies.get s.activeSide),
      { s with gate, log := (c.arrive.reports c.side).reverse ++ s.log }) := by
  have hkeeps : s.gate.arrive.2.Keeps c.arrive := hk.arrive (ht.room hlength)
  have hside : s.gate.arrive.2.side = s.gate.side := hkeeps.side_eq.trans hk.side_eq.symm
  obtain ⟨hroom, hbacked⟩ := ht.arrive.backed List.mem_cons_self
  obtain ⟨hreports, hleft⟩ := hkeeps.depart (s := c.side) hroom hbacked
  rw [← hk.side_eq] at hreports hleft ⊢
  refine ⟨(s.gate.arrive.2.depart s.gate.side).2, hleft, ?_⟩
  have harrive : Gate.arrive s.gate 0 = .ok (s.gate.side, s.gate.arrive.2) := rfl
  have hdepart : Gate.depart s.gate.arrive.2 0 s.gate.side =
      (.ok (c.arrive.reports s.gate.side), (s.gate.arrive.2.depart s.gate.side).2) :=
    Prod.ext hreports rfl
  have hgiven : Gate.side s.gate.arrive.2 = s.gate.side := hside
  have hread : s.read s.commonSlot = (.ok (s.copies.get s.gate.side),
      { s with
        gate := (s.gate.arrive.2.depart s.gate.side).2
        log := (c.arrive.reports s.gate.side).reverse ++ s.log }) := by
    simp only [read, enter, arrive, commonSlot, if_true, harrive, leave, dismiss, hdepart, given,
      activeSide, hgiven, foldl_report]
  rw [readAnew, if_neg (by decide), hread]
  rfl

/-- An application that reads leaves the gate with one more arrival and departure. -/
lemma looked_eq_of_observed (hk : s.gate.Keeps c) (ht : c.ActiveExact sides)
    (hlength : sides.length + 1 ≤ 2 ^ 19) {r : Request α ρ} (hobserved : r.observed = true) :
    ∃ gate writers, gate.Keeps (c.arrive.depart c.side) ∧ s.looked r =
      { s with gate, writers, log := (c.arrive.reports c.side).reverse ++ s.log } := by
  obtain ⟨gate, hkeeps, hread⟩ := readAnew_eq hk ht hlength
  simp only [looked_eq, hobserved, if_true, observe, hread]
  exact ⟨gate, _, hkeeps, rfl⟩

/-- Reads within applications need no slot. -/
lemma arrivals_eq_one {side : Side} {p : Pass} {r : Request α ρ} (hobserved : r.observed = true) :
    (Action.applied s side p r : Action IngressWord Side Backlog α ρ).arrivals = 1 := by
  simp [Action.arrivals, hobserved, admitsLook, show Gate.slotted IngressWord = false from rfl]

/-- The effect of an application on the gate: the counts of one action, and the events of its
read. -/
lemma pass_keeps {t : Instance IngressWord Backlog α ρ} {side : Side} {p : Pass}
    {x : Nat × Request α ρ} {result : Except Fault Unit}
    (h : s.pass side p.application [x] = (result, t)) (hk : s.gate.Keeps c) (ht : c.Tracks sides)
    (hlength : sides.length + (Action.applied s side p x.2 :
      Action IngressWord Side Backlog α ρ).arrivals ≤ 2 ^ 19) :
    let d : Action IngressWord Side Backlog α ρ := .applied s side p x.2
    t.gate.Keeps (d.recount c) ∧ (d.recount c).Tracks sides ∧ (d.recount c).side = c.side ∧
      s.Reports (· = .ingressRebased (sides.count c.side)) t := by
  intro d
  obtain ⟨copies, cells, rfl⟩ := pass_looked h
  rcases hobserved : x.2.observed with _ | _
  · have hlooked : s.looked x.2 = s := by simp [looked_eq, hobserved]
    have hrecount : d.recount c = c := by simp [d, Action.recount, hobserved]
    rw [hlooked, hrecount]
    exact ⟨hk, ht, rfl, .of_log_eq rfl⟩
  · have hrecount : d.recount c = c.arrive.depart c.side := by simp [d, Action.recount, hobserved]
    rw [arrivals_eq_one hobserved] at hlength
    obtain ⟨gate, writers, hkeeps, hlooked⟩ :=
      looked_eq_of_observed hk ht.toActiveExact hlength hobserved
    rw [hlooked, hrecount]
    refine ⟨hkeeps, ht.arrive.depart, Counts.side_depart _ _, _, rfl, fun e he => ?_⟩
    exact ht.arrive.eq_of_mem_reports (List.mem_reverse.1 he)

end Instance

end TwinCopy
