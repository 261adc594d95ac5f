import TwinCopy.Proofs.ReadTransparency

/-!
# Read-transparency of the gates

Two counting read-indicators, the word with versions and the word without are determined by the
readers inside, within the limits of their counters (`readerDetermined`), and hence
read-transparent. The word without versions shows counts that depend on the arrivals and departures
so far, and reports when it rebases them; `Projection.withoutCounts` drops both. Two read-indicators
with flags are read-transparent without any limit: only readers inside have a flag that is up
(`FlagsOfReaders`), so a reader with another slot finds its flag down, raises it, and lowers it
again.
-/

namespace TwinCopy

/-! ## Two read-indicators that count -/

namespace Versioned

lemma Limit.mono {kind : IndicatorKind} {tickets : List Version} {n n' : Nat} (hn : n ≤ n')
    (h : Limit kind tickets n') : Limit kind tickets n := by
  cases kind with
  | paired => exact Nat.lt_of_le_of_lt hn h
  | _ => exact h

/-- Whether a version has readers is determined by the readers inside. -/
lemma Knows.isEmpty_eq {kind : IndicatorKind} {g g' : Versioned} {p p' : Option (Phase Version)}
    {readers : List (Nat × Version)} {n n' : Nat} (h : g.Knows kind p readers n)
    (h' : g'.Knows kind p' readers n') (v : Version) :
    (g'.readers v).isEmpty = (g.readers v).isEmpty := by
  rw [Bool.eq_iff_iff, (h.tallies v).isEmpty_iff, (h'.tallies v).isEmpty_iff]

theorem readerDetermined (kind : IndicatorKind) :
    ReaderDetermined Projection.full current id (Limit kind) (Knows kind) where
  toExactGateInv := exactGateInv kind
  limit_mono hn h := h.mono hn
  view_eq {g g' p p' readers n n'} h h' _ hcurrent := by
    show GateView.versions g'.current (g'.readers .zero).isEmpty (g'.readers .one).isEmpty =
      .versions g.current (g.readers .zero).isEmpty (g.readers .one).isEmpty
    rw [hcurrent, h.isEmpty_eq h', h.isEmpty_eq h']
  quiet {g p readers n index ticket events} h hevents := by
    rw [h.depart.1] at hevents
    cases hevents
    rfl
  turned _ _ _ hcurrent :=
    ⟨hcurrent, congrArg (fun v : Version => Event.readersDrained v.next) hcurrent⟩
  shifted _ _ _ hold := congrArg Version.next hold
  applied _ _ _ _ := rfl

end Versioned

/-! ## Two read-indicators with flags -/

namespace Indicator

/-- Only flags of the given slots are up. -/
def FlagsWithin : Indicator → (Nat → Prop) → Prop
  | flagged f, slots | watched f, slots => ∀ slot, f.reading[slot]? = some true → slots slot
  | single _, _ | paired _, _ | hashed _, _ => False

variable {i j : Indicator} {slots slots' : Nat → Prop} {slot : Nat}

lemma flagsWithin_ofConfig {kind : IndicatorKind} (hkind : ¬ kind.Counting) (c : Config) :
    (ofConfig kind c).FlagsWithin slots := by
  cases kind with
  | single | paired | hashed => exact absurd trivial hkind
  | flagged | watched =>
    intro slot hup
    cases List.eq_of_mem_replicate (List.mem_of_getElem? hup)

lemma FlagsWithin.mono (h : i.FlagsWithin slots) (hslots : ∀ slot, slots slot → slots' slot) :
    i.FlagsWithin slots' := by
  cases i with
  | single | paired | hashed => exact h
  | flagged f | watched f => exact fun slot hup => hslots slot (h slot hup)

/-- An arrival raises the flag of its slot only. -/
lemma FlagsWithin.arrive (h : i.FlagsWithin slots) (harrive : i.arrive slot = .ok j) :
    j.FlagsWithin fun other => other = slot ∨ slots other := by
  cases i with
  | single | paired | hashed => exact h.elim
  | flagged f | watched f =>
    simp only [Indicator.arrive, SlotFlags.arrive] at harrive
    split at harrive <;> cases harrive
    intro other hup
    by_cases hother : other = slot
    · exact .inl hother
    · rw [List.getElem?_set_ne (Ne.symm hother)] at hup
      exact .inr (h other hup)

/-- A departure lowers the flag of its slot. -/
lemma FlagsWithin.depart (h : i.FlagsWithin slots) (slot : Nat) :
    (i.depart slot).2.FlagsWithin fun other => other ≠ slot ∧ slots other := by
  cases i with
  | single | paired | hashed => exact h.elim
  | flagged f | watched f =>
    intro other hup
    change (f.depart slot).2.reading[other]? = some true at hup
    unfold SlotFlags.depart at hup
    rcases hslot : f.reading[slot]? with _ | up <;> rw [hslot] at hup
    · refine ⟨?_, h other hup⟩
      rintro rfl
      cases hslot.symm.trans hup
    · by_cases hother : other = slot
      · subst hother
        rw [List.getElem?_set_self (List.getElem?_eq_some_iff.1 hslot).1] at hup
        cases hup
      · rw [List.getElem?_set_ne (Ne.symm hother)] at hup
        exact ⟨hother, h other hup⟩

/-- If the flag of a slot is down, an arrival and a departure with it leave all flags as they
were. -/
lemma FlagsWithin.depart_arrive (h : i.FlagsWithin slots) (hslot : ¬ slots slot)
    (harrive : i.arrive slot = .ok j) : (j.depart slot).2 = i := by
  cases i with
  | single | paired | hashed => exact h.elim
  | flagged f | watched f =>
    simp only [Indicator.arrive, SlotFlags.arrive] at harrive
    split at harrive <;> cases harrive
    next hlt =>
    have hdown : f.reading[slot] = false := by
      by_contra hup
      exact hslot (h slot (List.getElem?_eq_some_iff.2 ⟨hlt, by simpa using hup⟩))
    have hraised : (f.reading.set slot true)[slot]? = some true := List.getElem?_set_self hlt
    have hlowered : (f.reading.set slot true).set slot false = f.reading := by
      rw [List.set_set, ← hdown, List.set_getElem_self]
    simp only [Indicator.depart, SlotFlags.depart, hraised, hlowered]
    rfl

end Indicator

namespace Versioned

variable {g g' : Versioned} {index : Nat} {v : Version}

/-- The logged gate is the gate with a log, and only the flags of readers inside, by the log, are
up. -/
structure FlagsOfReaders (g : Versioned) (q : LoggedGate Versioned Version)
    (p : Option (Phase (Version × Version))) : Prop where
  graph : HomGraph LoggedGate.gate g q p
  awaits : g.Awaits (p.map (Phase.map Prod.fst))
  flagsWithin : ∀ v, (g.readers v).FlagsWithin fun index => (index, v) ∈ Transit.inside q.transits

lemma flagsOfReaders_start {kind : IndicatorKind} (hkind : ¬ kind.Counting) (c : Config) :
    FlagsOfReaders (ofConfig kind c) ⟨ofConfig kind c, []⟩ none where
  graph := ⟨rfl, nofun⟩
  awaits := clean_ofConfig kind c
  flagsWithin v := by
    have hreaders : (ofConfig kind c).readers v = .ofConfig kind c := by cases v <;> rfl
    rw [hreaders]
    exact Indicator.flagsWithin_ofConfig hkind c

namespace FlagsOfReaders

variable {q u : LoggedGate Versioned Version} {p : Option (Phase (Version × Version))}

lemma arrive (h : FlagsOfReaders g q p) (harrive : Gate.arrive q index = .ok (v, u)) :
    FlagsOfReaders u.gate u p := by
  obtain ⟨hadmitted, htransits⟩ := LoggedGate.eq_of_arrive harrive
  rw [h.graph.gate] at hadmitted
  refine ⟨⟨rfl, h.graph.phase⟩, h.awaits.sameVersions (sameVersions_arrive hadmitted), fun w => ?_⟩
  obtain ⟨i, hi, rfl, hgate⟩ := of_arrive hadmitted
  rw [hgate, htransits]
  by_cases hw : w = g.current
  · subst hw
    rw [readers_setReaders_same]
    refine ((h.flagsWithin _).arrive hi).mono fun other hother => ?_
    rcases hother with rfl | hother
    · exact List.mem_cons_self
    · exact List.mem_cons_of_mem _ hother
  · rw [readers_setReaders_of_ne _ _ hw]
    exact (h.flagsWithin w).mono fun other hother => List.mem_cons_of_mem _ hother

lemma depart (h : FlagsOfReaders g q p) (index : Nat) (v : Version) :
    FlagsOfReaders (Gate.depart g index v).2 (Gate.depart q index v).2 p := by
  obtain ⟨hgate, hphase⟩ := h.graph
  refine ⟨⟨?_, hphase⟩, h.awaits.sameVersions (g.sameVersions_depart index v), fun w => ?_⟩
  · rw [← hgate]
    rfl
  · show Indicator.FlagsWithin _ fun other => (other, w) ∈
      (Transit.inside q.transits).erase (index, v)
    rw [depart_state]
    by_cases hw : w = v
    · subst hw
      rw [readers_setReaders_same]
      refine ((h.flagsWithin w).depart index).mono fun other hother => ?_
      exact (List.mem_erase_of_ne (by simpa using hother.1)).2 hother.2
    · rw [readers_setReaders_of_ne _ _ hw]
      exact (h.flagsWithin w).mono fun other hother =>
        (List.mem_erase_of_ne (by simp [hw])).2 hother

/-- An arrival and its departure leave the gate as it was, if no reader inside has the slot. -/
lemma returns (h : FlagsOfReaders g q p)
    (hvacant : index ∉ (Transit.inside q.transits).map Prod.fst)
    (harrive : Gate.arrive q index = .ok (v, u)) :
      FlagsOfReaders g (Gate.depart u index v).2 p := by
  obtain ⟨hadmitted, htransits⟩ := LoggedGate.eq_of_arrive harrive
  rw [h.graph.gate] at hadmitted
  obtain ⟨i, hi, rfl, hgate⟩ := of_arrive hadmitted
  have hdown : (index, g.current) ∉ Transit.inside q.transits := fun hinside =>
    hvacant (List.mem_map_of_mem hinside)
  have hleft : (Gate.depart u.gate index g.current).2 = g := by
    have hsame := (h.flagsWithin g.current).depart_arrive hdown hi
    rw [depart_state, hgate, readers_setReaders_same, hsame]
    cases hcurrent : g.current <;> simp [setReaders, readers]
  refine ⟨⟨hleft, h.graph.phase⟩, h.awaits, ?_⟩
  have hinside :
      Transit.inside (Gate.depart u index g.current).2.transits = Transit.inside q.transits := by
    show Transit.inside (.departed index g.current :: u.transits) = _
    rw [htransits, Transit.inside_visit]
  rw [hinside]
  exact h.flagsWithin

lemma gateSim (l : Projection) :
    GateSim l (fun _ : LoggedGate Versioned Version => True) FlagsOfReaders :=
  have K : GateSim l (fun _ => True) (HomGraph LoggedGate.gate) := LoggedGate.gateHom.gateSim l
  { backwardClosed := .always
    slotted_eq := rfl
    ticket_eq := fun _ => rfl
    side_eq := fun h => K.side_eq h.graph
    view_eq := fun h => K.view_eq h.graph
    arrive := fun {g q p} h index => by
      rcases K.arrive h.graph index with hrefused | ⟨ticket, g', u, harrive, harrive', hgraph⟩
      · exact .inl hrefused
      · refine .inr ⟨ticket, g', u, harrive, harrive', fun hfine => ?_⟩
        obtain rfl : u.gate = g' := (hgraph hfine).gate
        exact h.arrive harrive'
    depart := fun h index ticket hfine =>
      ⟨h.depart index ticket, (K.depart h.graph index ticket hfine).2⟩
    turn := fun h => ⟨K.turn h.graph, ⟨h.awaits, rfl⟩, h.flagsWithin⟩
    standby_eq := fun h => K.standby_eq h.graph
    shift := fun {g q d d'} h hgo => by
      refine ⟨K.shift h.graph hgo, ?_, h.flagsWithin⟩
      obtain rfl : d = g.current := h.awaits.2
      exact (Version.next_next _).symm
    cleared_eq := fun h => K.cleared_eq h.graph
    rest := fun {g q d d'} h hcleared => by
      refine ⟨K.rest h.graph hcleared, Awaits.clear (d := d) h.awaits ?_, h.flagsWithin⟩
      have hresult : Gate.cleared g d = .ok (g.readers d).isEmpty := rfl
      rw [hresult] at hcleared ⊢
      cases hempty : (g.readers d).isEmpty with
      | true => rfl
      | false => exact absurd (by rw [hempty]) hcleared
    clearedEvent := fun h => K.clearedEvent h.graph
    appliedEvent := fun h => K.appliedEvent h.graph }

/-- Arrivals are at the current version, and a writer waits for the other one. -/
lemma blocks {ph : Phase (Version × Version)} (h : FlagsOfReaders g q (some ph))
    (harrive : Gate.arrive q index = .ok (v, u)) (hblocks : (ph.map Prod.snd).blocks q = true) :
    (ph.map Prod.snd).blocks u = true := by
  obtain ⟨i, -, -, hgate⟩ := of_arrive (LoggedGate.eq_of_arrive harrive).1
  have hother : ∀ w, w ≠ q.gate.current → u.gate.readers w = q.gate.readers w := fun w hw => by
    rw [hgate, readers_setReaders_of_ne _ _ hw]
  have hphase : ph.map Prod.snd = ph.map Prod.fst := h.graph.phase ph rfl
  have hawaits : q.gate.Awaits (some (ph.map Prod.fst)) := by
    rw [h.graph.gate]
    exact h.awaits
  rw [hphase] at hblocks ⊢
  rcases ph with ⟨d, d'⟩ | ⟨d, d'⟩
  · obtain ⟨hclean, hd⟩ := hawaits
    obtain rfl : d = q.gate.current := hd
    have hgo : Gate.standby q q.gate.current = true := hclean
    simp [Phase.map, Phase.blocks, hgo] at hblocks
  · obtain rfl : d = q.gate.current.next := hawaits
    have hsame : Gate.cleared u q.gate.current.next = Gate.cleared q q.gate.current.next := by
      show Except.ok (u.gate.readers _).isEmpty = .ok (q.gate.readers _).isEmpty
      rw [hother _ (next_ne _)]
    simpa only [Phase.map, Phase.blocks, hsame] using hblocks

/-- A gate of two read-indicators with flags is read-transparent. -/
theorem readTransparent (l : Projection) :
    ReadTransparent l (fun _ : LoggedGate Versioned Version => True) FlagsOfReaders where
  toGateSim := gateSim l
  blocks h harrive _ hblocks := h.blocks harrive hblocks
  returns h hvacant harrive _ := h.returns (hvacant rfl) harrive

end FlagsOfReaders

end Versioned

/-! ## One word, with versions -/

namespace VersionedWord

theorem readerDetermined : ReaderDetermined Projection.full current id Limit Knows where
  toExactGateInv := exactGateInv
  limit_mono _ h := h
  view_eq {g g' p p' readers n n'} h h' _ hcurrent := by
    show GateView.packed g'.current (g'.readers .zero).toNat (g'.readers .one).toNat =
      .packed g.current (g.readers .zero).toNat (g.readers .one).toNat
    rw [hcurrent, h.keeps.count_eq, h.keeps.count_eq, h'.keeps.count_eq, h'.keeps.count_eq]
  quiet {g p readers n index ticket events} h hevents := by
    have hgate : Gate.depart g index ticket = (g.depart ticket).map (·.map fun _ => []) id := rfl
    rw [hgate, h.depart.1] at hevents
    cases hevents
    rfl
  turned {g g' readers n n'} h h' _ hcurrent := by
    refine ⟨?_, congrArg (fun v : Version => Event.packedReadersDrained v.next) hcurrent⟩
    show g'.flipSide.current = g.flipSide.current
    rw [h'.keeps.flipSide.current_eq, h.keeps.flipSide.current_eq]
    exact hcurrent
  shifted {g g' d d' readers n n'} h h' hcurrent hold := by
    obtain ⟨-, rfl⟩ := h.awaits
    obtain ⟨-, rfl⟩ := h'.awaits
    show (g'.flipVersion g'.current).current = (g.flipVersion g.current).current
    have hshifted : (g.flipVersion g.current).current = g.current.next :=
      h.keeps.flipVersion.current_eq
    have hshifted' : (g'.flipVersion g'.current).current = g'.current.next :=
      h'.keeps.flipVersion.current_eq
    rw [hshifted, hshifted', hcurrent]
  applied _ _ _ _ := rfl

end VersionedWord

/-! ## One word, without versions -/

/-- Drops the digits of a text. -/
def withoutDigits (text : String) : String :=
  .ofList (text.toList.filter fun c => !c.isDigit)

/-- Drops the counts of a word without versions, in views and in texts, and the events that report a
rebase. -/
def Projection.withoutCounts : Projection where
  gate
    | .ingress .. => .ingress 0 0 0 0
    | v => v
  text := withoutDigits
  event
    | .ingressRebased _ => false
    | _ => true

lemma withoutDigits_append (t t' : String) :
    withoutDigits (t ++ t') = withoutDigits t ++ withoutDigits t' := by
  simp [withoutDigits, String.ofList_append]

lemma withoutDigits_toString (n : Nat) : withoutDigits (toString n) = "" := by
  have hnone : (toString n).toList.filter (fun c => !c.isDigit) = [] := by
    rw [List.filter_eq_nil_iff]
    intro c hc
    have hdigit : c ∈ Nat.toDigits 10 n := by simpa using hc
    simp [Nat.isDigit_of_mem_toDigits (by decide) (by decide) hdigit]
  rw [withoutDigits, hnone]

/-- The texts of two such words on the same side differ in digits only. -/
lemma withoutDigits_wordText (v v' : View) (hside : v'.side = v.side)
    {arrivals left right rebases arrivals' left' right' rebases' : Nat}
    (hgate : v.gate = .ingress arrivals left right rebases)
    (hgate' : v'.gate = .ingress arrivals' left' right' rebases') :
    withoutDigits (v'.wordText?.getD "") = withoutDigits (v.wordText?.getD "") := by
  simp only [View.wordText?, hgate, hgate', hside, Option.getD_some, structureText, braced,
    List.map_cons, List.map_nil, List.cons_append, List.nil_append, String.intercalate_cons_cons,
    String.intercalate_singleton, withoutDigits_append, withoutDigits_toString, reduceIte,
    Bool.false_eq_true]

lemma Projection.withoutCounts_faithful : Projection.withoutCounts.Faithful := by
  rintro ⟨side, gate, mutations, batches⟩ ⟨side', gate', mutations', batches'⟩ hview
  simp only [View.mapGate, View.mk.injEq] at hview
  obtain ⟨rfl, hgate, rfl, rfl⟩ := hview
  rcases gate with _ | _ | _ <;> rcases gate' with _ | _ | _ <;>
    simp only [Projection.withoutCounts, reduceCtorEq] at hgate
  · exact .inl (by rw [hgate])
  · exact .inl (by rw [hgate])
  · exact .inr ⟨rfl, rfl, withoutDigits_wordText _ _ rfl rfl rfl⟩

namespace IngressWord

/-- The backlog of a writer that turns the side is the number of readers on it. -/
lemma CountsExact.owed {g : IngressWord} {sides : List Side} (h : g.CountsExact sides none) :
    (g.exchange.1.ingress - g.exchange.1.carried).toNat = sides.count g.side := by
  obtain ⟨c, hkeeps, htracks, -⟩ := h
  obtain ⟨-, hingress, hcarried, -⟩ := hkeeps.exchange
  have hactive := htracks.active
  have hle : g.exchange.1.carried ≤ g.exchange.1.ingress := by
    rw [UInt64.le_iff_toNat_le]
    omega
  rw [UInt64.toNat_sub_of_le _ _ hle, hkeeps.side_eq]
  omega

theorem readerDetermined :
    ReaderDetermined Projection.withoutCounts side Backlog.side Limit Knows where
  toExactGateInv := exactGateInv
  limit_mono _ h := h
  view_eq _ _ _ _ := rfl
  quiet {g p readers n index ticket events} h hevents := by
    obtain ⟨⟨reports, hreports, hrebased⟩, -⟩ := CountsExact.depart h.countsExact
    obtain rfl : reports = events := Except.ok.inj (hreports.symm.trans hevents)
    rw [List.filter_eq_nil_iff]
    intro e he
    obtain ⟨k, rfl⟩ := hrebased e he
    exact Bool.false_ne_true
  turned {g g' readers n n'} h h' _ hcurrent := by
    have hroom : ∀ {g : IngressWord} {n}, g.Knows none readers n →
        (readers.map Prod.snd).length ≤ 2 ^ 19 := fun h => by
      rw [List.length_map]
      exact h.room
    obtain ⟨-, -, hside⟩ := h.countsExact.turn (hroom h)
    obtain ⟨-, -, hside'⟩ := h'.countsExact.turn (hroom h')
    have howed := h.countsExact.owed
    have howed' := h'.countsExact.owed
    refine ⟨?_, congrArg Event.ingressDrained ?_⟩
    · show g'.exchange.2.side = g.exchange.2.side
      rw [hside, hside', hcurrent]
    · rw [hcurrent] at howed'
      exact howed'.trans howed.symm
  shifted _ _ hcurrent _ := hcurrent
  applied _ _ _ _ := rfl

end IngressWord

end TwinCopy
