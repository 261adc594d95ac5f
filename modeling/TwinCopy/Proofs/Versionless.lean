import TwinCopy.Proofs.PackedVersions
import TwinCopy.Proofs.Tracking

/-!
# The words with versions and without agree

The gate in one word without versions turns the side by an exchange and waits until the departures
reach the arrivals it took out; the one with versions waits until a counter is zero. As long as
departures are matched and no more than `2 ^ 19` readers are inside at once, both let a writer
continue when no reader is left on the inactive side. So both simulate the reference gate, and agree
with each other, whatever the total number of readers: `versionless_word_agrees`.
-/

namespace TwinCopy

variable {α ρ : Type}

/-- A constant view, for comparisons that ignore the view of the gate. -/
def GateView.blank (_ : GateView) : GateView :=
  .ingress 0 0 0 0

namespace Passage

/-- No departure was refused, and at no time were there more than `n` readers inside. -/
def Orderly (n : Nat) (log : List Passage) : Prop :=
  (.refused .left ∉ log ∧ .refused .right ∉ log) ∧ ∀ past ∈ log.tails, (inside past).length ≤ n

instance (n : Nat) (log : List Passage) : Decidable (Orderly n log) :=
  inferInstanceAs (Decidable (_ ∧ ∀ past ∈ log.tails, _))

namespace Orderly

variable {n : Nat} {log log' : List Passage}

lemma of_suffix (hsuffix : log <:+ log') (h : Orderly n log') : Orderly n log :=
  ⟨⟨fun hmem => h.1.1 (hsuffix.subset hmem), fun hmem => h.1.2 (hsuffix.subset hmem)⟩,
    fun past hpast =>
      h.2 past ((List.mem_tails ..).2 (((List.mem_tails ..).1 hpast).trans hsuffix))⟩

lemma length_le (h : Orderly n log) : (inside log).length ≤ n :=
  h.2 log ((List.mem_tails ..).2 List.suffix_rfl)

lemma refused_notMem (h : Orderly n log) (side : Side) : .refused side ∉ log := by
  cases side with
  | left => exact h.1.1
  | right => exact h.1.2

/-- A bound on all readers bounds the readers of each side. -/
lemma atMost {m : Nat} (hle : n ≤ m) (h : Orderly n log) : AtMost m log := by
  intro past hpast
  have hlength := h.2 past hpast
  exact ⟨(List.count_le_length.trans hlength).trans hle,
    (List.count_le_length.trans hlength).trans hle⟩

end Orderly

end Passage

/-- A departure that keeps the log orderly is of a reader inside. -/
lemma RefGate.mem_of_orderly {r : RefGate} {side : Side} {n : Nat}
    (h : Passage.Orderly n (r.depart side).2.log) : side ∈ r.inside := by
  by_contra habsent
  have hlog : (r.depart side).2.log = .refused side :: r.log := by
    rw [depart, if_neg habsent]
  exact h.refused_notMem side (hlog ▸ List.mem_cons_self)

/-! ## Without versions -/

namespace IngressWord

/-- The word is related to the reference gate: its counts agree with the readers inside. -/
def Fits (r : RefGate) (g : IngressWord) (d : Option Backlog) : Prop :=
  ∃ c : Counts, g.Keeps c ∧ c.side = r.side ∧ c.Tracks r.inside ∧ c.InactiveExact r.inside d

lemma fits_iff {r : RefGate} {g : IngressWord} {d : Option Backlog} :
    Fits r g d ↔ g.side = r.side ∧ g.CountsExact r.inside d := by
  constructor
  · rintro ⟨c, hkeeps, hside, hrest⟩
    exact ⟨hkeeps.side_eq.trans hside, c, hkeeps, hrest⟩
  · rintro ⟨hside, c, hkeeps, hrest⟩
    exact ⟨c, hkeeps, hkeeps.side_eq.symm.trans hside, hrest⟩

lemma fits_fresh : Fits .fresh fresh none :=
  ⟨_, .fresh, rfl, Counts.tracks_nil, List.not_mem_nil⟩

namespace Fits

variable {r : RefGate} {g : IngressWord} {d : Option Backlog}

lemma arrive (h : Fits r g d) (hlength : r.arrive.inside.length ≤ 2 ^ 19) :
    g.arrive.1 = r.side ∧ Fits r.arrive g.arrive.2 d := by
  obtain ⟨hside, hcountsExact⟩ := fits_iff.1 h
  obtain ⟨harrived, hside'⟩ := hcountsExact.arrive hlength
  rw [hside] at harrived hside'
  exact ⟨hside, fits_iff.2 ⟨hside', harrived⟩⟩

/-- The departure of a reader inside is accepted and preserves the relation. -/
lemma depart (h : Fits r g d) {side : Side} (hmem : side ∈ r.inside) :
    (∃ events, (g.depart side).1 = .ok events) ∧ Fits (r.depart side).2 (g.depart side).2 d := by
  obtain ⟨hside, hcountsExact⟩ := fits_iff.1 h
  obtain ⟨⟨events, hresult, -⟩, hleft, hside'⟩ :=
    (hcountsExact.perm (List.perm_cons_erase hmem)).depart
  refine ⟨⟨events, hresult⟩, fits_iff.2 ⟨?_, ?_⟩⟩
  · rw [RefGate.side_depart, hside', hside]
  · rw [RefGate.inside_depart]
    exact hleft

/-- A turn makes the readers of the active side the backlog of the writer. -/
lemma turn (h : Fits r g none) (hlength : r.inside.length ≤ 2 ^ 19) :
    Fits r.turn g.exchange.2 (some g.exchange.1) := by
  obtain ⟨hside, hcountsExact⟩ := fits_iff.1 h
  obtain ⟨hturned, -, hside'⟩ := hcountsExact.turn hlength
  exact fits_iff.2 ⟨hside'.trans (congrArg Side.opposite hside), hturned⟩

/-- The verdict for a writer is whether the inactive side has no reader. -/
lemma cleared {b : Backlog} (h : Fits r g (some b)) :
    g.cleared b = .ok (decide (r.side.opposite ∉ r.inside)) := by
  obtain ⟨hside, hcountsExact⟩ := fits_iff.1 h
  obtain ⟨hcleared, hold⟩ := hcountsExact.cleared
  rw [hcleared, hold, hside]

end Fits

/-- As long as the passages are orderly, the word simulates the reference gate. -/
lemma simulatesRef : SimulatesRef id GateView.blank (Passage.Orderly (2 ^ 19)) Fits where
  fine_of_suffix := Passage.Orderly.of_suffix
  ticket_eq n := by cases n <;> rfl
  side_eq hfits := (fits_iff.1 hfits).1
  shown_eq _ _ := rfl
  arrive {r g d} hfits hfine _ := by
    obtain ⟨hticket, harrived⟩ := hfits.arrive hfine.length_le
    exact ⟨g.arrive.2, congrArg Except.ok (Prod.ext hticket rfl), harrived⟩
  depart {r g d} side hfits hfine slot := by
    have hmem := r.mem_of_orderly hfine
    obtain ⟨⟨events, hresult⟩, hleft⟩ := hfits.depart hmem
    refine ⟨?_, hleft⟩
    have hdepart : (Gate.depart g slot (id side)).1 = .ok events := hresult
    rw [hdepart, RefGate.depart, if_pos hmem]
    rfl
  turn hfits hfine := ⟨rfl, hfits.turn hfine.length_le⟩
  cleared hfits _ := hfits.cleared
  rest := by
    rintro r g b ⟨c, hkeeps, hside, htracks, -⟩ habsent
    exact ⟨c, hkeeps, hside, htracks, by rw [Counts.InactiveExact, hside]; exact habsent⟩

end IngressWord

/-! ## Both -/

/-- The condition may be strengthened, and less of the views compared. -/
lemma SimulatesRef.mono {γ κ δ : Type} [Gate γ κ δ] {ticket : Side → κ}
    {shown shown' : GateView → GateView} {fine fine' : List Passage → Prop}
    {fits : RefGate → γ → Option δ → Prop}
    (M : SimulatesRef ticket shown fine fits) (hfine : ∀ log, fine' log → fine log)
    (hsuffix : ∀ {log log' : List Passage}, log <:+ log' → fine' log' → fine' log)
    (hshown : ∀ v v', shown v = shown v' → shown' v = shown' v') :
    SimulatesRef ticket shown' fine' fits where
  fine_of_suffix := hsuffix
  ticket_eq := M.ticket_eq
  side_eq := M.side_eq
  shown_eq hfits h := hshown _ _ (M.shown_eq hfits (hfine _ h))
  arrive hfits h := M.arrive hfits (hfine _ h)
  depart side hfits h := M.depart side hfits (hfine _ h)
  turn hfits h := M.turn hfits (hfine _ h)
  cleared hfits h := M.cleared hfits (hfine _ h)
  rest := M.rest

namespace Session

/-- The gate with the word without versions agrees with the one with versions, where a version is
identified with its side. Departures must be matched, and no more than `2 ^ 19` readers may be
inside at once, as logged by the reference gate over the same script. Then every operation of a
script, also inside a query, has the same answer, finishes the same writers with the same outputs,
and shows the same side; after it, or after any sequence of moves, both have the same side, copies
and lock and the same writers inside. -/
theorem versionless_word_agrees (c : Config) (init : Copies α) :
    let reference : Session RefGate Side Side α ρ := .ofInstance (RefGate.freshInstance init c.wait)
    let versioned : Session VersionedWord Version Version α ρ := .ofInstance (.versionedWord c init)
    let versionless : Session IngressWord Side IngressWord.Backlog α ρ :=
      .ofInstance (.ingressWord c init)
    let allowed : Move α ρ → Prop := Move.Common False fun _ => True
    (∀ script, (∀ m ∈ Operation.movesOfAll script, allowed m) →
      Passage.Orderly (2 ^ 19) (reference.steps script).2.inst.gate.log →
      Step.mapAll id GateView.blank (versionless.steps script).1 =
          Step.mapAll Version.side GateView.blank (versioned.steps script).1 ∧
        SameProgress (versioned.steps script).2 (versionless.steps script).2 ∧
        (versionless.steps script).2.ending = (versioned.steps script).2.ending) ∧
      ∀ moves, (∀ m ∈ moves, allowed m) →
        Passage.Orderly (2 ^ 19) (reference.performAll moves).inst.gate.log →
        SameProgress (versioned.performAll moves) (versionless.performAll moves) := by
  intro reference versioned versionless allowed
  -- both simulate the reference gate, and therefore agree with each other
  have M : SimulatesRef Side.version GateView.blank (Passage.Orderly (2 ^ 19))
      (Tally.Fits VersionedWord.Keeps) :=
    VersionedWord.tallying.simulatesRef.mono (fun _ => Passage.Orderly.atMost (by omega))
      Passage.Orderly.of_suffix fun _ _ _ => rfl
  have M' := IngressWord.simulatesRef
  have hversioned : RefSim Side.version GateView.blank (Tally.Fits VersionedWord.Keeps)
      (fun _ => True) reference versioned :=
    refSim_fresh c.wait ⟨VersionedWord.keeps_fresh, RefGate.awaits_fresh⟩ nofun
  have hversionless : RefSim id GateView.blank IngressWord.Fits (fun _ => True) reference
      versionless :=
    refSim_fresh c.wait IngressWord.fits_fresh nofun
  refine ⟨fun script hscript hfine => ?_, fun moves hmoves hfine => ?_⟩
  · obtain ⟨hsteps, hend⟩ := hversioned.steps Version.side M False.elim script hscript hfine
    obtain ⟨hsteps', hend'⟩ := hversionless.steps id M' False.elim script hscript hfine
    have hname : Version.side ∘ Side.version = id ∘ id := funext Side.side_version
    rw [hname] at hsteps
    exact ⟨hsteps'.trans hsteps.symm, hend.sameProgress M M' hend',
      hend'.ending_eq.trans hend.ending_eq.symm⟩
  · exact (hversioned.performAll M False.elim hmoves hfine).sameProgress M M'
      (hversionless.performAll M' False.elim hmoves hfine)

/-- A writer is started inside a query, makes a read, turns the side, and waits for the query and
for a raw reader while others read on the new side; the query ends in a fault, the raw reader
departs, and the writer ends in a fault in its second application. -/
def tornAmongReaders : List (Operation Nat Nat) :=
  let torn : Mutation Nat Nat :=
    ⟨fun application n => ⟨n + 10, if application = 2 then .error "torn" else .ok n⟩⟩
  [.single (.arrive 0), .query 0 true [.single (.mutate 0 torn true), .read 0 3 false],
    .single (.depart 0 0), .single .look]

theorem versionless_word_agrees_torn :
    let versioned : Session VersionedWord Version Version Nat Nat :=
      .ofInstance (.versionedWord .standard ⟨5, 6⟩)
    let versionless : Session IngressWord Side IngressWord.Backlog Nat Nat :=
      .ofInstance (.ingressWord .standard ⟨5, 6⟩)
    Step.mapAll id GateView.blank (versionless.steps tornAmongReaders).1 =
        Step.mapAll Version.side GateView.blank (versioned.steps tornAmongReaders).1 ∧
      SameProgress (versioned.steps tornAmongReaders).2 (versionless.steps tornAmongReaders).2 ∧
      (versionless.steps tornAmongReaders).2.ending = .copies ⟨15, 16⟩ ∧
      SameProgress (versioned.performAll [.arrive 0, .enter 0])
        (versionless.performAll [.arrive 0, .enter 0]) := by
  have hagree := versionless_word_agrees (ρ := Nat) .standard (⟨5, 6⟩ : Copies Nat)
  obtain ⟨hsteps, hprogress, -⟩ := hagree.1 tornAmongReaders (by decide +kernel) (by decide +kernel)
  exact ⟨hsteps, hprogress, by decide +kernel,
    hagree.2 [.arrive 0, .enter 0] (by decide +kernel) (by decide +kernel)⟩

end Session

end TwinCopy
