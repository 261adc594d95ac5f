import TwinCopy.Proofs.ScriptSchedule
import TwinCopy.Proofs.Versions

/-!
# Copies given to readers do not change

With counting read-indicators, a reader inside is counted at the version that was current when it
arrived, until it departs. So when a writer may change a copy, every reader inside is at the current
version and was given the other copy. `ReadersSafe` is the invariant; it holds for queries nested to
any depth, and for mutations that return or end in a fault.
-/

namespace TwinCopy

variable {α ρ : Type}

/-- Queries at the current version were given the active side, unless the side has been turned and
the version not yet. -/
def Control.Sided (g : Versioned) (visits : List (Visit Version)) : Control Version α ρ → Prop
  | .waiting ⟨_, _, .standby _⟩ => True
  | _ => ∀ v ∈ visits, v.ticket = g.current → v.side = g.side

/-- If the other version shows no reader, no query under way is at it. -/
def Versioned.VacancySound (g : Versioned) (visits : List (Visit Version)) : Prop :=
  g.Clean → ∀ v ∈ visits, v.ticket = g.current

/-- No query under way is at a copy that a writer may change, provided that the gate is sound in the
sense of `VacancySound`. -/
structure TargetFree (s : Session Versioned Version Version α ρ)
    (h : History Versioned Version Version α ρ) (c : Control Version α ρ) : Prop where
  fits : s.inst.gate.Fits c
  sided : c.Sided s.inst.gate s.visits
  opened : s.visits.map s.inst.given = h.opened

/-- Every reader inside is counted, and none is at a copy that a writer may change. -/
structure ReadersSafe (s : Session Versioned Version Version α ρ)
    (h : History Versioned Version Version α ρ) (c : Control Version α ρ) : Prop
    extends TargetFree s h c where
  tallies : s.inst.gate.Tallies (s.inside h) h.arrivals

namespace Control

lemma Sided.congr {g g' : Versioned} {visits visits' : List (Visit Version)}
    {c : Control Version α ρ} (hc : c.Sided g visits) (hside : g'.side = g.side)
    (hcurrent : g'.current = g.current)
    (hvisits : ∀ v ∈ visits', v ∈ visits ∨ v.side = g.side) : c.Sided g' visits' := by
  have hsided : (∀ v ∈ visits, v.ticket = g.current → v.side = g.side) →
      ∀ v ∈ visits', v.ticket = g'.current → v.side = g'.side := by
    intro hall v hv hticket
    rw [hside]
    rcases hvisits v hv with hv | hv
    · exact hall v hv (hcurrent ▸ hticket)
    · exact hv
  match c with
  | .waiting ⟨_, _, .standby _⟩ => trivial
  | .waiting ⟨_, _, .clearing _⟩ | .resting | .passing .. => exact hsided hc

end Control

namespace TargetFree

variable {s s' : Session Versioned Version Version α ρ} {t : Instance Versioned Version α ρ}
  {h actions : History Versioned Version Version α ρ} {c c' : Control Version α ρ}

lemma moved {m : Move α ρ} {r : Except Failure (Answer Version α)} (hact : s.act m = (r, s'))
    (hm : s.Moved m r s') (hs : TargetFree s h c) : TargetFree s' (.moved s m :: h) c := by
  have hcrossed := s.crossed_act m
  rw [hact] at hcrossed
  have hversions := hcrossed.sameVersions
  refine ⟨hs.fits.sameVersions hversions, ?_, hm.opened hact hs.opened⟩
  refine hs.sided.congr hversions.side hversions.current fun v hv => ?_
  revert hcrossed
  generalize s.crossing m = x
  intro hcrossed
  cases hcrossed with
  | absent _ hvisits | arrived _ hvisits | departed _ hvisits => exact .inl (hvisits ▸ hv)
  | entered _ hside hvisits =>
    -- a query that begins is given the active side
    rw [hvisits] at hv
    rcases List.mem_cons.1 hv with rfl | hv
    · exact .inr (hside.trans hversions.side)
    · exact .inl hv
  | left _ hvisits =>
    rw [hvisits]
    exact .inl (List.mem_cons_of_mem _ hv)

/-- During a pass every query under way is on the side that the pass does not change. -/
lemma side_eq_of_passing {p : Pass} {done rest : Batch α ρ} {old : Side}
    (hs : TargetFree s h (.passing p done rest old)) (hsound : s.inst.gate.VacancySound s.visits) :
    ∀ v ∈ s.visits, v.side = (p.target old).opposite := by
  intro v hv
  obtain ⟨hclean, htarget⟩ := hs.fits
  rw [hs.sided v hv (hsound hclean v hv), htarget, Side.opposite_opposite]

/-- A step of the leading writer does not change the copies given to queries under way. -/
lemma given_staged (hs : TargetFree s h c) (hsound : s.inst.gate.VacancySound s.visits)
    (hstaged : Instance.Staged s.inst c actions t c') :
    s.visits.map t.given = s.visits.map s.inst.given := by
  cases hstaged with
  | quiet | elect | turn | shift | clear => rfl
  | @apply t p done rest old x hpass =>
    obtain ⟨output, gate, registry, log, note, -, rfl, -⟩ := Instance.pass_ok hpass
    exact Copies.given_set (hs.side_eq_of_passing hsound) _
  | @giveUp t p done rest old x f hpass =>
    obtain ⟨message, gate, registry, log, note, -, -, rfl, -⟩ := Instance.pass_error hpass
    obtain ⟨cells, writers, log', finished, hend⟩ := Instance.abandon_frame _ (done ++ x :: rest) f
    rw [hend]
    exact Copies.given_set (hs.side_eq_of_passing hsound) _
  | @complete batch old =>
    obtain ⟨cells, writers, log, finished, hend⟩ := s.inst.complete_frame batch old
    rw [hend]
    rfl
  | surplus hcleared => cases hcleared

lemma staged (hstaged : Instance.Staged s.inst c actions t c')
    (hsound : s.inst.gate.VacancySound s.visits) (hs : TargetFree s h c) :
    TargetFree { s with inst := t } (actions ++ h) c' := by
  refine ⟨hstaged.fits hs.fits, ?_, ?_⟩
  · cases hstaged with
    | quiet | elect | clear => exact hs.sided
    | apply hpass =>
      obtain ⟨registry, note, hlook⟩ := Instance.pass_look hpass
      exact hs.sided.congr hlook.sameVersions.side hlook.sameVersions.current fun v hv => .inl hv
    | giveUp hpass =>
      obtain ⟨registry, note, hlook⟩ := Instance.pass_look hpass
      intro v hv hticket
      rw [Instance.gate_abandon] at hticket ⊢
      rw [hlook.sameVersions.side]
      exact hs.sided v hv (hticket.trans hlook.sameVersions.current)
    | turn => trivial
    | shift =>
      -- no query is at the version that becomes current
      intro v hv hticket
      have hcurrent : v.ticket = s.inst.gate.current := hsound hs.fits.1 v hv
      obtain ⟨-, -, rfl⟩ := hs.fits
      exact absurd (hticket.symm.trans hcurrent) (Versioned.next_ne _)
    | complete =>
      intro v hv hticket
      rw [Instance.gate_complete] at hticket ⊢
      exact hs.sided v hv hticket
    | surplus hcleared => cases hcleared
  · rw [History.opened_append hstaged.crossing, ← hs.opened]
    exact hs.given_staged hsound hstaged

end TargetFree

namespace ReadersSafe

variable {s s' : Session Versioned Version Version α ρ}
  {h : History Versioned Version Version α ρ} {c c' : Control Version α ρ}

/-- If the readers are counted, a version that shows no reader has none. -/
lemma vacancySound (hs : ReadersSafe s h c) : s.inst.gate.VacancySound s.visits := by
  intro hclean v hv
  have hinside : (v.slot, v.ticket) ∈ s.inside h :=
    List.mem_append_left _ (List.mem_map_of_mem hv)
  exact hs.tallies.ticket_eq hclean hinside

lemma tallies_moved {m : Move α ρ} (hcrossed : s.Crossed (s.crossing m) s')
    (hmatched : History.Matched (.moved s m :: h))
    (hn : History.arrivals (.moved s m :: h) < 2 ^ 64)
    (ht : s.inst.gate.Tallies (s.inside h) h.arrivals) :
    s'.inst.gate.Tallies (s'.inside (.moved s m :: h)) (History.arrivals (.moved s m :: h)) := by
  rw [History.arrivals_cons] at hn ⊢
  rcases hcrossed.inside_cases hmatched with ⟨hgate, hinside, hcount⟩ |
    ⟨slot, ticket, harrive, hinside, hcount⟩ | ⟨slot, ticket, hgate, hinside, hcount⟩
  · rw [hgate, hinside, hcount, Nat.zero_add]
    exact ht
  · rw [hcount, Nat.add_comm] at hn ⊢
    obtain ⟨g', harrive', htallies⟩ := ht.arrive hn slot
    rw [harrive] at harrive'
    cases harrive'
    exact htallies.perm hinside.symm
  · rw [hcount, Nat.zero_add] at hn ⊢
    obtain ⟨g', hdepart, htallies⟩ := (ht.perm hinside).depart hn
    rw [hgate, hdepart]
    exact htallies

lemma moved {m : Move α ρ} {r : Except Failure (Answer Version α)} (hact : s.act m = (r, s'))
    (hm : s.Moved m r s') (hmatched : History.Matched (.moved s m :: h))
    (hn : History.arrivals (.moved s m :: h) < 2 ^ 64) (hs : ReadersSafe s h c) :
    ReadersSafe s' (.moved s m :: h) c := by
  have hcrossed := s.crossed_act m
  rw [hact] at hcrossed
  exact ⟨hs.toTargetFree.moved hact hm, tallies_moved hcrossed hmatched hn hs.tallies⟩

end ReadersSafe

lemma Instance.Look.tallies {s : Instance Versioned Version α ρ} {r : Request α ρ}
    {gate : Versioned} {registry : Registry} {note : Writer α → Writer α}
    {readers : List (Slot × Version)} {n : Nat} (h : s.Look r gate registry note)
    (ht : s.gate.Tallies readers n) (side : Side) (p : Pass)
    (hn : (Action.applied s side p r : Action Versioned Version Version α ρ).arrivals + n <
      2 ^ 64) :
    gate.Tallies readers
      ((Action.applied s side p r : Action Versioned Version Version α ρ).arrivals + n) := by
  rcases h.visited side p with hgate | ⟨hcount, -, slot, ticket, entered, -, hvisited⟩
  · rw [hgate]
    exact fun v => (ht v).mono (Nat.le_add_left _ _)
  · rw [hcount, Nat.add_comm] at hn ⊢
    exact ht.visited hn hvisited

namespace ReadersSafe

variable {s : Session Versioned Version Version α ρ} {t : Instance Versioned Version α ρ}
  {h actions : History Versioned Version Version α ρ} {c c' : Control Version α ρ}

lemma tallies_staged (hstaged : Instance.Staged s.inst c actions t c')
    (hn : History.arrivals (actions ++ h) < 2 ^ 64) {readers : List (Slot × Version)}
    (ht : s.inst.gate.Tallies readers h.arrivals) :
    t.gate.Tallies readers (History.arrivals (actions ++ h)) := by
  cases hstaged with
  | quiet | clear => exact ht
  | elect | turn | shift =>
    simp only [List.nil_append, List.cons_append, History.arrivals_cons, Action.arrivals,
      Nat.zero_add]
    exact ht
  | apply hpass =>
    obtain ⟨registry, note, hlook⟩ := Instance.pass_look hpass
    exact hlook.tallies ht _ _ hn
  | giveUp hpass =>
    obtain ⟨registry, note, hlook⟩ := Instance.pass_look hpass
    rw [Instance.gate_abandon]
    simp only [List.cons_append, List.nil_append, History.arrivals_cons,
      show Action.arrivals (.abandoned _) = 0 from rfl, Nat.zero_add] at hn ⊢
    exact hlook.tallies ht _ _ hn
  | complete =>
    rw [Instance.gate_complete]
    simpa [Action.arrivals] using ht
  | surplus hcleared => cases hcleared

lemma staged (hstaged : Instance.Staged s.inst c actions t c')
    (hn : History.arrivals (actions ++ h) < 2 ^ 64) (hs : ReadersSafe s h c) :
    ReadersSafe { s with inst := t } (actions ++ h) c' := by
  refine ⟨hs.toTargetFree.staged hstaged hs.vacancySound, ?_⟩
  have hinside : ({ s with inst := t } : Session Versioned Version Version α ρ).inside
      (actions ++ h) = s.inside h := by
    simp only [Session.inside, History.rawReaders_append hstaged.crossing]
  rw [hinside]
  exact tallies_staged hstaged hn hs.tallies

end ReadersSafe

/-! ## Reads within applications -/

/-- A read with a new slot succeeds: neither its arrival nor its departure is refused. -/
def Instance.ReadsSucceed (s : Instance Versioned Version α ρ) : Prop :=
  ∀ f, s.readAnew.1 ≠ .error (.fault f none)

/-- It suffices that the next slot may arrive and depart. -/
lemma Instance.readsSucceed_of_register {s : Instance Versioned Version α ρ}
    (h : ∀ slot registry, s.registry.register = .ok (slot, registry) → ∃ ticket entered events left,
      Gate.arrive s.gate slot.index = .ok (ticket, entered) ∧
        Gate.depart entered slot.index ticket = (.ok events, left)) : s.ReadsSucceed := by
  intro f hfault
  simp only [readAnew, show Gate.slotted Versioned = true from rfl, if_true, register] at hfault
  rcases hregister : s.registry.register with e | ⟨slot, registry⟩
  · rw [hregister] at hfault
    cases hfault
  · obtain ⟨hslot, hid, -⟩ := Registry.register_spec hregister
    obtain ⟨ticket, entered, events, left, harrive, hdepart⟩ := h slot registry hregister
    have hissuer : slot.issuer = registry.id := hslot.trans hid.symm
    simp only [hregister, read, enter, arrive, report, hissuer, if_true, harrive, leave, dismiss,
      hdepart] at hfault
    cases hfault

/-- The read that an application is about to make succeeds. -/
lemma ReadersSafe.readsSucceed {s : Session Versioned Version Version α ρ}
    {h : History Versioned Version Version α ρ} {c : Control Version α ρ} (hs : ReadersSafe s h c)
    {side : Side} {p : Pass} {r : Request α ρ}
    (hn : History.arrivals (.applied s.inst side p r :: h) < 2 ^ 64)
    (hobserved : r.observed = true) :
    s.inst.ReadsSucceed := by
  refine Instance.readsSucceed_of_register fun slot registry hregister => ?_
  have hcount :
      (Action.applied s.inst side p r : Action Versioned Version Version α ρ).arrivals = 1 := by
    simp [Action.arrivals, hobserved, Instance.admitsLook, hregister, Except.isOk, Except.toBool]
  rw [History.arrivals_cons, hcount, Nat.add_comm] at hn
  obtain ⟨entered, harrive, htallies⟩ := hs.tallies.arrive hn slot
  obtain ⟨left, hdepart, -⟩ := htallies.depart hn
  exact ⟨_, entered, _, left, harrive, hdepart⟩

/-! ## At every point -/

/-- At this point no reader is disturbed. -/
structure Undisturbed (p : Point Versioned Version Version α ρ) : Prop where
  /-- the mutation about to be applied changes a copy that was given to no query -/
  apart : ∀ pass done x rest old, p.control = .passing pass done (x :: rest) old →
    ∀ v ∈ p.session.visits, v.side ≠ pass.target old
  /-- whatever the next tick is, the copy given to a query does not change -/
  given_eq : ∀ t, ∀ v ∈ p.session.visits, (p.next t).inst.given v = p.inst.given v
  /-- it is still the same as when the query began -/
  given : p.session.visits.map p.inst.given = p.history.opened
  /-- a query that returns has the same copy at its end as at its start -/
  ends : ∀ a rest, p.history.opened = a :: rest →
    (p.session.act (.leave false)).1 = .ok (.copy a)
  /-- every query may depart, in any order -/
  leave : ∀ v ∈ p.session.visits, (p.inst.leave v).1 = .ok ()
  /-- the reads made by applications have succeeded, too -/
  looks : p.history.Looked Instance.ReadsSucceed

/-- The invariant of a fresh instance. -/
lemma readersSafe_start {kind : IndicatorKind} (hkind : kind.Counting) (style : Style) (c : Config)
    (init : Copies α) :
    ReadersSafe (.ofInstance (.ofStyle style kind c init)) []
      (Point.start (.ofInstance (.ofStyle style kind c init)) :
        Point Versioned Version Version α ρ).stage := by
  have hgate := Instance.gate_ofStyle (ρ := ρ) style kind c init
  have hstage : (Point.start (.ofInstance (.ofStyle style kind c init)) :
      Point Versioned Version Version α ρ).stage = .resting :=
    Instance.stage_resting (Instance.round_ofStyle style kind c init)
  have htallies : (Versioned.ofConfig kind c).Tallies [] 0 := Versioned.tallies_ofConfig hkind c
  rw [hstage]
  refine ⟨⟨?_, nofun, rfl⟩, ?_⟩
  · rw [Session.ofInstance, hgate]
    exact (htallies _).isEmpty_iff.2 rfl
  · rw [Session.ofInstance, hgate]
    exact htallies

/-- `ReadersSafe` holds at every point of every schedule. -/
lemma readersSafe_after {kind : IndicatorKind} (hkind : kind.Counting) (style : Style) (c : Config)
    (init : Copies α) (ticks : List (Tick α ρ)) :
    let p := (Point.start (.ofInstance (.ofStyle style kind c init))).after ticks
    p.history.Matched → p.history.arrivals < 2 ^ 64 →
      ReadersSafe p.session p.history p.stage ∧ p.history.Looked Instance.ReadsSucceed := by
  refine Point.stage_after
    (P := fun s h c => h.Matched → h.arrivals < 2 ^ 64 →
      ReadersSafe s h c ∧ h.Looked Instance.ReadsSucceed)
    (fun _ hact hm hP hmatched hn => ?_) (fun hstaged hP hmatched hn => ?_)
    (fun hP hmatched hn => ?_) ?_ fun _ _ => ⟨readersSafe_start hkind style c init, .nil⟩
  · obtain ⟨hs, hu⟩ := hP hmatched.1 (Nat.lt_of_le_of_lt (Nat.le_add_left _ _) hn)
    exact ⟨hs.moved hact hm hmatched hn, hu.cons (by simp)⟩
  · obtain ⟨hs, hu⟩ := hP hmatched.of_append (Nat.lt_of_le_of_lt History.arrivals_le_append hn)
    refine ⟨hs.staged hstaged hn, hu.staged hstaged ?_⟩
    rintro side p r more rfl
    rw [List.append_assoc] at hn
    exact hs.readsSucceed (Nat.lt_of_le_of_lt History.arrivals_le_append hn)
  · rw [History.arrivals_cons, show Action.arrivals (.emptied _ _) = 0 from rfl, Nat.zero_add] at hn
    obtain ⟨hs, hu⟩ := hP hmatched.1 hn
    refine ⟨⟨⟨hs.fits, hs.sided, hs.opened⟩, ?_⟩, hu.cons (by simp)⟩
    rw [History.arrivals_cons, show Action.arrivals (.emptied _ _) = 0 from rfl, Nat.zero_add]
    exact hs.tallies
  · exact Session.exclusive_ofStyle style kind c init

/-- No reader is disturbed if the gate is sound and dismisses the readers inside. -/
lemma TargetFree.undisturbed {p : Point Versioned Version Version α ρ}
    (hp : p.session.Exclusive p.control) (hs : TargetFree p.session p.history p.stage)
    (hsound : p.inst.gate.VacancySound p.session.visits)
    (hleave : ∀ v ∈ p.session.visits, (p.inst.leave v).1 = .ok ())
    (hu : p.history.Looked Instance.ReadsSucceed) : Undisturbed p := by
  refine
    { apart := fun pass done x rest old hcontrol v hv => ?_
      given_eq := fun t v hv => ?_
      given := hs.opened
      ends := fun a rest hopened => ?_
      leave := hleave
      looks := hu }
  · -- the mutation is for the inactive copy, and every query is on the active side
    have hstage : p.stage = .passing pass done (x :: rest) old := Point.stage_of_passing hcontrol
    rw [hstage] at hs
    rw [hs.side_eq_of_passing hsound v hv]
    exact Side.opposite_ne _
  · cases t with
    | caller m =>
      have hcopies : (p.session.act m).2.inst.copies = p.session.inst.copies :=
        (p.session.moved_act m).copies_eq
      simp only [Point.inst, Point.next, Instance.given, hcopies]
    | writer =>
      have hstaged := Point.staged_next_writer hp
      exact List.map_inj_left.1 (hs.given_staged hsound hstaged) v hv
    | outbox => rfl
  · rcases hvisits : p.session.visits with _ | ⟨v, visits⟩
    · rw [← hs.opened, hvisits] at hopened
      cases hopened
    · rw [← hs.opened, hvisits, List.map_cons] at hopened
      obtain ⟨rfl, -⟩ := List.cons.inj hopened
      have hv := hleave v (hvisits ▸ List.mem_cons_self)
      simp only [Session.act, hvisits]
      rw [show (p.session.inst.leave v).1 = .ok () from hv]

/-- `ReadersSafe` implies that no reader is disturbed. -/
lemma ReadersSafe.undisturbed {p : Point Versioned Version Version α ρ}
    (hp : p.session.Exclusive p.control) (hn : p.history.arrivals < 2 ^ 64)
    (hs : ReadersSafe p.session p.history p.stage) (hu : p.history.Looked Instance.ReadsSucceed) :
    Undisturbed p := by
  refine hs.toTargetFree.undisturbed hp hs.vacancySound (fun v hv => ?_) hu
  have hinside : (v.slot, v.ticket) ∈ p.session.inside p.history :=
    List.mem_append_left _ (List.mem_map_of_mem hv)
  obtain ⟨left, hdepart, -⟩ := (hs.tallies.perm (List.perm_cons_erase hinside)).depart hn
  simp only [Instance.leave, Instance.dismiss, Point.inst, hdepart]

/-- Over counting read-indicators writers never change a copy given to a reader: at every point of
every schedule whose raw departures are matched, as long as the arrivals fit a 64-bit word, no
reader is disturbed. Every script is such a schedule. -/
theorem counted_readers_undisturbed {kind : IndicatorKind} (hkind : kind.Counting) (style : Style)
    (c : Config) (init : Copies α) :
    let start : Session Versioned Version Version α ρ := .ofInstance (.ofStyle style kind c init)
    (∀ ticks, let p := (Point.start start).after ticks
      p.history.Matched → p.history.arrivals < 2 ^ 64 → Undisturbed p) ∧
      ∀ script, ∃ ticks, start.IsScheduleOf script ticks := by
  intro start
  have hexclusive : start.Exclusive .resting := Session.exclusive_ofStyle style kind c init
  refine ⟨fun ticks hmatched hn => ?_,
    Session.exists_isScheduleOf hexclusive (Instance.still_ofStyle style kind c init)⟩
  obtain ⟨hs, hu⟩ := readersSafe_after hkind style c init ticks hmatched hn
  exact hs.undisturbed (Point.exclusive_after hexclusive ticks) hn hu

/-- A raw reader and a query are inside when a writer begins, which waits for both; the next query
is given the changed copy, and is still inside when the second application ends in a fault. -/
def tornWhileReading : List (Tick Nat Nat) :=
  let torn : Mutation Nat Nat :=
    ⟨fun application n => ⟨n + 1, if application = 2 then .error "torn" else .ok n⟩⟩
  [.caller .register, .caller .register, .caller (.arrive 0), .caller (.enter 1),
    .caller (.mutate 0 torn true), .writer, .writer, .writer, .writer, .writer,
    .caller (.leave false), .caller (.enter 1), .caller (.depart 0 0), .writer, .writer, .writer]

theorem counted_readers_undisturbed_torn :
    let c : Config := { maxThreads := 2, counterBuckets := 2, wait := .yield }
    let p := (Point.start (.ofInstance (.ofStyle .exclusive .hashed c ⟨5, 5⟩))).after
      tornWhileReading
    IndicatorKind.hashed.Counting ∧ p.history.Matched ∧ p.history.arrivals < 2 ^ 64 ∧
      Undisturbed p ∧ p.inst.copies = ⟨6, 6⟩ ∧ p.history.opened = [6] := by
  refine ⟨trivial, by decide +kernel, by decide +kernel, ?_, by decide +kernel, by decide +kernel⟩
  have hkind : IndicatorKind.hashed.Counting := trivial
  exact (counted_readers_undisturbed hkind .exclusive _ ⟨5, 5⟩).1 tornWhileReading
    (by decide +kernel) (by decide +kernel)

end TwinCopy
