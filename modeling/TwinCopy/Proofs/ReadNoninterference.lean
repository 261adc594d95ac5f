import TwinCopy.Proofs.TransparentGates
import TwinCopy.Proofs.WovenReads

/-!
# Non-interference of reads

Reads that are added to a script, at any point of it, have no effect that its other operations could
observe: these are answered as without the reads, let the same writers finish, and show the same
view. `Noninterference` compares the two runs of a woven script, and `reads_do_not_interfere` is the
statement for all gates.
-/

namespace TwinCopy

variable {γ κ δ α ρ : Type}

/-- The instance with a log at its gate. -/
def Instance.withLog (s : Instance γ δ α ρ) : Instance (LoggedGate γ κ) δ α ρ :=
  { s with gate := ⟨s.gate, []⟩ }

namespace Session

variable [Gate γ κ δ]

/-- The run of a woven script with the additional reads and the one without them have, up to a
projection, the same steps of the script's operations, the same final view, and the same ending. -/
structure Noninterference (l : Projection) (s : Session γ κ δ α ρ) (ws : List (Woven α ρ)) :
    Prop where
  steps : Step.projectAll l (Woven.thinAll ws (s.steps (Woven.fullAll ws)).1) =
    Step.projectAll l (s.steps (Woven.plainAll ws)).1
  view : (s.steps (Woven.fullAll ws)).2.inst.view.mapGate l.gate =
    (s.steps (Woven.plainAll ws)).2.inst.view.mapGate l.gate
  sameProgress : SameProgress (s.steps (Woven.plainAll ws)).2 (s.steps (Woven.fullAll ws)).2
  ending : (s.steps (Woven.fullAll ws)).2.ending = (s.steps (Woven.plainAll ws)).2.ending

variable [DecidableEq κ]

/-- Over the whole run of a woven script, additional reads are made with vacant slots, every
departure is of a reader inside, and the readers stay within a limit. -/
def Admissible (limit : List κ → Nat → Prop) (u : Instance γ δ α ρ) (ws : List (Woven α ρ)) :
    Prop :=
  let logged : Session (LoggedGate γ κ) κ δ α ρ := .ofInstance u.withLog
  logged.FreeSlotsAll ws ∧
    Transit.Regular limit (logged.steps (Woven.fullAll ws)).2.inst.gate.transits

instance (limit : List κ → Nat → Prop) [∀ tickets n, Decidable (limit tickets n)]
    (u : Instance γ δ α ρ) (ws : List (Woven α ρ)) : Decidable (Admissible limit u ws) :=
  inferInstanceAs (Decidable (_ ∧ _))

end Session

open Session

variable [Gate γ κ δ] [DecidableEq κ]

/-- At a read-transparent gate additional reads do not interfere. -/
theorem ReadTransparent.noninterference {l : Projection} {fine : LoggedGate γ κ → Prop}
    {Rel : γ → LoggedGate γ κ → Option (Phase (δ × δ)) → Prop} (H : ReadTransparent l fine Rel)
    (hfaithful : l.Faithful) (style : Style) (copies : Copies α) (gate : γ)
    (registry : Registry) (n : Nat)
    (wait : WaitPolicy) (hrel : Rel gate ⟨gate, []⟩ none) {ws : List (Woven α ρ)} :
    let logged : Session (LoggedGate γ κ) κ δ α ρ :=
      .ofInstance (.fresh style copies ⟨gate, []⟩ registry n wait)
    logged.FreeSlotsAll ws → fine (logged.steps (Woven.fullAll ws)).2.inst.gate →
      Noninterference l (ofInstance (.fresh style copies gate registry n wait) :
          Session γ κ δ α ρ) ws := by
  intro logged hslots hfine
  have hstart : SettledSim l Rel (ofInstance (.fresh style copies gate registry n wait)) logged :=
    settledSim_fresh style copies registry n wait hrel
  have hobeys := H.backwardClosed.obeysAll hstart.sim.exclusive' (Woven.fullAll ws) hfine
  obtain ⟨hsteps, hreads⟩ := ReadSim.weaveAll H hfaithful ⟨hstart, rfl, rfl⟩ ws hobeys hslots
  -- the log is a ghost variable, and is forgotten
  have F : GateHom (LoggedGate.gate : LoggedGate γ κ → γ) := LoggedGate.gateHom
  obtain ⟨hsame, hgraph⟩ :=
    steps_logged style copies gate registry n wait (Woven.fullAll ws)
  have hprogress := hreads.settled.sim.sameProgress H.toGateSim
  have hprogress' := hgraph.sameProgress (F.gateSim Projection.full)
  have hview : (logged.steps (Woven.fullAll ws)).2.inst.view = _ :=
    hgraph.view_eq (F.gateSim Projection.full)
  refine ⟨?_, ?_, ⟨?_, ?_, ?_, ?_, ?_⟩, ?_⟩
  · rw [← hsame]
    exact hsteps
  · rw [← hreads.settled.sim.view_eq H.toGateSim, hview]
    rfl
  · exact hprogress'.side.symm.trans hprogress.side
  · exact hprogress'.copies.symm.trans hprogress.copies
  · exact hprogress'.lock.symm.trans hprogress.lock
  · exact hprogress'.writers.symm.trans hprogress.writers
  · exact hprogress'.suspended.symm.trans hprogress.suspended
  · exact hgraph.ending_eq.symm.trans hreads.settled.sim.ending_eq

/-- Reads do not interfere, for all three gates and all kinds of read-indicators. Plain reads may be
added at the top level of a script or inside its queries, also while writers wait, and may return or
end in a fault; where readers need slots, no reader inside has the slot of an added one. Then every
other operation has the same answer, finishes the same writers, and shows the same side, version,
emptiness and counts of mutations and batches, and the copies at the end are the same. Where readers
are counted, the counters must not overflow and departures must be matched. For the word without
versions its counts, and how often they were rebased, are not compared. -/
theorem reads_do_not_interfere (c : Config) (init : Copies α) (ws : List (Woven α ρ)) :
    (∀ style kind, kind.Counting →
      Admissible (Versioned.Limit kind) (.ofStyle style kind c init) ws →
        Noninterference Projection.full (ofInstance (.ofStyle style kind c init)) ws) ∧
    (∀ style kind, ¬ kind.Counting →
      FreeSlotsAll (ofInstance (Instance.ofStyle style kind c init).withLog) ws →
        Noninterference Projection.full (ofInstance (.ofStyle style kind c init)) ws) ∧
    (Admissible VersionedWord.Limit (.versionedWord c init) ws →
      Noninterference Projection.full (ofInstance (.versionedWord c init)) ws) ∧
    (Admissible IngressWord.Limit (.ingressWord c init) ws →
      Noninterference Projection.withoutCounts (ofInstance (.ingressWord c init)) ws) := by
  refine ⟨?_, ?_, ?_, ?_⟩
  · intro style kind hkind hadmissible
    have H := (Versioned.readerDetermined kind).readTransparent
    have hstart : SameReaders Versioned.current id (Versioned.Knows kind) _ _ none :=
      .start (Versioned.knows_ofConfig hkind c)
    cases style <;> exact H.noninterference Projection.full_faithful _ _ _ _ _ _ hstart
      hadmissible.1 hadmissible.2
  · intro style kind hkind hslots
    have H := Versioned.FlagsOfReaders.readTransparent Projection.full
    have hstart := Versioned.flagsOfReaders_start hkind c
    cases style <;> exact H.noninterference Projection.full_faithful _ _ _ _ _ _ hstart
      hslots trivial
  · intro hadmissible
    exact VersionedWord.readerDetermined.readTransparent.noninterference Projection.full_faithful
      _ _ _ _ _ _
      (.start VersionedWord.knows_fresh) hadmissible.1 hadmissible.2
  · intro hadmissible
    exact IngressWord.readerDetermined.readTransparent.noninterference
      Projection.withoutCounts_faithful _ _ _ _ _ _
      (.start IngressWord.knows_fresh) hadmissible.1 hadmissible.2

/-- Reads are added before a query and, while a writer waits for it, inside it; one of them ends in
a fault. -/
def readsWhileWaiting : List (Woven Nat Nat) :=
  let grown : Mutation Nat Nat := ⟨fun _ n => ⟨n + 1, .ok n⟩⟩
  [.own (.single .register), .own (.single .register), .read 1 2 false,
    .query 0 false [.own (.single (.mutate 0 grown true)), .read 1 2 false, .own (.single .look),
      .read 1 1 true],
    .own (.single .look)]

theorem reads_do_not_interfere_waiting :
    let paired : Instance Versioned Version Nat Nat := .ofStyle .combining .paired .standard ⟨5, 5⟩
    let flagged : Instance Versioned Version Nat Nat :=
      .ofStyle .exclusive .flagged .standard ⟨5, 5⟩
    let packed : Instance VersionedWord Version Nat Nat := .versionedWord .standard ⟨5, 5⟩
    let ingress : Instance IngressWord IngressWord.Backlog Nat Nat := .ingressWord .standard ⟨5, 5⟩
    Noninterference Projection.full (ofInstance paired) readsWhileWaiting ∧
      ((ofInstance paired : Session Versioned Version Version Nat Nat).steps
        (Woven.fullAll readsWhileWaiting)).2.inst.gate ≠
      ((ofInstance paired : Session Versioned Version Version Nat Nat).steps
        (Woven.plainAll readsWhileWaiting)).2.inst.gate ∧
      Noninterference Projection.full (ofInstance flagged) readsWhileWaiting ∧
      Noninterference Projection.full (ofInstance packed) readsWhileWaiting ∧
      Noninterference Projection.withoutCounts (ofInstance ingress) readsWhileWaiting := by
  intro paired flagged packed ingress
  obtain ⟨hcounters, hflags, hpacked, hingress⟩ :=
    reads_do_not_interfere .standard (⟨5, 5⟩ : Copies Nat) readsWhileWaiting
  exact ⟨hcounters .combining .paired trivial (by decide +kernel), by decide +kernel,
    hflags .exclusive .flagged id (by decide +kernel), hpacked (by decide +kernel),
    hingress (by decide +kernel)⟩

end TwinCopy
