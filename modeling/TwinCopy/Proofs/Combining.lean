import TwinCopy.Proofs.Refinement

/-!
# Combining writers serve every request once

Under the combining style the writer that takes the lock serves all pending requests. The run is
divided into batches, each of them consisting of the requests published since the previous one was
taken; both copies get the same batches in the same order, and every writer gets the outcome of its
own request. No request is lost, duplicated or answered to another writer.
-/

namespace TwinCopy

variable {α ρ : Type}

/-- At this point combining writers have served an object with initial value `a`. -/
structure Combines (a : α) (p : Point Versioned Version Version α ρ) : Prop where
  /-- a batch consists of the requests published since the previous batch was taken, sorted by
  cells -/
  snapshots : p.history.WheneverTaken Snapshot
  /-- these are the requests published and not yet served -/
  unserved : p.history.WheneverTaken fun batch earlier =>
    earlier.published.Perm (requests earlier.completed ++ batch.map Prod.snd)
  /-- every request published is in exactly one batch, or is still at its cell -/
  calls : p.history.published.Perm (requests p.history.taken ++ p.history.unclaimed)
  /-- every writer started has published a request or was rejected -/
  started : (p.history.published.map Request.writer ++ p.history.turnedAway).Perm
    (List.range p.session.started)
  waiting : (p.inst.published.map Prod.snd).Perm
    (p.task?.elim [] (·.batch.map Prod.snd) ++ p.history.unclaimed)
  order : p.history.completed <+: p.history.turned ∧ p.history.turned <+: p.history.taken
  copies : ∀ side, p.inst.copies.get side = replay a (p.history.applied side)
  active : p.history.applied p.inst.activeSide = requests p.history.turned
  inactive : p.history.applied p.inst.activeSide.opposite = p.completed ++ p.underway
  outputs : (p.done.map Finished.answer).Perm
    (p.history.turnedAway.map (·, .error (.misuse .foreignSlot)) ++ answers a p.completed)
  batches : p.inst.batches = p.history.completed.length
  mutations : p.inst.mutations = (p.history.completed.map List.length).sum
  rest : p.inst.writers = [] → (∀ cell ∈ p.inst.cells, cell.request = none ∧ cell.result = none) ∧
    p.history.published.Perm p.completed ∧ p.inst.copies.left = p.inst.copies.right

/-- Every request is served exactly once: all batches taken are completed, and each request is in
exactly one of them. -/
structure History.Served {γ κ δ : Type} [Gate γ κ δ] (h : History γ κ δ α ρ) : Prop where
  taken : h.taken = h.completed
  once : ∀ r ∈ h.published,
    ∃! i : Nat, ∃ batch, h.completed[i]? = some batch ∧ r ∈ batch.map Prod.snd

/-- If no request is repeated, each is in exactly one batch. -/
lemma existsUnique_batch {batches : List (Batch α ρ)} (hnodup : (requests batches).Nodup)
    {r : Request α ρ} (hr : r ∈ requests batches) :
    ∃! i : Nat, ∃ batch, batches[i]? = some batch ∧ r ∈ batch.map Prod.snd := by
  induction batches with
  | nil => cases hr
  | cons first batches ih =>
    rw [requests_cons] at hnodup hr
    obtain ⟨-, hrest, hdisjoint⟩ := List.nodup_append'.1 hnodup
    rcases List.mem_append.1 hr with hr | hr
    · refine ⟨0, ⟨first, rfl, hr⟩, ?_⟩
      rintro (_ | i) ⟨batch, hi, hbatch⟩
      · rfl
      · have hmem : r ∈ requests batches := mem_requests.2 ⟨batch, List.mem_of_getElem? hi, hbatch⟩
        exact absurd hmem (hdisjoint hr)
    · obtain ⟨i, hi, hunique⟩ := ih hrest hr
      refine ⟨i + 1, hi, ?_⟩
      rintro (_ | j) ⟨batch, hj, hbatch⟩
      · cases hj
        exact absurd hr (hdisjoint hbatch)
      · exact congrArg (· + 1) (hunique j ⟨batch, hj, hbatch⟩)

/-- When no writer is inside every request is served: every request is in a batch or still at its
cell, and all requests are those of the completed batches. -/
lemma Combines.served {a : α} {p : Point Versioned Version Version α ρ} (hp : Combines a p)
    (hwriters : p.inst.writers = []) : p.history.Served := by
  obtain ⟨-, hcompleted, -⟩ := hp.rest hwriters
  have htaken : p.history.taken = p.history.completed := by
    obtain ⟨more, hmore⟩ := hp.order.1.trans hp.order.2
    have hcalls := hp.calls.symm.trans hcompleted
    rw [← hmore, requests_append, List.append_assoc] at hcalls
    have hlength := hcalls.length_eq
    have hnone : requests more = [] := by
      rw [List.length_append, List.length_append] at hlength
      exact List.length_eq_zero_iff.1 (by rw [Point.completed] at hlength; omega)
    have hne : ∀ batch ∈ more, batch ≠ [] := fun batch hbatch =>
      hp.snapshots.ne_nil (hmore ▸ List.mem_append_right _ hbatch)
    rw [← hmore, eq_nil_of_requests hne hnone, List.append_nil]
  refine ⟨htaken, fun r hr => existsUnique_batch ?_ (hcompleted.subset hr)⟩
  have hnumbers := (hp.started.nodup_iff.2 List.nodup_range).of_append_left
  exact hcompleted.nodup_iff.1 hnumbers.of_map

/-- When no writer is inside no round is under way, as a round has a batch of requests of writers
inside. -/
lemma RegularInv.task?_eq_none {γ κ δ : Type} [Gate γ κ δ] {init : Copies α} {p : Point γ κ δ α ρ}
    (hb : RegularInv init p.session p.history p.task?) (hwriters : p.inst.writers = []) :
    p.task? = none := by
  have hl : CopyInv init p.history p.inst p.task? := hb.copyInv
  have hd : CellInv p.inst.cells p.inst.writers p.session.started p.task? := hb.cellInv
  rcases htask : p.task? with _ | u
  · rfl
  · have hmem : u.batch ∈ p.history.taken := by
      rw [hl.taken, htask]
      exact List.mem_append_right _ (List.mem_singleton_self _)
    obtain ⟨x, hx⟩ := List.exists_mem_of_ne_nil _ (hb.requestInv.snapshots.ne_nil hmem)
    have hsome := hd.batch u htask x hx
    rw [hd.request_eq_none (by simp [hwriters])] at hsome
    cases hsome

/-- When no writer is inside there is no pending request. -/
lemma RegularInv.unclaimed_eq_nil {γ κ δ : Type} [Gate γ κ δ] {init : Copies α}
    {p : Point γ κ δ α ρ}
    (hb : RegularInv init p.session p.history p.task?) (hwriters : p.inst.writers = []) :
    p.inst.published = [] ∧ p.history.unclaimed = [] := by
  have hd : CellInv p.inst.cells p.inst.writers p.session.started p.task? := hb.cellInv
  have hpublished : p.inst.published = [] := by
    refine List.eq_nil_iff_forall_not_mem.2 fun x hx => ?_
    have hsome := Instance.mem_published.1 hx
    rw [hd.request_eq_none (by simp [hwriters])] at hsome
    cases hsome
  have hpending : (p.inst.published.map Prod.snd).Perm _ := hb.requestInv.pending
  rw [hpublished, hb.task?_eq_none hwriters] at hpending
  exact ⟨hpublished, hpending.nil_eq.symm⟩

/-- When no writer is inside both copies have exactly the completed batches. -/
lemma RegularInv.get_eq_replay {γ κ δ : Type} [Gate γ κ δ] {a : α} {p : Point γ κ δ α ρ}
    (hb : RegularInv ⟨a, a⟩ p.session p.history p.task?) (hwriters : p.inst.writers = [])
    (side : Side) :
    p.inst.copies.get side = replay a p.completed := by
  have hl : CopyInv ⟨a, a⟩ p.history p.inst p.task? := hb.copyInv
  have hactive := hl.active
  have hinactive := hl.inactive
  rw [hl.turned, hb.task?_eq_none hwriters] at hactive
  rw [hb.task?_eq_none hwriters] at hinactive
  simp only [Option.elim_none, List.append_nil] at hactive hinactive
  have happlied : p.history.applied side = p.completed := by
    rcases Side.eq_or_eq_opposite side p.inst.activeSide with rfl | rfl
    · exact hactive
    · exact hinactive
  rw [hl.copies, happlied]
  cases side <;> rfl

/-- When no writer is inside all requests are completed and the cells are blank. -/
lemma RegularInv.rest {γ κ δ : Type} [Gate γ κ δ] {a : α} {p : Point γ κ δ α ρ}
    (hb : RegularInv ⟨a, a⟩ p.session p.history p.task?) (hwriters : p.inst.writers = []) :
    (∀ cell ∈ p.inst.cells, cell.request = none ∧ cell.result = none) ∧
      p.history.published.Perm p.completed ∧ p.inst.copies.left = p.inst.copies.right := by
  have hl : CopyInv ⟨a, a⟩ p.history p.inst p.task? := hb.copyInv
  have hd : CellInv p.inst.cells p.inst.writers p.session.started p.task? := hb.cellInv
  have htask : p.task? = none := hb.task?_eq_none hwriters
  refine ⟨fun cell hcell => ?_, ?_, ?_⟩
  · obtain ⟨i, hi⟩ := List.mem_iff_getElem?.1 hcell
    have hat : cellAt p.inst.cells i = cell := by rw [cellAt, hi, Option.getD_some]
    have hresult := hd.result i
    rw [htask, hat] at hresult
    refine ⟨hat ▸ hd.request_eq_none (by simp [hwriters]), ?_⟩
    rcases hr : cell.result with _ | o
    · rfl
    · rw [hr] at hresult
      obtain ⟨u, hu, -⟩ := hresult.1 rfl
      cases hu
  · have hcalls := hb.requestInv.snapshots.published_perm
    rw [hl.taken, htask, (hb.unclaimed_eq_nil hwriters).2] at hcalls
    simpa [Point.completed] using hcalls
  · exact (hb.get_eq_replay hwriters .left).trans (hb.get_eq_replay hwriters .right).symm

lemma RegularInv.combines {a : α} {p : Point Versioned Version Version α ρ}
    (hb : RegularInv ⟨a, a⟩ p.session p.history p.task?) : Combines a p := by
  have hl : CopyInv ⟨a, a⟩ p.history p.inst p.task? := hb.copyInv
  have hget : ∀ side, (⟨a, a⟩ : Copies α).get side = a := by rintro (_ | _) <;> rfl
  refine
    { snapshots := hb.requestInv.snapshots
      unserved := ?_
      calls := hb.requestInv.snapshots.published_perm
      started := hb.numbered
      waiting := hb.requestInv.pending
      order := ?_
      copies := fun side => by rw [hl.copies, hget]
      active := hl.active
      inactive := hl.inactive
      outputs := (hb.outputInv a rfl).finished
      batches := hl.batches
      mutations := ?_
      rest := fun hwriters => ?_ }
  · -- when a batch is taken all those before it are completed
    intro later batch earlier heq
    have hsnapshot := hb.requestInv.snapshots later batch earlier heq
    have hearlier : History.WheneverTaken Snapshot earlier :=
      (heq ▸ hb.requestInv.snapshots).of_append.tail
    have hpublished := hearlier.published_perm
    rw [hb.settled later batch earlier heq] at hpublished
    exact hpublished.trans (hsnapshot.perm.symm.append_left _)
  · refine ⟨⟨_, hl.turned.symm⟩, ?_⟩
    rw [hl.turned, hl.taken]
    refine (List.prefix_append_right_inj _).2 ?_
    rcases p.task? with _ | ⟨_ | _, done, rest, old⟩
    · exact List.prefix_rfl
    · exact List.nil_prefix
    · exact List.prefix_rfl
  · rw [hl.mutations, requests, List.length_map, List.length_flatten]
  · exact hb.rest hwriters

/-- Combining writers serve every request exactly once, for every kind of read-indicator and any
number of slots: at every point of every schedule, and so throughout every script. Once no writer is
inside, every request is in exactly one completed batch. -/
theorem combining_serves_exactly_once (kind : IndicatorKind) (c : Config) (a : α) :
    let start : Session Versioned Version Version α ρ := .ofInstance (.combining kind c ⟨a, a⟩)
    (∀ ticks, Regularly ticks → let p := (Point.start start).after ticks
      Combines a p ∧ (p.inst.writers = [] → p.history.Served)) ∧
      ∀ script, (∀ m ∈ Operation.movesOfAll script, m.Regular) →
        ∃ ticks, Regularly ticks ∧ start.IsScheduleOf script ticks := by
  intro start
  have hs : start.Exclusive .resting := Session.exclusive_fresh _ _ _ _ _ _
  refine ⟨fun ticks hticks => ?_, fun script hscript => ?_⟩
  · have hcombines : Combines a ((Point.start start).after ticks) :=
      (regularInv_after hs rfl (.start (Session.enoughCells_bounded rfl _ _ _ _)) hticks).combines
    exact ⟨hcombines, hcombines.served⟩
  · obtain ⟨ticks, hticks⟩ := Session.exists_isScheduleOf hs rfl script
    exact ⟨ticks, fun m hm => hscript m (hticks.mem_moves hm), hticks⟩

/-- A writer waits for a query, and two more publish their requests meanwhile. -/
def countedTogether : List (Tick Nat Nat) :=
  let count : Mutation Nat Nat := .ofFunction fun n => (n + 1, n)
  [.caller .register, .caller .register, .caller .register, .caller (.enter 0),
    .caller (.mutate 2 count false), .writer, .writer, .writer, .writer, .writer,
    .caller (.mutate 1 count false), .caller (.mutate 0 count true), .caller (.leave false),
    .writer, .writer, .writer, .writer, .writer, .writer, .writer, .writer, .writer, .writer,
    .writer, .writer, .writer]

theorem combining_serves_exactly_once_counted :
    Regularly countedTogether ∧
      let p := (Point.start (.ofInstance
        (.combining .single { maxThreads := 3, counterBuckets := 1, wait := .yield }
          ⟨5, 5⟩))).after countedTogether
      Combines 5 p ∧ p.history.Served ∧ p.inst.copies = ⟨8, 8⟩ ∧
        p.history.completed.map (·.map Prod.fst) = [[2], [0, 1]] ∧
        p.done.map Finished.answer = [(0, .ok 5), (1, .ok 7), (2, .ok 6)] := by
  have hticks : Regularly countedTogether := by
    intro m hm
    simp only [countedTogether, List.mem_cons, Tick.caller.injEq, reduceCtorEq, false_or,
      or_false, List.not_mem_nil] at hm
    rcases hm with rfl | rfl | rfl | rfl | rfl | rfl | rfl | rfl
    · trivial
    · trivial
    · trivial
    · trivial
    · exact ⟨_, rfl⟩
    · exact ⟨_, rfl⟩
    · exact ⟨_, rfl⟩
    · trivial
  obtain ⟨hcombines, hserved⟩ := (combining_serves_exactly_once .single
    { maxThreads := 3, counterBuckets := 1, wait := .yield } 5).1 _ hticks
  exact ⟨hticks, hcombines, hserved rfl, rfl, rfl, rfl⟩

end TwinCopy
