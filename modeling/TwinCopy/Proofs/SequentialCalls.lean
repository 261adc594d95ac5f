import TwinCopy.Proofs.Steady

/-!
# Mutations one after the other

If mutations are made one after the other, and every query ends before anything else is done, no
writer ever waits: each mutation is a batch of its own, it is completed before the next one, and its
output is that of a single object. `Session.Sequential` is the invariant, with a lemma for each
thing that may be done next: `Sequential.next` for moves that start no writer, and
`Sequential.mutate` for a mutation. `Session.Allows` is the assumption on the limits of the gate.

`Registry.Spare` is the number of slots that may still be claimed, which grows when slots are
dropped.
-/

namespace TwinCopy

variable {γ κ δ α ρ : Type}

/-! ## Spare slots -/

namespace Registry

/-- At least `n` more slots may be claimed. -/
def Spare (r : Registry) (n : Nat) : Prop :=
  match r.claims with
  | .bounded claimed => n ≤ claimed.count false
  | .unbounded _ => True

variable {r r' : Registry} {n i : Nat}

lemma Spare.mono (h : r.Spare n) {m : Nat} (hm : m ≤ n) : r.Spare m := by
  obtain ⟨id, claimed | next⟩ := r
  · exact Nat.le_trans hm h
  · trivial

lemma spare_of_capacity (h : r.capacity = none) (n : Nat) : r.Spare n := by
  obtain ⟨id, claimed | next⟩ := r
  · cases h
  · trivial

lemma spare_ofCapacity {id : Nat} {capacity : Option Nat} (h : ∀ m, capacity = some m → n ≤ m) :
    (ofCapacity id capacity).Spare n := by
  rcases capacity with _ | m
  · trivial
  · change n ≤ (List.replicate m false).count false
    rw [List.count_replicate_self]
    exact h m rfl

/-- With a spare slot registering succeeds. -/
lemma Spare.exists_register (h : r.Spare (n + 1)) :
    ∃ slot r', r.register = .ok (slot, r') ∧ r'.Spare n := by
  obtain ⟨id, claimed | next⟩ := r
  · have hcount : n + 1 ≤ claimed.count false := h
    have hmem : false ∈ claimed := List.count_pos_iff.1 (by omega)
    rcases hfree : claimed.findIdx? (! ·) with _ | i
    · simpa using List.findIdx?_eq_none_iff.1 hfree false hmem
    · obtain ⟨hlt, hi, -⟩ := List.findIdx?_eq_some_iff_getElem.1 hfree
      refine ⟨⟨id, i⟩, ⟨id, .bounded (claimed.set i true)⟩, by simp [register, hfree], ?_⟩
      change n ≤ (claimed.set i true).count false
      rw [List.count_set hlt]
      simp only [Bool.not_eq_eq_eq_not, Bool.not_true] at hi
      simpa [hi] using Nat.le_sub_of_add_le hcount
  · exact ⟨_, _, rfl, trivial⟩

/-- Releasing a slot leaves at least as many spare ones. -/
lemma Spare.release (h : r.Spare n) (i : Nat) : (r.release i).Spare n := by
  obtain ⟨id, claimed | next⟩ := r
  · change n ≤ (claimed.set i false).count false
    have hcount : n ≤ claimed.count false := h
    by_cases hi : i < claimed.length
    · rw [List.count_set hi, beq_self_eq_true, if_pos rfl]
      split <;> omega
    · rwa [List.set_eq_of_length_le (Nat.le_of_not_lt hi)]
  · trivial

/-- After a slot was released there is a spare one. -/
lemma Taken.spare_release (h : r.Taken i) : (r.release i).Spare 1 := by
  obtain ⟨claimed, hclaims, htaken⟩ := h
  obtain ⟨hlt, -⟩ := List.getElem?_eq_some_iff.1 htaken
  simp only [Registry.release, hclaims, Spare]
  exact List.count_pos_iff.2 (List.mem_set hlt false)

end Registry

variable [Gate γ κ δ]

namespace Session

/-- At least `n` more slots may be claimed, if readers need slots. -/
def Spare (s : Session γ κ δ α ρ) (n : Nat) : Prop :=
  Gate.slotted γ = true → s.inst.registry.Spare n

lemma Spare.mono {s : Session γ κ δ α ρ} {n m : Nat} (h : s.Spare n) (hm : m ≤ n) : s.Spare m :=
  fun hslotted => (h hslotted).mono hm

/-- The writers make no step after a move that leaves none inside. -/
lemma perform_of_writers {s : Session γ κ δ α ρ} {m : Move α ρ}
    (h : (s.act m).2.inst.writers = []) : s.perform m = s.act m := by
  simp only [perform, Instance.settle, h, List.isEmpty_nil, if_true]

/-- Only a mutation admits a writer. -/
lemma writers_act {s : Session γ κ δ α ρ} {m : Move α ρ}
    (hm : ∀ k mutation observed, m ≠ .mutate k mutation observed) :
    (s.act m).2.inst.writers = s.inst.writers := by
  have hmoved := s.moved_act m
  generalize (s.act m).1 = r at hmoved
  generalize (s.act m).2 = t at hmoved
  cases hmoved with
  | published | turnedAway => exact absurd rfl (hm _ _ _)
  | _ => rfl

/-- A query claims and releases no slots, neither at its begin nor at its end. -/
lemma Moved.slots_eq_of_query {s t : Session γ κ δ α ρ} {m : Move α ρ}
    {r : Except Failure (Answer κ α)} (hm : s.Moved m r t)
    (hquery : (∃ k, m = .enter k) ∨ ∃ gaveUp, m = .leave gaveUp) :
    t.table = s.table ∧ t.inst.registry = s.inst.registry := by
  rcases hquery with ⟨k, rfl⟩ | ⟨gaveUp, rfl⟩ <;> cases hm <;> exact ⟨rfl, rfl⟩

/-- Dropping a slot leaves at least as many spare ones. -/
lemma Moved.spare_of_drop {s t : Session γ κ δ α ρ} {k n : Nat} {r : Except Failure (Answer κ α)}
    (hm : s.Moved (.drop k) r t) (h : s.Spare n) : t.Spare n := by
  intro hslotted
  cases hm with
  | dropped => exact (h hslotted).release _
  | looked _ hlook => cases hlook
  | _ => exact h hslotted

/-- A slot is found at a place if it is still in the table. -/
lemma isSome_slot?_of_table {s t : Session γ κ δ α ρ} {k : Nat}
    (htable : ∀ slot, s.table[k]? = some (some slot) → t.table[k]? = some (some slot))
    (h : (s.slot? k).isSome = true) : (t.slot? k).isSome = true := by
  by_cases hslotted : Gate.slotted γ = true
  · obtain ⟨slot, hslot⟩ := Option.isSome_iff_exists.1 h
    rw [slot?, if_pos hslotted, htable slot (getElem?_of_slot? hslotted hslot)]
    rfl
  · rw [slot?, if_neg hslotted]
    rfl

/-- Dropping a slot leaves the others in place. -/
lemma Moved.getElem?_table_of_drop {s t : Session γ κ δ α ρ} {k : Nat}
    {r : Except Failure (Answer κ α)} (hm : s.Moved (.drop k) r t) {i : Nat} (hne : k ≠ i) :
    t.table[i]? = s.table[i]? := by
  cases hm with
  | dropped | droppedForeign => exact List.getElem?_set_ne hne
  | _ => rfl

lemma Moved.visits_eq_of_drop {s t : Session γ κ δ α ρ} {k : Nat} {r : Except Failure (Answer κ α)}
    (hm : s.Moved (.drop k) r t) : t.visits = s.visits := by
  cases hm <;> rfl

/-- A mutation claims and releases no slots. -/
lemma Exclusive.spare_mutate {s : Session γ κ δ α ρ} (hs : s.Exclusive .resting) {n : Nat}
    (h : s.Spare n) (k : Nat) (mutation : Mutation α ρ) (observed : Bool) :
    (s.perform (.mutate k mutation observed)).2.Spare n := by
  obtain ⟨m, history, hafter⟩ := exists_after_perform hs (.mutate k mutation observed) []
  let ticks : List (Tick α ρ) := .caller (.mutate k mutation observed) :: List.replicate m .writer
  have hspare : ((Point.mk [] s .resting).after ticks).session.Spare n :=
    Point.stage_after (P := fun t _ _ => t.Spare n) (fun {t h c m r t'} hmem hact hm ht => ?_)
      (fun {t h c actions inst c'} hstaged ht => ?_) id hs h
  · rwa [hafter] at hspare
  · obtain rfl : m = .mutate k mutation observed := by
      rcases List.mem_cons.1 hmem with heq | hmem
      · exact (Tick.caller.inj heq)
      · cases List.eq_of_mem_replicate hmem
    cases hm with
    | looked _ hlook => cases hlook
    | _ => exact ht
  · intro hslotted
    rcases hcapacity : t.inst.registry.capacity with _ | capacity
    · exact Registry.spare_of_capacity (hstaged.progress.frame.2.2.1.trans hcapacity) n
    · rw [hstaged.registry_eq hcapacity]
      exact ht hslotted

end Session

/-! ## Points between mutations -/

/-- A query that begins by this action finds no other one under way. -/
def Action.Alone : Action γ κ δ α ρ → Prop
  | .moved s m =>
      match s.crossing m with
      | .entered _ => s.visits = []
      | _ => True
  | _ => True

lemma Action.alone_of_crossing {d : Action γ κ δ α ρ} (h : d.crossing = .absent) : d.Alone := by
  cases d with
  | moved s m =>
    have hcrossing : s.crossing m = .absent := h
    rw [Alone, hcrossing]
    trivial
  | _ => trivial

lemma Action.alone_of_visits {s : Session γ κ δ α ρ} (h : s.visits = []) (m : Move α ρ) :
    (Action.moved s m).Alone := by
  rw [Alone]
  split
  · exact h
  · trivial

/-- One move admits at most one reader. -/
lemma Action.arrivals_moved_le (s : Session γ κ δ α ρ) (m : Move α ρ) :
    (Action.moved s m).arrivals ≤ 1 := by
  rw [arrivals]
  split <;> simp

/-- The end of a query admits no reader. -/
lemma Action.of_leave (s : Session γ κ δ α ρ) (gaveUp : Bool) :
    (Action.moved s (.leave gaveUp)).Alone ∧ (Action.moved s (.leave gaveUp)).arrivals = 0 := by
  rcases hvisits : s.visits with _ | ⟨v, visits⟩ <;>
    simp [Alone, arrivals, Session.crossing, hvisits]

/-- Histories satisfy `fits` as long as callers are plain, queries begin one at a time, mutations
make no reads, and there are at most `limit` arrivals. -/
def Session.Allows (s : Session γ κ δ α ρ) (fits : History γ κ δ α ρ → Prop) (limit : Nat) : Prop :=
  ∀ {ticks : List (Tick α ρ)}, Plainly ticks → let p := (Point.start s).after ticks
    (∀ d ∈ p.history, d.Alone) → (∀ r ∈ p.history.published, r.observed = false) →
      p.history.arrivals ≤ limit → fits p.history

/-- A point of a session after these mutations were made one after the other, with at most `readers`
arrivals. -/
structure Session.Sequential (s : Session γ κ δ α ρ) (calls : List (Mutation α ρ)) (readers : Nat)
    (p : Point γ κ δ α ρ) : Prop where
  reached : ∃ ticks, Plainly ticks ∧ (Point.start s).after ticks = p
  control : p.control = .resting
  writers : p.inst.writers = []
  alone : ∀ d ∈ p.history, d.Alone
  arrivals : p.history.arrivals ≤ readers
  published : p.history.published.map (fun r => (r.mutation, r.observed)) = calls.map (·, false)
  completed : p.completed = p.history.published
  rounds : p.history.completed.length = calls.length

namespace Session.Sequential

variable {s : Session γ κ δ α ρ} {calls : List (Mutation α ρ)} {readers limit : Nat}
  {p : Point γ κ δ α ρ}

lemma start (hwriters : s.inst.writers = []) : s.Sequential [] 0 (Point.start s) where
  reached := ⟨[], fun _ hm => absurd hm List.not_mem_nil, rfl⟩
  control := rfl
  writers := hwriters
  alone _ hd := absurd hd List.not_mem_nil
  arrivals := Nat.le_refl 0
  published := rfl
  completed := rfl
  rounds := rfl

lemma map_mutation (hp : s.Sequential calls readers p) :
    p.history.published.map Request.mutation = calls := by
  have hcalls := congrArg (List.map Prod.fst) hp.published
  rw [List.map_map, List.map_map] at hcalls
  exact hcalls.trans (List.map_id _)

lemma of_mem_published (hp : s.Sequential calls readers p) {r : Request α ρ}
    (hr : r ∈ p.history.published) : r.mutation ∈ calls ∧ r.observed = false := by
  have hmem : (r.mutation, r.observed) ∈ calls.map (·, false) :=
    hp.published ▸ List.mem_map_of_mem hr
  obtain ⟨m, hm, heq⟩ := List.mem_map.1 hmem
  obtain ⟨rfl, hobserved⟩ := Prod.mk.inj heq
  exact ⟨hm, hobserved.symm⟩

/-- A single object to which the mutations are applied. -/
lemma replay_completed (hp : s.Sequential calls readers p) (a : α) :
    replay a p.completed = calls.foldl (fun a m => m.effect a) a := by
  rw [hp.completed, ← hp.map_mutation, List.foldl_map]
  rfl

lemma fits (hp : s.Sequential calls readers p) {fits : History γ κ δ α ρ → Prop}
    (hallows : s.Allows fits limit) (hreaders : readers ≤ limit) : fits p.history := by
  obtain ⟨ticks, hticks, rfl⟩ := hp.reached
  exact hallows hticks hp.alone (fun r hr => (hp.of_mem_published hr).2)
    (Nat.le_trans hp.arrivals hreaders)

/-- A move that starts no writer is over at once. -/
lemma next (hp : s.Sequential calls readers p) {m : Move α ρ} (hplain : m.Plain)
    (hm : ∀ k mutation observed, m ≠ .mutate k mutation observed)
    (halone : (Action.moved p.session m).Alone) {n : Nat}
    (hn : (Action.moved p.session m).arrivals ≤ n) :
    s.Sequential calls (readers + n) (p.next (.caller m)) ∧
      p.session.perform m = ((p.session.act m).1, (p.next (.caller m)).session) := by
  have hwriters : (p.session.act m).2.inst.writers = [] :=
    (Session.writers_act hm).trans hp.writers
  have hact : p.session.act m = ((p.session.act m).1, (p.session.act m).2) := (Prod.eta _).symm
  have hpublished : (Action.moved p.session m).requestPublished = [] :=
    Action.requestPublished_of_length_le hact (congrArg List.length (Session.writers_act hm)).le
  refine ⟨?_, (Session.perform_of_writers hwriters).trans hact⟩
  obtain ⟨ticks, hticks, hreached⟩ := hp.reached
  refine
    { reached := ⟨ticks ++ [.caller m], hticks.append fun m' hm' => ?_, ?_⟩
      control := hp.control
      writers := hwriters
      alone := List.forall_mem_cons.2 ⟨halone, hp.alone⟩
      arrivals := ?_
      published := ?_
      completed := ?_
      rounds := ?_ }
  · cases List.mem_singleton.1 hm'
    exact hplain
  · rw [Point.after_append, hreached]
    rfl
  · have harrivals := hp.arrivals
    change _ + p.history.arrivals ≤ _
    omega
  · change (History.published (_ :: p.history)).map _ = _
    rw [History.published_cons, hpublished, List.append_nil, hp.published]
  · change requests (History.completed (_ :: p.history)) = History.published (_ :: p.history)
    rw [History.completed_cons, History.published_cons, hpublished, List.append_nil]
    exact (congrArg requests (List.append_nil _)).trans hp.completed
  · change (History.completed (_ :: p.history)).length = _
    rw [History.completed_cons]
    exact (congrArg List.length (List.append_nil _)).trans hp.rounds

/-- The outboxes are emptied. -/
lemma outbox (hp : s.Sequential calls readers p) :
    s.Sequential calls readers (p.next .outbox) := by
  obtain ⟨ticks, hticks, hreached⟩ := hp.reached
  refine
    { reached := ⟨ticks ++ [.outbox], hticks.append (by simp [Plainly]), ?_⟩
      control := hp.control
      writers := hp.writers
      alone := List.forall_mem_cons.2 ⟨trivial, hp.alone⟩
      arrivals := ?_
      published := ?_
      completed := ?_
      rounds := ?_ }
  · rw [Point.after_append, hreached]
    rfl
  · simpa [Point.next, Action.arrivals] using hp.arrivals
  · simpa [Point.next, Action.requestPublished] using hp.published
  · simpa [Point.next, Point.completed, Action.requestPublished, Action.batchCompleted] using
      hp.completed
  · simpa [Point.next, Action.batchCompleted] using hp.rounds

lemma style_eq (hp : s.Sequential calls readers p) (hs : s.Exclusive .resting) :
    p.inst.style = s.inst.style := by
  obtain ⟨ticks, -, rfl⟩ := hp.reached
  exact Point.style_after (p := .start s) hs ticks

lemma capacity_eq (hp : s.Sequential calls readers p) (hs : s.Exclusive .resting) :
    p.inst.registry.capacity = s.inst.registry.capacity := by
  obtain ⟨ticks, -, rfl⟩ := hp.reached
  exact Point.stage_after (P := fun t _ _ => t.inst.registry.capacity = s.inst.registry.capacity)
    (p := .start s) (fun _ _ hm ht => hm.capacity_eq.trans ht)
    (fun hstaged ht => hstaged.progress.frame.2.2.1.trans ht) id hs rfl

/-- The slots in use are taken. -/
lemma slotsTaken (hp : s.Sequential calls readers p) (hs : s.Exclusive .resting)
    (hslotted : Gate.slotted γ = true) {n : Nat} (hslotsTaken : s.SlotsTaken n) :
      p.session.SlotsTaken n := by
  obtain ⟨ticks, -, rfl⟩ := hp.reached
  exact Point.stage_after (P := fun t _ _ => t.SlotsTaken n) (p := .start s)
    (fun _ _ hm ht => ht.moved hslotted hm) (fun hstaged ht => ht.staged hstaged)
    (fun ht => ht.emptied) hs hslotsTaken

/-- Dropping a slot that is not in use leaves a spare one. -/
lemma drop (hp : s.Sequential calls readers p) (hs : s.Exclusive .resting)
    (hslotsTaken : ∀ n, s.inst.registry.capacity = some n → s.SlotsTaken n)
    (hissuer : ∀ k slot, p.session.slot? k = some slot → slot.issuer = p.inst.registry.id)
    (hvisits : p.session.visits = []) (k : Nat) :
    ∃ q, s.Sequential calls readers q ∧ q.session = (p.session.perform (.drop k)).2 ∧
      q.session.visits = [] ∧ (∀ i, k ≠ i → q.session.table[i]? = p.session.table[i]?) ∧
      (∀ n, p.session.Spare n → q.session.Spare n) ∧
      ((p.session.slot? k).isSome = true → q.session.Spare 1) := by
  obtain ⟨hq, hperform⟩ := hp.next (m := .drop k) trivial (by simp)
    (Action.alone_of_visits hvisits _) (n := 0) (Nat.le_refl 0)
  refine ⟨p.next (.caller (.drop k)), hq, by rw [hperform], ?_, ?_, ?_,
    fun hslot hslotted => ?_⟩
  · exact (p.session.moved_drop k).visits_eq_of_drop.trans hvisits
  · exact fun _ => (p.session.moved_drop k).getElem?_table_of_drop
  · exact fun n => (p.session.moved_drop k).spare_of_drop
  · obtain ⟨slot, hslot⟩ := Option.isSome_iff_exists.1 hslot
    have huse : p.session.inUse slot = false := by
      have hwriters : p.session.inst.writers = [] := hp.writers
      simp [inUse, hasRequest, hvisits, hwriters]
    have hdropped : (p.session.act (.drop k)).2.inst.registry =
        p.session.inst.registry.release slot.index := by
      rw [drop_of_slot? hslotted hslot, huse, if_neg Bool.false_ne_true]
      exact congrArg (fun t : Session γ κ δ α ρ => t.inst.registry) (if_pos (hissuer k slot hslot))
    change (p.session.act (.drop k)).2.inst.registry.Spare 1
    rw [hdropped]
    rcases hcapacity : p.session.inst.registry.capacity with _ | n
    · exact Registry.spare_of_capacity ((Registry.capacity_release _ _).trans hcapacity) 1
    · have hslotsTaken : p.session.SlotsTaken n :=
        hp.slotsTaken hs hslotted (hslotsTaken n ((hp.capacity_eq hs).symm.trans hcapacity))
      exact (hslotsTaken.taken k slot (getElem?_of_slot? hslotted hslot)
        (hissuer k slot hslot)).spare_release

/-- One more slot is claimed. -/
lemma register (hp : s.Sequential calls readers p) (hslotted : Gate.slotted γ = true)
    (hvisits : p.session.visits = []) {n : Nat} (hspare : p.session.Spare (n + 1)) :
    ∃ q slot answer, s.Sequential calls readers q ∧
      p.session.perform .register = (.ok answer, q.session) ∧ q.session.visits = [] ∧
      q.session.Spare n ∧ q.session.table = p.session.table ++ [some slot] := by
  obtain ⟨slot, registry, hregister, hroom⟩ := (hspare hslotted).exists_register
  obtain ⟨hq, hperform⟩ := hp.next (m := .register) trivial (by simp)
    (Action.alone_of_visits hvisits _) (n := 0) (Nat.le_refl 0)
  have hact : p.session.act .register = (.ok (.index slot.index),
      { p.session with
        inst := { p.session.inst with
          registry, log := .slotRegistered slot.index :: p.session.inst.log }
        table := p.session.table ++ [some slot] }) := by
    simp only [act, hslotted, if_true, Instance.register, hregister]
    rfl
  have hsession : (p.next (.caller .register)).session = (p.session.act .register).2 := rfl
  rw [hact] at hsession hperform
  refine ⟨p.next (.caller .register), slot, _, hq, hperform, ?_, fun _ => ?_, ?_⟩
  · rw [hsession]
    exact hvisits
  · rw [hsession]
    exact hroom
  · rw [hsession]

variable [DecidableEq κ] {a : α} {fits : History γ κ δ α ρ → Prop}

/-- A slot that was claimed is one of the instance. -/
lemma issuer_eq (hp : s.Sequential calls readers p) (S : s.Steady a fits) {k : Nat} {slot : Slot}
    (hslot : p.session.slot? k = some slot) : slot.issuer = p.inst.registry.id := by
  obtain ⟨ticks, hticks, rfl⟩ := hp.reached
  exact (S.plainInv_after hticks).issuer_eq hslot

lemma own?_isSome (hp : s.Sequential calls readers p) (S : s.Steady a fits) {k : Nat}
    (hslot : (p.session.slot? k).isSome = true) : (p.session.own? k).isSome = true := by
  obtain ⟨slot, hslot⟩ := Option.isSome_iff_exists.1 hslot
  rw [own?_of_issuer hslot (hp.issuer_eq S hslot)]
  rfl

lemma regularInv (hp : s.Sequential calls readers p) (S : s.Steady a fits)
    (hallows : s.Allows fits limit) (hreaders : readers ≤ limit)
    (hregular : ∀ m ∈ calls, m.Regular) :
    ReadInv s.inst.activeSide a p.session p.history p.stage ∧
      RegularInv ⟨a, a⟩ p.session p.history p.task? := by
  have hfits := hp.fits hallows hreaders
  have hcalls : ∀ r ∈ p.history.published, r.mutation.Regular := fun r hr =>
    hregular _ (hp.of_mem_published hr).1
  obtain ⟨ticks, hticks, rfl⟩ := hp.reached
  exact ⟨S.readInv hticks hfits hcalls, S.regularInv hticks hfits hcalls⟩

/-- Both copies are the object after the mutations, each of which is counted and has a turn of its
own. -/
theorem result (hp : s.Sequential calls readers p) (S : s.Steady a fits)
    (hallows : s.Allows fits limit) (hreaders : readers ≤ limit)
    (hregular : ∀ m ∈ calls, m.Regular) :
    (∀ side, p.inst.copies.get side = calls.foldl (fun a m => m.effect a) a) ∧
      p.inst.mutations = calls.length ∧
      p.inst.activeSide = Side.opposite^[calls.length] s.inst.activeSide := by
  obtain ⟨hreadInv, hb⟩ := hp.regularInv S hallows hreaders hregular
  have hl : CopyInv ⟨a, a⟩ p.history p.inst p.task? := hb.copyInv
  refine ⟨fun side => ?_, ?_, ?_⟩
  · rw [hb.get_eq_replay hp.writers, hp.replay_completed]
  · have hlength := congrArg List.length hp.map_mutation
    rw [List.length_map, ← hp.completed] at hlength
    exact hl.mutations.trans hlength
  · have hturned := hl.turned
    rw [hb.task?_eq_none hp.writers, Option.elim_none, List.append_nil] at hturned
    have hside : p.inst.activeSide = _ := hreadInv.side
    rw [hside, hturned, hp.rounds]

/-- A mutation is completed before anything else is done. -/
lemma exists_mutate (hp : s.Sequential calls readers p) (S : s.Steady a fits)
    (hallows : s.Allows fits limit) (hreaders : readers ≤ limit)
    (hregular : ∀ m ∈ calls, m.Regular) (hvisits : p.session.visits = []) {k : Nat}
    (hslot : p.inst.style = .combining → (p.session.own? k).isSome = true)
    {mutation : Mutation α ρ} (hmutation : mutation.Regular) :
    ∃ q, s.Sequential (calls ++ [mutation]) readers q ∧
      q.session = (p.session.perform (.mutate k mutation false)).2 := by
  have hfits := hp.fits hallows hreaders
  obtain ⟨-, hb⟩ := hp.regularInv S hallows hreaders hregular
  obtain ⟨ticks, hticks, hreached⟩ := hp.reached
  obtain ⟨ticks', q, hticks', hq, hsession, hfits', hwriters', hfollows⟩ :=
    S.exists_follows hticks hreached hfits (fun r hr => (hp.of_mem_published hr).2) hp.control
      hp.writers hvisits hslot mutation
  have hpublished : ∀ r ∈ q.history.published, r.mutation.Regular ∧ r.observed = false := by
    rw [hfollows.published]
    refine List.forall_mem_append.2 ⟨fun r hr => ?_, by simpa using hmutation⟩
    exact ⟨hregular _ (hp.of_mem_published hr).1, (hp.of_mem_published hr).2⟩
  have hb' := S.regularInv hticks'
  have hqueued := (S.requestsCalled_after ticks').1
  rw [hq] at hb' hqueued
  have hb' := hb' hfits' fun r hr => (hpublished r hr).1
  obtain ⟨actions, hhistory, hactions⟩ := hfollows.history
  obtain ⟨i, hcompleted⟩ := hfollows.exists_completed hb hb' hp.writers hwriters'
  refine ⟨q, ?_, hsession⟩
  refine
    { reached := ⟨ticks', hticks', hq⟩
      control := Point.control_eq_resting (hb'.task?_eq_none hwriters')
      writers := hwriters'
      alone := ?_
      arrivals := ?_
      published := ?_
      completed := ?_
      rounds := ?_ }
  · rw [hhistory]
    exact List.forall_mem_append.2
      ⟨fun d hd => Action.alone_of_crossing (hactions d hd), hp.alone⟩
  · -- no reader has arrived meanwhile
    have hquiet := hqueued.unobserved fun r hr => (hpublished r hr).2
    rw [hhistory] at hquiet ⊢
    rw [History.arrivals_append fun d hd => ⟨hactions d hd, ?_⟩]
    · exact hp.arrivals
    · rintro found side pass r rfl
      exact hquiet found side pass r (List.mem_append_left _ hd)
  · rw [hfollows.published, List.map_append, hp.published, List.map_append]
    rfl
  · rw [hfollows.completed_eq hb hb' hp.writers hwriters', hp.completed, hfollows.published]
  · rw [hcompleted, List.length_append, hp.rounds, List.length_append]
    rfl

/-- A mutation is completed before anything else is done, and its output is that of the object. -/
theorem mutate (hp : s.Sequential calls readers p) (S : s.Steady a fits)
    (hallows : s.Allows fits limit) (hreaders : readers ≤ limit)
    (hregular : ∀ m ∈ calls, m.Regular) (hvisits : p.session.visits = []) {k : Nat}
    (hslot : p.inst.style = .combining → (p.session.own? k).isSome = true)
    {mutation : Mutation α ρ} (hmutation : mutation.Regular) :
    ∃ q, s.Sequential (calls ++ [mutation]) readers q ∧
      q.session = (p.session.perform (.mutate k mutation false)).2 ∧
      q.session.visits = [] ∧ q.session.table = p.session.table ∧
      (∀ n, p.session.Spare n → q.session.Spare n) ∧
      ∃ f, q.inst.finished = f :: p.inst.finished ∧
        f.outcome = mutation.outcome (calls.foldl (fun a m => m.effect a) a) := by
  obtain ⟨q, hq, hsession⟩ :=
    hp.exists_mutate S hallows hreaders hregular hvisits hslot hmutation
  obtain ⟨ticks, hticks, hreached⟩ := hp.reached
  obtain ⟨f, hfinished, houtcome⟩ := S.exists_finished_of_perform hticks hreached
    (hp.fits hallows hreaders)
    (fun r hr => ⟨hregular _ (hp.of_mem_published hr).1, (hp.of_mem_published hr).2⟩)
    hp.writers hvisits hslot hmutation
  obtain ⟨cell, hact⟩ := Session.act_mutate_of_idle hp.writers hslot mutation false
  have hresting : p.session.Exclusive .resting := by
    have hexclusive := S.exclusive_after ticks
    rwa [hreached, hp.control] at hexclusive
  refine ⟨q, hq, hsession, ?_, ?_, fun n hn => ?_, f, ?_, ?_⟩
  · rw [hsession]
    change (p.session.act (.mutate k mutation false)).2.visits = []
    rw [hact]
    exact hvisits
  · rw [hsession]
    change (p.session.act (.mutate k mutation false)).2.table = _
    rw [hact]
  · rw [hsession]
    exact hresting.spare_mutate hn k mutation false
  · change q.session.inst.finished = _
    rw [hsession]
    exact hfinished
  · rw [houtcome, hp.replay_completed]

/-- A query that is the only one under way ends at once, and is given the object after the
mutations. -/
lemma leave (hp : s.Sequential calls readers p) (S : s.Steady a fits)
    (hallows : s.Allows fits limit) (hreaders : readers ≤ limit)
    (hregular : ∀ m ∈ calls, m.Regular) {v : Visit κ} (hv : p.session.visits = [v]) :
    let q := p.next (.caller (.leave false))
    s.Sequential calls readers q ∧
      p.session.perform (.leave false) = ((p.session.act (.leave false)).1, q.session) ∧
      q.session.visits = [] ∧ q.session.table = p.session.table ∧
      q.session.inst.registry = p.session.inst.registry ∧
      ∀ b, (p.session.act (.leave false)).1 = .ok (.copy b) →
        b = calls.foldl (fun a m => m.effect a) a := by
  intro q
  obtain ⟨hq, hperform⟩ := hp.next (m := .leave false) trivial (by simp)
    (Action.of_leave _ _).1 (n := 0) (Action.of_leave _ _).2.le
  have hleft := p.session.moved_leave false
  change Session.Moved _ _ _ q.session at hleft
  obtain ⟨htable, hregistry⟩ := hleft.slots_eq_of_query (.inr ⟨false, rfl⟩)
  have hcopies := (hp.result S hallows hreaders hregular).1
  have hcrossed := p.session.crossed_leave false
  rw [crossing_leave hv] at hcrossed
  refine ⟨hq, hperform, ?_, htable, hregistry, fun b hb => ?_⟩
  · cases hcrossed with
    | left _ hvisits => exact (List.cons.inj (hv.symm.trans hvisits)).2.symm
  · rw [hb] at hleft
    generalize q.session = t at hleft
    cases hleft with
    | left _ _ hr =>
      cases hr
      exact hcopies _
    | looked _ hlook => cases hlook

/-- A read is given the object after the mutations, or is refused. -/
theorem readOnce (hp : s.Sequential calls readers p) (S : s.Steady a fits)
    (hallows : s.Allows fits limit) (hreaders : readers + 1 ≤ limit)
    (hregular : ∀ m ∈ calls, m.Regular) (hvisits : p.session.visits = []) (k : Nat) :
    ∃ q, s.Sequential calls (readers + 1) q ∧ q.session = (p.session.readOnce k false).2 ∧
      q.session.visits = [] ∧ q.session.table = p.session.table ∧
      (∀ n, p.session.Spare n → q.session.Spare n) ∧
      ∀ b, (p.session.readOnce k false).1 = .ok (.copy b) →
        b = calls.foldl (fun a m => m.effect a) a := by
  obtain ⟨hq, hperform⟩ := hp.next (m := .enter k) trivial (by simp)
    (Action.alone_of_visits hvisits _) (n := 1) (Action.arrivals_moved_le _ _)
  have hentered := p.session.moved_enter k
  change Session.Moved _ _ _ (p.next (.caller (.enter k))).session at hentered
  obtain ⟨htable, hregistry⟩ := hentered.slots_eq_of_query (.inl ⟨k, rfl⟩)
  simp only [Session.readOnce, hperform]
  generalize (p.session.act (.enter k)).1 = answer at hentered
  rcases answer with f | answer
  · refine ⟨p.next (.caller (.enter k)), hq, rfl, ?_, htable, fun n h hslotted => ?_, nofun⟩
    · generalize (p.next (.caller (.enter k))).session = t at hentered
      cases hentered with
      | refused => exact hvisits
      | looked _ hlook => cases hlook
    · rw [hregistry]
      exact h hslotted
  · -- the query ends at once
    set q := p.next (.caller (.enter k))
    obtain ⟨v, hv⟩ : ∃ v, q.session.visits = [v] := by
      generalize q.session = t at hentered
      cases hentered with
      | entered => exact ⟨_, congrArg _ hvisits⟩
      | looked _ hlook => cases hlook
    obtain ⟨hq', hperform', hvisits', htable', hregistry', hanswer⟩ :=
      hq.leave S hallows hreaders hregular hv
    dsimp only
    rw [hperform']
    refine ⟨q.next (.caller (.leave false)), hq', rfl, hvisits', htable'.trans htable,
      fun n h hslotted => ?_, hanswer⟩
    rw [hregistry', hregistry]
    exact h hslotted

end Session.Sequential

/-! ## One query at a time -/

variable [DecidableEq κ]

/-- Queries begin one at a time, so at most one reader is in flight, whose ticket is that of the
query under way. -/
structure Session.OneReader (s : Session γ κ δ α ρ) (h : History γ κ δ α ρ) : Prop where
  within : h.Within fun tickets _ => tickets.length ≤ 1
  flight : h.inFlight.Perm (s.visits.map Visit.ticket)
  visits : s.visits.length ≤ 1

namespace Session.OneReader

variable {s s' : Session γ κ δ α ρ} {h : History γ κ δ α ρ}

lemma moved {m : Move α ρ} (hplain : m.Plain) (hc : s.Crossed (s.crossing m) s')
    (halone : (Action.moved s m).Alone) (hs : s.OneReader h) :
    s'.OneReader (.moved s m :: h) := by
  -- the tickets in flight after the move are those of the queries under way, of which there is at
  -- most one
  suffices hafter : (History.inFlight (.moved s m :: h)).Perm (s'.visits.map Visit.ticket) ∧
      s'.visits.length ≤ 1 by
    obtain ⟨hflight, hvisits⟩ := hafter
    refine ⟨⟨hs.within, ?_⟩, hflight, hvisits⟩
    change (History.inFlight (.moved s m :: h)).length ≤ 1
    rw [hflight.length_eq, List.length_map]
    exact hvisits
  have hflight := hs.flight
  have hvisits := hs.visits
  simp only [History.inFlight, Action.crossing, Action.Alone] at halone ⊢
  rcases s.crossing_of_not_raw hplain.not_raw with hx | ⟨v, hx⟩ | ⟨v, hx⟩ <;>
    rw [hx] at hc halone ⊢
  · cases hc with
    | absent _ hsame => rw [hsame]; exact ⟨hflight, hvisits⟩
  · cases hc with
    | entered _ _ hentered =>
      rw [halone, List.map_nil] at hflight
      rw [hentered, halone, hflight.eq_nil]
      exact ⟨.refl _, Nat.le_refl _⟩
  · cases hc with
    | left _ hleft =>
      rw [hleft] at hflight hvisits
      exact ⟨(List.cons_perm_iff_perm_erase.1 hflight.symm).2.symm, Nat.le_of_succ_le hvisits⟩

lemma append {actions : History γ κ δ α ρ} (hh : h.Unobserved) (hactions : ∀ d ∈ actions, d.Quiet)
    (hs : s.OneReader h) (hvisits : s'.visits = s.visits) : s'.OneReader (actions ++ h) where
  within := hs.within.append (Nat.zero_le _) hh hactions
  flight := by
    rw [History.inFlight_append fun d hd => (hactions d hd).1, hvisits]
    exact hs.flight
  visits := hvisits ▸ hs.visits

end Session.OneReader

lemma oneReader_after {s : Session γ κ δ α ρ} (hs : s.Exclusive .resting) (hvisits : s.visits = [])
    {ticks : List (Tick α ρ)} (hticks : Plainly ticks) :
    let p := (Point.start s).after ticks
    (∀ d ∈ p.history, d.Alone) → p.history.Unobserved → p.session.OneReader p.history := by
  intro p
  refine Point.stage_after
    (P := fun s h _ => (∀ d ∈ h, d.Alone) → h.Unobserved → s.OneReader h) (p := .start s)
    (fun {s h c m r s'} hmem hact hm ih halone hunobserved => ?_)
    (fun {s h c actions inst c'} hstaged ih halone hunobserved => ?_)
    (fun {s h c} ih halone hunobserved => ?_) hs fun _ _ => ⟨trivial, ?_, ?_⟩
  · obtain ⟨hnow, halone⟩ := List.forall_mem_cons.1 halone
    have hc := s.crossed_act m
    rw [hact] at hc
    exact (ih halone fun found side p r hd => hunobserved found side p r
      (List.mem_cons_of_mem _ hd))
      |>.moved (hticks m hmem) hc hnow
  · have hquiet : ∀ d ∈ actions, d.Quiet := by
      refine fun d hd => ⟨hstaged.crossing d hd, ?_⟩
      rintro found side p r rfl
      exact hunobserved found side p r (List.mem_append_left _ hd)
    have hbefore : h.Unobserved := fun found side p r hd =>
      hunobserved found side p r (List.mem_append_right _ hd)
    exact (ih (fun d hd => halone d (List.mem_append_right _ hd)) hbefore).append hbefore hquiet rfl
  · have hbefore : h.Unobserved := fun found side p r hd =>
      hunobserved found side p r (List.mem_cons_of_mem _ hd)
    have hquiet : ∀ d ∈ [(.emptied s.inst.finished s.inst.log : Action γ κ δ α ρ)], d.Quiet :=
      List.forall_mem_singleton.2 ⟨rfl, nofun⟩
    exact (ih (fun d hd => halone d (List.mem_cons_of_mem _ hd)) hbefore).append hbefore hquiet rfl
  · change List.Perm [] (s.visits.map Visit.ticket)
    rw [hvisits]
    exact .refl _
  · change s.visits.length ≤ 1
    rw [hvisits]
    exact Nat.zero_le _

namespace Session.Steady

variable {s : Session γ κ δ α ρ} {a : α} {fits : History γ κ δ α ρ → Prop}

/-- If one reader at a time is within the limit of the gate, so are readers that arrive one at a
time. -/
theorem allows_within (S : s.Steady a fits) (hvisits : s.visits = []) {limit : List κ → Nat → Prop}
    {readers : Nat} (hlimit : ∀ tickets n, tickets.length ≤ 1 → n ≤ readers → limit tickets n) :
    s.Allows (·.Within limit) readers := by
  intro ticks hticks p halone hcalls harrivals
  have hunobserved : p.history.Unobserved := (S.requestsCalled_after ticks).1.unobserved hcalls
  have hone := (oneReader_after S.exclusive hvisits hticks halone hunobserved).within
  refine (hone.and (.of_arrivals (Nat.lt_succ_of_le harrivals))).mono fun tickets n hn => ?_
  exact hlimit tickets n hn.1 (Nat.le_of_lt_succ hn.2.2)

end Session.Steady

/-- A query that finds no other one under way is not doubled. -/
lemma Action.Alone.single {d : Action Versioned Version Version α ρ} (hd : d.Alone) : d.Single := by
  cases d with
  | moved s m =>
    rw [Alone] at hd
    rw [Single]
    split
    · next hentered =>
      simp only [hentered] at hd
      rw [Session.places, hd]
      exact List.not_mem_nil
    · trivial
  | _ => trivial

lemma Session.allows_single (s : Session Versioned Version Version α ρ) (readers : Nat) :
    s.Allows (fun h => ∀ d ∈ h, d.Single) readers :=
  fun _ halone _ _ d hd => (halone d hd).single

end TwinCopy
