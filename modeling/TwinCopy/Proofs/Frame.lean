import Mathlib.Algebra.Ring.Nat
import TwinCopy.Instance.Writer

/-!
# Frame lemmas

Readers modify the gate, the registry and the log of an instance only; the end of a round modifies
cells, writers, the lock and the outboxes, but neither the copies nor the gate. Each lemma writes
the state after an operation as the state before it with the modified fields replaced, so that
everything that does not mention these fields is seen to be unchanged.
-/

namespace TwinCopy

namespace Registry

/-- The second registry is the first one, possibly after a slot was claimed and released. -/
def Churned (r r' : Registry) : Prop :=
  r' = r ∨ ∃ slot claimed, r.register = .ok (slot, claimed) ∧ r' = claimed.release slot.index

/-- A registry hands out slots with its own identity and below its capacity, and keeps both. -/
lemma register_spec {r r' : Registry} {slot : Slot} (h : r.register = .ok (slot, r')) :
    slot.issuer = r.id ∧ r'.id = r.id ∧ r'.capacity = r.capacity ∧
      ∀ n, r.capacity = some n → slot.index < n := by
  obtain ⟨id, claims⟩ := r
  cases claims with
  | bounded claimed =>
    rcases hfree : claimed.findIdx? (! ·) with _ | i
    · simp [register, hfree] at h
    · simp only [register, hfree, Except.ok.injEq, Prod.mk.injEq] at h
      obtain ⟨rfl, rfl⟩ := h
      have hlt : i < claimed.length := by
        rw [List.findIdx?_eq_some_iff_findIdx_eq] at hfree
        exact hfree.1
      simp [capacity, hlt]
  | unbounded next =>
    simp only [register, Except.ok.injEq, Prod.mk.injEq] at h
    obtain ⟨rfl, rfl⟩ := h
    simp [capacity]

@[simp] lemma id_release (r : Registry) (index : Nat) : (r.release index).id = r.id := by
  obtain ⟨id, claims⟩ := r
  cases claims <;> rfl

lemma Churned.id_eq {r r' : Registry} (h : r.Churned r') : r'.id = r.id := by
  rcases h with rfl | ⟨slot, claimed, hregister, rfl⟩
  · rfl
  · rw [id_release, (register_spec hregister).2.1]

lemma Churned.capacity_eq {r r' : Registry} (h : r.Churned r') : r'.capacity = r.capacity := by
  rcases h with rfl | ⟨slot, claimed, hregister, rfl⟩
  · rfl
  · rw [capacity_release, (register_spec hregister).2.2.1]

end Registry

namespace Instance

variable {γ κ δ α ρ : Type}

/-! ## Readers -/

lemma foldl_report (events : List Event) (s : Instance γ δ α ρ) :
    events.foldl report s = { s with log := events.reverse ++ s.log } := by
  induction events generalizing s with
  | nil => rfl
  | cons e events ih => simp [ih, report]

section Gate

variable [Gate γ κ δ]

/-- The misuse reported for an arrival that is refused: a slot of another registry, or a refusal by
the gate. -/
def Rejects (s : Instance γ δ α ρ) (m : Misuse) : Prop :=
  m = .foreignSlot ∨ ∃ index, Gate.arrive s.gate index = .error m

/-- An arrival is refused with a report, or passes the gate. -/
lemma arrive_cases (s : Instance γ δ α ρ) (slot : Slot) :
    (∃ m, s.Rejects m ∧ s.arrive slot = (.error (.misuse m), s.report (.misused m))) ∨
      ∃ ticket gate, slot.issuer = s.registry.id ∧
        Gate.arrive s.gate slot.index = .ok (ticket, gate) ∧
        s.arrive slot = (.ok ticket, { s with gate }) := by
  unfold arrive
  split
  · next hissuer =>
    cases harrive : Gate.arrive s.gate slot.index with
    | error m => exact .inl ⟨_, .inr ⟨_, harrive⟩, rfl⟩
    | ok r => exact .inr ⟨r.1, r.2, hissuer, rfl, rfl⟩
  · exact .inl ⟨_, .inl rfl, rfl⟩

/-- A departure changes the gate as `Gate.depart` does, and extends the log. -/
lemma dismiss_cases (s : Instance γ δ α ρ) (slot : Slot) (ticket : κ) :
    (∃ events gate, Gate.depart s.gate slot.index ticket = (.ok events, gate) ∧
        s.dismiss slot ticket = (.ok (), { s with gate, log := events.reverse ++ s.log })) ∨
      ∃ m gate, Gate.depart s.gate slot.index ticket = (.error m, gate) ∧
        s.dismiss slot ticket =
          (.error (.misuse m), { s with gate, log := .misused m :: s.log }) := by
  unfold dismiss
  rcases hdepart : Gate.depart s.gate slot.index ticket with ⟨_ | events, gate⟩
  · exact .inr ⟨_, _, rfl, rfl⟩
  · exact .inl ⟨_, _, rfl, by simp only [foldl_report]⟩

lemma dismiss_state (s : Instance γ δ α ρ) (slot : Slot) (ticket : κ) :
    ∃ l, (s.dismiss slot ticket).2 =
      { s with gate := (Gate.depart s.gate slot.index ticket).2, log := l } := by
  rcases s.dismiss_cases slot ticket with ⟨_, _, hdepart, hdismiss⟩ | ⟨_, _, hdepart, hdismiss⟩
  · exact ⟨_, by rw [hdismiss, hdepart]⟩
  · exact ⟨_, by rw [hdismiss, hdepart]⟩

/-- A reader that is admitted is sent to the side given by its ticket. -/
lemma enter_cases (s : Instance γ δ α ρ) (slot : Slot) :
    (∃ m, s.Rejects m ∧ s.enter slot = (.error (.misuse m), s.report (.misused m))) ∨
      ∃ ticket gate, slot.issuer = s.registry.id ∧
        Gate.arrive s.gate slot.index = .ok (ticket, gate) ∧
        s.enter slot = (.ok ⟨slot, ticket, Gate.side gate⟩, { s with gate }) := by
  unfold enter
  rcases s.arrive_cases slot with ⟨m, hrejects, h⟩ | ⟨ticket, gate, hissuer, harrive, h⟩
  · exact .inl ⟨m, hrejects, by rw [h]⟩
  · exact .inr ⟨ticket, gate, hissuer, harrive, by rw [h]; rfl⟩

/-- A read is an arrival directly followed by the departure that matches it. -/
lemma read_of_enter {s s' : Instance γ δ α ρ} {slot : Slot} {v : Visit κ}
    (h : s.enter slot = (.ok v, s')) :
    s.read slot = ((s'.leave v).1.map fun _ => s'.given v, (s'.leave v).2) := by
  unfold read
  rw [h]
  rcases hleave : s'.leave v with ⟨f | ⟨⟨⟩⟩, t⟩ <;> simp only [hleave] <;> rfl

/-- The gate after an arrival and the departure that matches it. -/
def Visited (g : γ) (slot : Nat) (entered left : γ) (ticket : κ) : Prop :=
  Gate.arrive g slot = .ok (ticket, entered) ∧ left = (Gate.depart entered slot ticket).2

/-- A read is refused or is one arrival and departure at the gate; an answer is the copy on the side
given by the ticket. -/
lemma read_cases (s : Instance γ δ α ρ) (slot : Slot) :
    (∃ f l, s.read slot = (.error f, { s with log := l })) ∨
      ∃ ticket entered left l, slot.issuer = s.registry.id ∧
        Visited s.gate slot.index entered left ticket ∧
        (s.read slot).2 = { s with gate := left, log := l } ∧
        ∀ a, (s.read slot).1 = .ok a → a = s.copies.get (Gate.side entered) := by
  unfold read
  rcases s.enter_cases slot with ⟨m, -, h⟩ | ⟨ticket, entered, hissuer, harrive, h⟩
  · exact .inl ⟨_, _, by rw [h]; rfl⟩
  · refine .inr ?_
    simp only [h, leave]
    rcases dismiss_cases { s with gate := entered } slot ticket with
      ⟨events, left, hdepart, hd⟩ | ⟨m, left, hdepart, hd⟩
    · refine ⟨ticket, entered, left, _, hissuer, ⟨harrive, by rw [hdepart]⟩, by rw [hd], ?_⟩
      intro a ha
      rw [hd] at ha
      exact (Except.ok.inj ha).symm
    · refine ⟨ticket, entered, left, _, hissuer, ⟨harrive, by rw [hdepart]⟩, by rw [hd], ?_⟩
      intro a ha
      rw [hd] at ha
      cases ha

lemma eq_ok_of_mapError {ε ε' β : Type} {f : ε → ε'} {r : Except ε β} {b : β}
    (h : r.mapError f = .ok b) : r = .ok b := by
  cases r with
  | error e => cases h
  | ok c => exact congrArg _ (Except.ok.inj h)

/-- The slot for a read within an application, if there is one: where readers need slots, it is the
next one that the registry hands out. -/
def lookSlot? (s : Instance γ δ α ρ) : Option Slot :=
  if Gate.slotted γ then s.registry.register.toOption.map Prod.fst else some s.commonSlot

lemma register_of_lookSlot? {s : Instance γ δ α ρ} {slot : Slot}
    (h : s.lookSlot? = some slot) (hslotted : Gate.slotted γ = true) :
    ∃ registry, s.registry.register = .ok (slot, registry) := by
  rw [lookSlot?, if_pos hslotted] at h
  rcases hregister : s.registry.register with e | ⟨slot', registry⟩
  · rw [hregister] at h
    cases h
  · rw [hregister] at h
    cases h
    exact ⟨registry, rfl⟩

/-- A read with a new slot is refused or is one arrival and departure at the gate. -/
lemma readAnew_cases (s : Instance γ δ α ρ) :
    (∃ f reg l, s.registry.Churned reg ∧
        s.readAnew = (.error f, { s with registry := reg, log := l })) ∨
      ∃ slot ticket entered left reg l, s.lookSlot? = some slot ∧
        s.registry.Churned reg ∧ Visited s.gate slot.index entered left ticket ∧
        s.readAnew.2 = { s with gate := left, registry := reg, log := l } ∧
        ∀ a, s.readAnew.1 = .ok a → a = s.copies.get (Gate.side entered) := by
  unfold readAnew lookSlot?
  split
  · unfold register
    rcases hregister : s.registry.register with e | ⟨slot, reg⟩
    · exact .inl ⟨_, s.registry, s.log, .inl rfl, rfl⟩
    · -- the slot is released, whatever the read has answered
      have hchurned : s.registry.Churned (reg.release slot.index) :=
        .inr ⟨slot, reg, hregister, rfl⟩
      simp only
      rcases read_cases ({ s with registry := reg }.report (.slotRegistered slot.index)) slot with
        ⟨f, l, h⟩ | ⟨ticket, entered, left, l, -, hvisited, hstate, hanswer⟩
      · exact .inl ⟨_, _, l, hchurned, by simp only [h]; rfl⟩
      · refine .inr ⟨slot, ticket, entered, left, _, l, rfl, hchurned, hvisited,
          by simp only [hstate]; rfl, fun a ha => hanswer a (eq_ok_of_mapError ha)⟩
  · next hslotted =>
    rcases read_cases s s.commonSlot with
      ⟨f, l, h⟩ | ⟨ticket, entered, left, l, -, hvisited, hstate, hanswer⟩
    · exact .inl ⟨_, s.registry, l, .inl rfl, by rw [h]; rfl⟩
    · refine .inr ⟨s.commonSlot, ticket, entered, left, s.registry, l, rfl, .inl rfl, hvisited,
        by simp [hstate], fun a ha => hanswer a (eq_ok_of_mapError ha)⟩

/-! ## Applications -/

/-- The instance after the read, if any, that an application makes before it changes anything. -/
def looked (s : Instance γ δ α ρ) (r : Request α ρ) : Instance γ δ α ρ :=
  if r.observed then s.observe r.writer else s

lemma looked_eq (s : Instance γ δ α ρ) (r : Request α ρ) :
    s.looked r = if r.observed = true then s.observe r.writer else s := rfl

/-- The effect of the read within an application: at most one arrival and departure at the gate, and
an observation recorded with the writer. -/
structure Look (s : Instance γ δ α ρ) (r : Request α ρ) (gate : γ) (registry : Registry)
    (note : Writer α → Writer α) : Prop where
  note : ∀ w, (note w).id = w.id ∧ (note w).cell = w.cell ∧ (note w).observed = w.observed
  registry : s.registry.Churned registry
  gate : gate = s.gate ∨ r.observed = true ∧ ∃ slot ticket entered,
    s.lookSlot? = some slot ∧ Visited s.gate slot.index entered gate ticket

lemma looked_cases (s : Instance γ δ α ρ) (r : Request α ρ) :
    ∃ gate registry log note, s.looked r =
        { s with gate, registry, log, writers := s.writers.map note } ∧
      s.Look r gate registry note := by
  unfold looked
  split
  · next hobserved =>
    unfold observe
    rcases s.readAnew_cases with ⟨f, registry, l, hchurned, h⟩ |
      ⟨slot, ticket, entered, left, registry, l, hslot, hchurned, hvisited, hstate, -⟩
    · simp only [h]
      refine ⟨_, _, _, _, rfl, fun w => ?_, hchurned, .inl rfl⟩
      split <;> exact ⟨rfl, rfl, rfl⟩
    · simp only [hstate]
      refine ⟨_, _, _, _, rfl, fun w => ?_, hchurned,
        .inr ⟨hobserved, slot, ticket, entered, hslot, hvisited⟩⟩
      split <;> exact ⟨rfl, rfl, rfl⟩
  · exact ⟨s.gate, s.registry, s.log, id, by simp, fun _ => ⟨rfl, rfl, rfl⟩, .inl rfl, .inl rfl⟩

lemma pass_cons (s : Instance γ δ α ρ) (side : Side) (n : Nat) (x : Nat × Request α ρ)
    (rest : List (Nat × Request α ρ)) :
    s.pass side n (x :: rest) = match s.pass side n [x] with
      | (.ok (), t) => t.pass side n rest
      | (.error f, t) => (.error f, t) := by
  obtain ⟨i, r⟩ := x
  simp only [pass]
  split <;> rfl

/-- One application that ends in a fault: the copy it leaves, and the fault. -/
lemma pass_singleton_error (s : Instance γ δ α ρ) (side : Side) (n i : Nat) (r : Request α ρ)
    {message : String} (h : (r.mutation.apply n (s.copies.get side)).outcome = .error message) :
    s.pass side n [(i, r)] = (.error (.raised message),
      { s.looked r with
        copies := s.copies.set side (r.mutation.apply n (s.copies.get side)).copy }) := by
  obtain ⟨gate, registry, log, note, hlooked, -⟩ := s.looked_cases r
  have hcopies : (s.looked r).copies = s.copies := by rw [hlooked]
  simp only [pass]
  rw [← looked_eq, hcopies, h]

/-- One application that returns: the copy it leaves and, in the first pass, the output at the
cell. -/
lemma pass_singleton_ok (s : Instance γ δ α ρ) (side : Side) (n i : Nat) (r : Request α ρ)
    {output : ρ} (h : (r.mutation.apply n (s.copies.get side)).outcome = .ok output) :
    s.pass side n [(i, r)] = (.ok (),
      { s.looked r with
        copies := s.copies.set side (r.mutation.apply n (s.copies.get side)).copy
        cells := if n = 1 then s.cells.modify i ({ · with result := some output })
          else s.cells }) := by
  obtain ⟨gate, registry, log, note, hlooked, -⟩ := s.looked_cases r
  have hcopies : (s.looked r).copies = s.copies := by rw [hlooked]
  have hcells : (s.looked r).cells = s.cells := by rw [hlooked]
  simp only [pass]
  rw [← looked_eq, hcopies, h]
  simp only [modifyCell]
  split
  · rw [hcells]
  · rw [← hcells]

/-- An application that returns leaves a modified copy and, in the first pass, an output. -/
lemma pass_ok {s s' : Instance γ δ α ρ} {side : Side} {n : Nat} {x : Nat × Request α ρ}
    (h : s.pass side n [x] = (.ok (), s')) :
    ∃ output gate registry log note,
      (x.2.mutation.apply n (s.copies.get side)).outcome = .ok output ∧
      s' =
        { s with
          copies := s.copies.set side (x.2.mutation.apply n (s.copies.get side)).copy
          cells := if n = 1 then s.cells.modify x.1 ({ · with result := some output }) else s.cells
          gate, registry, log
          writers := s.writers.map note } ∧
      s.Look x.2 gate registry note := by
  obtain ⟨i, r⟩ := x
  rcases houtcome : (r.mutation.apply n (s.copies.get side)).outcome with message | output
  · rw [pass_singleton_error s side n i r houtcome] at h
    cases h
  · rw [pass_singleton_ok s side n i r houtcome] at h
    obtain ⟨gate, registry, log, note, hlooked, hlook⟩ := s.looked_cases r
    cases h
    exact ⟨output, gate, registry, log, note, rfl, by rw [hlooked], hlook⟩

/-- An application that ends in a fault leaves a modified copy, too. -/
lemma pass_error {s s' : Instance γ δ α ρ} {side : Side} {n : Nat} {x : Nat × Request α ρ}
    {f : Fault} (h : s.pass side n [x] = (.error f, s')) :
    ∃ message gate registry log note,
      (x.2.mutation.apply n (s.copies.get side)).outcome = .error message ∧ f = .raised message ∧
      s' =
        { s with
          copies := s.copies.set side (x.2.mutation.apply n (s.copies.get side)).copy
          gate, registry, log
          writers := s.writers.map note } ∧
      s.Look x.2 gate registry note := by
  obtain ⟨i, r⟩ := x
  rcases houtcome : (r.mutation.apply n (s.copies.get side)).outcome with message | output
  · rw [pass_singleton_error s side n i r houtcome] at h
    obtain ⟨gate, registry, log, note, hlooked, hlook⟩ := s.looked_cases r
    cases h
    exact ⟨message, gate, registry, log, note, rfl, rfl, by rw [hlooked], hlook⟩
  · rw [pass_singleton_ok s side n i r houtcome] at h
    cases h

/-- Apart from the copies and the cells, an application leaves the state after its read, whether it
returns or ends in a fault. -/
lemma pass_looked {s s' : Instance γ δ α ρ} {side : Side} {n : Nat} {x : Nat × Request α ρ}
    {r : Except Fault Unit} (h : s.pass side n [x] = (r, s')) :
    ∃ copies cells, s' = { s.looked x.2 with copies, cells } := by
  obtain ⟨i, q⟩ := x
  rcases houtcome : (q.mutation.apply n (s.copies.get side)).outcome with message | output
  · rw [pass_singleton_error s side n i q houtcome] at h
    cases h
    exact ⟨_, _, rfl⟩
  · rw [pass_singleton_ok s side n i q houtcome] at h
    cases h
    exact ⟨_, _, rfl⟩

/-- Hence only the read within an application is visible to readers. -/
lemma pass_look {s s' : Instance γ δ α ρ} {side : Side} {n : Nat} {x : Nat × Request α ρ}
    {r : Except Fault Unit} (h : s.pass side n [x] = (r, s')) :
    ∃ registry note, s.Look x.2 s'.gate registry note := by
  obtain ⟨copies, cells, rfl⟩ := pass_looked h
  obtain ⟨gate, registry, log, note, hlooked, hlook⟩ := s.looked_cases x.2
  rw [hlooked]
  exact ⟨registry, note, hlook⟩

/-- A pass leaves the lock, the round, the counts and the finished writers unchanged. -/
lemma pass_frame (batch : List (Nat × Request α ρ)) (s : Instance γ δ α ρ) (side : Side) (n : Nat) :
    ∃ copies gate registry cells writers log, (s.pass side n batch).2 =
      { s with copies, gate, registry, cells, writers, log } := by
  induction batch generalizing s with
  | nil => exact ⟨_, _, _, _, _, _, rfl⟩
  | cons x batch ih =>
    obtain ⟨i, r⟩ := x
    obtain ⟨gate, registry, log, note, hlooked, -⟩ := s.looked_cases r
    rw [pass_cons]
    rcases h : (r.mutation.apply n (s.copies.get side)).outcome with message | output
    · rw [pass_singleton_error s side n i r h, hlooked]
      exact ⟨_, _, _, _, _, _, rfl⟩
    · rw [pass_singleton_ok s side n i r h, hlooked]
      obtain ⟨copies, gate, registry, cells, writers, log, h⟩ := ih _
      exact ⟨copies, gate, registry, cells, writers, log, h⟩

@[simp] lemma round_pass (batch : List (Nat × Request α ρ)) (s : Instance γ δ α ρ) (side : Side)
    (n : Nat) : (s.pass side n batch).2.round = s.round := by
  obtain ⟨copies, gate, registry, cells, writers, log, h⟩ := pass_frame batch s side n
  rw [h]

end Gate

/-! ## The end of a round -/

lemma collect_frame (s : Instance γ δ α ρ) (w : Writer α) :
    ∃ cells writers log finished, s.collect w = { s with cells, writers, log, finished } := by
  unfold collect
  split
  · split <;> exact ⟨_, _, _, _, rfl⟩
  · exact ⟨_, _, _, _, rfl⟩

lemma foldl_collect_frame (ws : List (Writer α)) (s : Instance γ δ α ρ) :
    ∃ cells writers log finished, ws.foldl collect s =
      { s with cells, writers, log, finished } := by
  induction ws generalizing s with
  | nil => exact ⟨_, _, _, _, rfl⟩
  | cons w ws ih =>
    obtain ⟨cells, writers, log, finished, h⟩ := s.collect_frame w
    obtain ⟨cells', writers', log', finished', h'⟩ := ih (s.collect w)
    exact ⟨cells', writers', log', finished', by rw [List.foldl_cons, h', h]⟩

lemma unlock_frame (s : Instance γ δ α ρ) :
    ∃ cells writers log finished, s.unlock =
      { s with cells, writers, log, finished, lock := s.lock.release.2 } := by
  obtain ⟨cells, writers, log, finished, h⟩ :=
    foldl_collect_frame s.writers { s with lock := s.lock.release.2 }
  exact ⟨cells, writers, log, finished, h⟩

lemma fail_frame (s : Instance γ δ α ρ) (writer : Nat) (fault : Fault) :
    ∃ writers finished, s.fail writer fault = { s with writers, finished } := by
  unfold fail
  split <;> exact ⟨_, _, rfl⟩

lemma foldl_modifyCell (batch : List (Nat × Request α ρ)) (f : Cell α ρ → Cell α ρ)
    (s : Instance γ δ α ρ) :
    batch.foldl (fun s (x : Nat × Request α ρ) => s.modifyCell x.1 f) s =
      { s with cells := batch.foldl (fun cells x => cells.modify x.1 f) s.cells } := by
  induction batch generalizing s with
  | nil => rfl
  | cons x batch ih => rw [List.foldl_cons, ih]; rfl

/-- Abandoning a round blanks the cells of its batch, reports the fault to the leading writer, and
releases the lock. -/
lemma abandonAs_eq (s : Instance γ δ α ρ) (batch : List (Nat × Request α ρ)) (fault : Fault) :
    ∃ log, ∀ leader, s.abandonAs leader batch fault =
      unlock (leader.elim
        { s with cells := batch.foldl (fun cells x => cells.modify x.1 fun _ => {}) s.cells, log }
        fun writer => fail
          { s with cells := batch.foldl (fun cells x => cells.modify x.1 fun _ => {}) s.cells, log }
          writer fault) := by
  unfold abandonAs
  simp only [foldl_modifyCell]
  cases s.style <;> exact ⟨_, fun leader => by cases leader <;> rfl⟩

/-- In `abandon` the first writer of the batch is the leading one. -/
lemma abandon_eq (s : Instance γ δ α ρ) (batch : List (Nat × Request α ρ)) (fault : Fault) :
    ∃ log, s.abandon batch fault =
      unlock (batch.head?.elim
        { s with cells := batch.foldl (fun cells x => cells.modify x.1 fun _ => {}) s.cells, log }
        fun x => fail
          { s with cells := batch.foldl (fun cells x => cells.modify x.1 fun _ => {}) s.cells, log }
          x.2.writer fault) := by
  obtain ⟨log, h⟩ := s.abandonAs_eq batch fault
  refine ⟨log, (h _).trans ?_⟩
  cases batch <;> rfl

/-- The cells are blank before the lock is released, whichever writer is the leading one. -/
lemma exists_abandon_eq_unlock (s : Instance γ δ α ρ) (batch : List (Nat × Request α ρ))
    (fault : Fault) :
    ∃ writers log finished, s.abandon batch fault =
      unlock { s with
        cells := batch.foldl (fun cells x => cells.modify x.1 fun _ => {}) s.cells
        writers, log, finished } := by
  obtain ⟨log, h⟩ := s.abandon_eq batch fault
  cases hhead : batch.head? with
  | none => exact ⟨s.writers, log, s.finished, by rw [h, hhead, Option.elim_none]⟩
  | some x =>
    obtain ⟨writers, finished, hfail⟩ := fail_frame
      { s with cells := batch.foldl (fun cells x => cells.modify x.1 fun _ => {}) s.cells, log }
      x.2.writer fault
    exact ⟨writers, log, finished, by rw [h, hhead, Option.elim_some, hfail]⟩

lemma abandon_frame (s : Instance γ δ α ρ) (batch : List (Nat × Request α ρ)) (fault : Fault) :
    ∃ cells writers log finished, s.abandon batch fault =
      { s with cells, writers, log, finished, lock := s.lock.release.2 } := by
  obtain ⟨writers, log, finished, h⟩ := s.exists_abandon_eq_unlock batch fault
  obtain ⟨cells', writers', log', finished', hunlock⟩ := unlock_frame
    { s with
      cells := batch.foldl (fun cells x => cells.modify x.1 fun _ => {}) s.cells
      writers, log, finished }
  exact ⟨cells', writers', log', finished', by rw [h, hunlock]⟩

/-- Completing a round withdraws the requests of its batch, counts and reports them, and releases
the lock. -/
lemma complete_eq [Gate γ κ δ] (s : Instance γ δ α ρ) (batch : List (Nat × Request α ρ))
    (old : Side) :
    ∃ log, s.complete batch old =
      unlock
        { s with
          cells := batch.foldl (fun cells x => cells.modify x.1 ({ · with request := none }))
            s.cells
          mutations := s.mutations + batch.length
          batches := s.batches + 1
          log } := by
  unfold complete
  simp only [foldl_modifyCell]
  exact ⟨_, rfl⟩

lemma complete_frame [Gate γ κ δ] (s : Instance γ δ α ρ) (batch : List (Nat × Request α ρ))
    (old : Side) :
    ∃ cells writers log finished, s.complete batch old =
      { s with
        cells, writers, log, finished
        lock := s.lock.release.2
        mutations := s.mutations + batch.length
        batches := s.batches + 1 } := by
  obtain ⟨log, h⟩ := s.complete_eq batch old
  obtain ⟨cells', writers', log', finished', hunlock⟩ := unlock_frame
    { s with
      cells := batch.foldl (fun cells x => cells.modify x.1 ({ · with request := none })) s.cells
      mutations := s.mutations + batch.length
      batches := s.batches + 1
      log }
  exact ⟨cells', writers', log', finished', by rw [h, hunlock]⟩

@[simp] lemma gate_abandon (s : Instance γ δ α ρ) (batch : List (Nat × Request α ρ))
    (fault : Fault) : (s.abandon batch fault).gate = s.gate := by
  obtain ⟨cells, writers, log, finished, h⟩ := s.abandon_frame batch fault
  rw [h]

@[simp] lemma gate_complete [Gate γ κ δ] (s : Instance γ δ α ρ) (batch : List (Nat × Request α ρ))
    (old : Side) : (s.complete batch old).gate = s.gate := by
  obtain ⟨cells, writers, log, finished, h⟩ := s.complete_frame batch old
  rw [h]

@[simp] lemma round_abandon (s : Instance γ δ α ρ) (batch : List (Nat × Request α ρ))
    (fault : Fault) : (s.abandon batch fault).round = s.round := by
  obtain ⟨cells, writers, log, finished, h⟩ := s.abandon_frame batch fault
  rw [h]

@[simp] lemma round_complete [Gate γ κ δ] (s : Instance γ δ α ρ)
    (batch : List (Nat × Request α ρ)) (old : Side) : (s.complete batch old).round = s.round := by
  obtain ⟨cells, writers, log, finished, h⟩ := s.complete_frame batch old
  rw [h]

@[simp] lemma registry_abandon (s : Instance γ δ α ρ) (batch : List (Nat × Request α ρ))
    (fault : Fault) : (s.abandon batch fault).registry = s.registry := by
  obtain ⟨cells, writers, log, finished, h⟩ := s.abandon_frame batch fault
  rw [h]

@[simp] lemma registry_complete [Gate γ κ δ] (s : Instance γ δ α ρ)
    (batch : List (Nat × Request α ρ)) (old : Side) :
    (s.complete batch old).registry = s.registry := by
  obtain ⟨cells, writers, log, finished, h⟩ := s.complete_frame batch old
  rw [h]

/-! ## Reported events -/

/-- All events reported between two states satisfy `P`. -/
def Reports (P : Event → Prop) (s t : Instance γ δ α ρ) : Prop :=
  ∃ events, t.log = events ++ s.log ∧ ∀ e ∈ events, P e

namespace Reports

variable {P Q : Event → Prop} {s t u : Instance γ δ α ρ}

lemma of_log_eq (h : t.log = s.log) : s.Reports P t :=
  ⟨[], h, nofun⟩

lemma of_log_cons {e : Event} (he : P e) (h : t.log = e :: s.log) : s.Reports P t :=
  ⟨[e], h, by simpa using he⟩

lemma trans (h : s.Reports P t) (h' : t.Reports P u) : s.Reports P u := by
  obtain ⟨events, hlog, hall⟩ := h
  obtain ⟨events', hlog', hall'⟩ := h'
  refine ⟨events' ++ events, by rw [hlog', hlog, List.append_assoc], fun e he => ?_⟩
  exact (List.mem_append.1 he).elim (hall' e) (hall e)

lemma mono (h : s.Reports P t) (himp : ∀ e, P e → Q e) : s.Reports Q t := by
  obtain ⟨events, hlog, hall⟩ := h
  exact ⟨events, hlog, fun e he => himp e (hall e he)⟩

end Reports

lemma collect_reports (s : Instance γ δ α ρ) (w : Writer α) :
    s.Reports (· = .misused .noOutput) (s.collect w) := by
  unfold collect
  split
  · split
    · exact .of_log_eq rfl
    · exact .of_log_cons rfl rfl
  · exact .of_log_eq rfl

lemma unlock_reports (s : Instance γ δ α ρ) : s.Reports (· = .misused .noOutput) s.unlock := by
  have hfold : ∀ (ws : List (Writer α)) (t : Instance γ δ α ρ),
      t.Reports (· = .misused .noOutput) (ws.foldl collect t) := by
    intro ws
    induction ws with
    | nil => exact fun _ => .of_log_eq rfl
    | cons w ws ih => exact fun t => (t.collect_reports w).trans (ih (t.collect w))
  exact hfold s.writers { s with lock := s.lock.release.2 }

/-- Abandoning a round reports its batch, and misuse for writers that find no output. -/
lemma abandon_reports (s : Instance γ δ α ρ) (batch : List (Nat × Request α ρ)) (fault : Fault) :
    s.Reports (fun e => e = .misused .noOutput ∨ e = .batchAbandoned batch.length)
      (s.abandon batch fault) := by
  -- the fault is passed to the leading writer without a report
  have hfail : ∀ (t : Instance γ δ α ρ) (writer : Nat), (t.fail writer fault).log = t.log := by
    intro t writer
    obtain ⟨writers, finished, h⟩ := t.fail_frame writer fault
    rw [h]
  unfold abandon abandonAs
  simp only [foldl_modifyCell]
  refine Reports.trans ?_ ((unlock_reports _).mono fun _ => .inl)
  rcases s.style with _ | _
  · cases batch with
    | nil => exact .of_log_eq rfl
    | cons x batch => exact .of_log_eq (hfail _ _)
  · cases batch with
    | nil => exact .of_log_cons (.inr rfl) rfl
    | cons x batch => exact .of_log_cons (.inr rfl) (hfail _ _)

/-- Completing a round reports the completion event of its style. -/
lemma complete_reports [Gate γ κ δ] (s : Instance γ δ α ρ) (batch : List (Nat × Request α ρ))
    (old : Side) :
    s.Reports (fun e => e = .misused .noOutput ∨
        e = match s.style with
          | .exclusive => Gate.appliedEvent s.gate (s.mutations + batch.length) old.opposite
          | .combining => .batchApplied batch.length (s.batches + 1))
      (s.complete batch old) := by
  unfold complete
  simp only [foldl_modifyCell]
  refine Reports.trans ?_ ((unlock_reports _).mono fun _ => .inl)
  exact .of_log_cons (.inr rfl) rfl

/-! ## The number of cells -/

@[simp] lemma length_cells_collect (s : Instance γ δ α ρ) (w : Writer α) :
    (s.collect w).cells.length = s.cells.length := by
  unfold collect
  split
  · split <;> simp [finish, misused, report, modifyCell]
  · rfl

@[simp] lemma length_cells_unlock (s : Instance γ δ α ρ) :
    s.unlock.cells.length = s.cells.length := by
  have hfold : ∀ (ws : List (Writer α)) (t : Instance γ δ α ρ),
      (ws.foldl collect t).cells.length = t.cells.length := by
    intro ws
    induction ws with
    | nil => exact fun _ => rfl
    | cons w ws ih => exact fun t => by rw [List.foldl_cons, ih, length_cells_collect]
  exact hfold _ _

lemma length_foldl_modify (batch : List (Nat × Request α ρ)) (cells : List (Cell α ρ))
    (f : Cell α ρ → Cell α ρ) :
    (batch.foldl (fun cells x => cells.modify x.1 f) cells).length = cells.length := by
  induction batch generalizing cells with
  | nil => rfl
  | cons x batch ih => rw [List.foldl_cons, ih, List.length_modify]

@[simp] lemma length_cells_abandon (s : Instance γ δ α ρ) (batch : List (Nat × Request α ρ))
    (fault : Fault) : (s.abandon batch fault).cells.length = s.cells.length := by
  obtain ⟨writers, log, finished, h⟩ := s.exists_abandon_eq_unlock batch fault
  rw [h, length_cells_unlock]
  exact length_foldl_modify _ _ _

@[simp] lemma length_cells_complete [Gate γ κ δ] (s : Instance γ δ α ρ)
    (batch : List (Nat × Request α ρ)) (old : Side) :
    (s.complete batch old).cells.length = s.cells.length := by
  obtain ⟨log, h⟩ := s.complete_eq batch old
  rw [h, length_cells_unlock]
  exact length_foldl_modify _ _ _

end Instance

end TwinCopy
