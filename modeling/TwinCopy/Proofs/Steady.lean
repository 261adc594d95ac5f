import TwinCopy.Proofs.ReadInvariant
import TwinCopy.Proofs.Unhindered

/-!
# Steady sessions

A session is `Steady` if, with plain callers and as long as the history satisfies the limit of the
gate, `ReadInv` holds and every point is unhindered. If no query is under way writers then finish,
by steps of the leading writer alone: `exists_no_writer_inside`. And a mutation that begins when no
writer is inside finishes at once, with the output of a single sequential object:
`exists_finished_of_perform`.
-/

namespace TwinCopy

variable {γ κ δ α ρ : Type} [Gate γ κ δ]

/-- A session without writers, such that with plain callers `ReadInv` holds and every point is
unhindered, if the history satisfies `fits`. -/
structure Session.Steady [DecidableEq κ] (s : Session γ κ δ α ρ) (a : α)
    (fits : History γ κ δ α ρ → Prop) : Prop where
  exclusive : s.Exclusive .resting
  still : s.inst.still = true
  round : s.inst.round = none
  queued : Queued s [] none
  plainInv : PlainInv s []
  append : ∀ {actions h : History γ κ δ α ρ}, h.Unobserved → (∀ d ∈ actions, d.Quiet) → fits h →
    fits (actions ++ h)
  readInv : ∀ {ticks : List (Tick α ρ)}, Plainly ticks →
    let p := (Point.start s).after ticks
    fits p.history → (∀ r ∈ p.history.published, r.mutation.Regular) →
      ReadInv s.inst.activeSide a p.session p.history p.stage
  unhindered : ∀ {ticks : List (Tick α ρ)}, Plainly ticks →
    let p := (Point.start s).after ticks
    fits p.history → p.Unhindered

namespace Session.Steady

variable [DecidableEq κ] {s : Session γ κ δ α ρ} {a : α} {fits : History γ κ δ α ρ → Prop}
  {ticks : List (Tick α ρ)}

lemma exclusive_after (S : s.Steady a fits) (ticks : List (Tick α ρ)) :
    ((Point.start s).after ticks).session.Exclusive ((Point.start s).after ticks).control :=
  Point.exclusive_after S.exclusive ticks

lemma requestsCalled_after (S : s.Steady a fits) (ticks : List (Tick α ρ)) :
    let p := (Point.start s).after ticks
    Queued p.session p.history p.task? ∧ RequestsCalled p.session p.history :=
  TwinCopy.requestsCalled_after S.exclusive S.round S.queued ticks

lemma plainInv_after (S : s.Steady a fits) (hticks : Plainly ticks) :
    PlainInv ((Point.start s).after ticks).session ((Point.start s).after ticks).history :=
  TwinCopy.plainInv_after S.exclusive S.plainInv hticks

/-- Actions without reads and without readers preserve `fits`. -/
lemma fits_append (S : s.Steady a fits) {ticks ticks' : List (Tick α ρ)}
    {actions : History γ κ δ α ρ} (hfits : fits ((Point.start s).after ticks).history)
    (hhistory : ((Point.start s).after ticks').history =
      actions ++ ((Point.start s).after ticks).history)
    (hactions : ∀ d ∈ actions, d.crossing = .absent)
    (hcalls : ∀ r ∈ ((Point.start s).after ticks').history.published, r.observed = false) :
    fits ((Point.start s).after ticks').history := by
  have hunobserved := (S.requestsCalled_after ticks').1.unobserved hcalls
  rw [hhistory] at hunobserved ⊢
  refine S.append (fun found side p r hmem => ?_) (fun d hd => ⟨hactions d hd, ?_⟩) hfits
  · exact hunobserved found side p r (List.mem_append_right _ hmem)
  · rintro found side p r rfl
    exact hunobserved found side p r (List.mem_append_left _ hd)

/-- In a still state without a query under way no writer is inside. -/
lemma writers_eq_nil (S : s.Steady a fits) (hticks : Plainly ticks) :
    let p := (Point.start s).after ticks
    fits p.history → p.session.visits = [] → p.control = .resting → p.inst.still = true →
      p.inst.writers = [] := by
  intro p hfits hvisits hcontrol hstill
  exact (S.unhindered hticks hfits).writers_eq_nil (S.exclusive_after ticks)
    (S.requestsCalled_after ticks).1
    hvisits (S.plainInv_after hticks).unguarded hcontrol hstill

/-- If no query is under way the writers finish, provided that their mutations make no reads. -/
theorem exists_no_writer_inside (S : s.Steady a fits) (hticks : Plainly ticks) :
    let p := (Point.start s).after ticks
    fits p.history → (∀ r ∈ p.history.published, r.observed = false) → p.session.visits = [] →
      ∃ n, let q := p.after (List.replicate n .writer)
        p.WriterProgress q ∧ fits q.history ∧ q.inst.writers = [] := by
  intro p hfits hcalls hvisits
  obtain ⟨n, hcontrol, hstill⟩ := Point.exists_still (S.exclusive_after ticks)
  have hwriterProgress : p.WriterProgress (p.after (List.replicate n .writer)) :=
    Point.writerProgress_replicate (S.exclusive_after ticks) (S.requestsCalled_after ticks).1 n
  have hafter : (Point.start s).after (ticks ++ List.replicate n .writer) =
      p.after (List.replicate n .writer) := Point.after_append _ _ _
  obtain ⟨actions, hhistory, hactions⟩ := hwriterProgress.history
  obtain ⟨inst, hsession⟩ := hwriterProgress.session
  have hsame := hwriterProgress.calls
  have hfits' : fits (p.after (List.replicate n .writer)).history := by
    rw [← hafter] at hhistory hsame ⊢
    refine S.fits_append hfits hhistory hactions ?_
    rw [← History.map_snd_calls, hsame, History.map_snd_calls]
    exact hcalls
  refine ⟨n, hwriterProgress, hfits', ?_⟩
  have hnone := S.writers_eq_nil (hticks.append (Plainly.replicate_writer n))
  rw [hafter] at hnone
  exact hnone hfits' (by rw [hsession]; exact hvisits) hcontrol hstill

end Session.Steady

/-! ## A mutation on an idle instance -/

/-- If no writer is inside another one is admitted, with a slot of the instance under the combining
style. -/
lemma Session.act_mutate_of_idle {s : Session γ κ δ α ρ} (hwriters : s.inst.writers = []) {k : Nat}
    (hslot : s.inst.style = .combining → (s.own? k).isSome = true) (mutation : Mutation α ρ)
    (observed : Bool) : ∃ i, (s.act (.mutate k mutation observed)).2 =
      { s with
        inst := s.inst.publish i ⟨s.started, mutation, observed⟩
        started := s.started + 1 } := by
  cases hstyle : s.inst.style with
  | exclusive =>
    refine ⟨0, ?_⟩
    rw [mutate_of_style hstyle, hwriters, List.isEmpty_nil, if_pos rfl]
  | combining =>
    obtain ⟨slot, hown⟩ := Option.isSome_iff_exists.1 (hslot hstyle)
    obtain ⟨hk, hissuer⟩ := Option.filter_eq_some_iff.1 hown
    refine ⟨slot.index, ?_⟩
    have hidle : s.hasRequest slot = false := by
      rw [hasRequest, hwriters, List.any_nil, Bool.and_false]
    rw [mutate_of_combining hstyle hk, hidle, if_neg Bool.false_ne_true,
      if_pos (of_decide_eq_true hissuer)]

omit [Gate γ κ δ] in
/-- Without a round under way there is no leading writer. -/
lemma Point.control_eq_resting {p : Point γ κ δ α ρ} (h : p.task? = none) :
    p.control = .resting := by
  rcases hcontrol : p.control with _ | _ | _
  · rfl
  · simp [task?, hcontrol, Instance.task?] at h
  · simp [task?, hcontrol, Instance.task?] at h

/-- The point `q` follows `p`, and one more request was published in between. -/
structure Point.Follows (p q : Point γ κ δ α ρ) (r : Request α ρ) : Prop where
  history : ∃ actions, q.history = actions ++ p.history ∧ ∀ d ∈ actions, d.crossing = .absent
  published : q.history.published = p.history.published ++ [r]
  emptied : q.history.emptied = p.history.emptied
  finished : ∃ gone, q.inst.finished = gone ++ p.inst.finished

/-- Steps of the leading writer preserve this. -/
lemma Point.WriterProgress.follows {p q : Point γ κ δ α ρ} (hwriters : p.inst.writers = [])
    {k i : Nat} {mutation : Mutation α ρ} {observed : Bool}
    (hact : (p.session.act (.mutate k mutation observed)).2 =
      { p.session with
        inst := p.session.inst.publish i ⟨p.session.started, mutation, observed⟩
        started := p.session.started + 1 })
    (hwriterProgress : (p.next (.caller (.mutate k mutation observed))).WriterProgress q) :
    p.Follows q ⟨p.session.started, mutation, observed⟩ := by
  have hpublished : (Action.moved p.session (.mutate k mutation observed)).requestPublished =
      [⟨p.session.started, mutation, observed⟩] := by
    have habsent : p.session.inst.writers = [] := hwriters
    simp [Action.requestPublished, hact, Instance.publish, Instance.modifyCell, habsent]
  obtain ⟨actions, hhistory, hactions⟩ := hwriterProgress.history
  obtain ⟨gone, hgone⟩ := hwriterProgress.finished
  refine ⟨⟨actions ++ [.moved p.session (.mutate k mutation observed)], ?_, ?_⟩, ?_, ?_, gone, ?_⟩
  · rw [List.append_assoc]
    exact hhistory
  · exact List.forall_mem_append.2 ⟨hactions, by rintro d hd; rw [List.mem_singleton.1 hd]; rfl⟩
  · rw [← History.map_snd_calls, hwriterProgress.calls, History.map_snd_calls]
    exact (History.published_cons _ _).trans (by rw [hpublished])
  · rw [hwriterProgress.emptied]
    exact (History.emptied_cons _ _).trans (List.append_nil _)
  · rw [hgone]
    refine congrArg (gone ++ ·) ?_
    change (p.session.act (.mutate k mutation observed)).2.inst.finished = _
    rw [hact]
    rfl

namespace Point.Follows

variable {p q : Point γ κ δ α ρ} {r : Request α ρ} {a : α}

/-- The completed batches have one more request, which is a batch of its own. -/
lemma exists_completed (hpq : p.Follows q r) (hb : RegularInv ⟨a, a⟩ p.session p.history p.task?)
    (hb' : RegularInv ⟨a, a⟩ q.session q.history q.task?) (hwriters : p.inst.writers = [])
    (hwriters' : q.inst.writers = []) :
    ∃ i, q.history.completed = p.history.completed ++ [[(i, r)]] := by
  obtain ⟨actions, hhistory, -⟩ := hpq.history
  have happend : q.history.completed = p.history.completed ++ History.completed actions := by
    rw [hhistory, History.completed, History.gather_append]
    rfl
  obtain ⟨-, hperm, -⟩ := hb.rest hwriters
  obtain ⟨-, hperm', -⟩ := hb'.rest hwriters'
  rw [Point.completed, happend, requests_append, hpq.published] at hperm'
  have hnew := (List.perm_append_left_iff _).1 ((hperm.symm.append_right [r]).trans hperm')
  have hne : ∀ batch ∈ History.completed actions, batch ≠ [] := by
    intro batch hbatch
    have hl : CopyInv ⟨a, a⟩ q.history q.inst q.task? := hb'.copyInv
    refine hb'.requestInv.snapshots.ne_nil ?_
    rw [hl.taken, happend]
    exact List.mem_append_left _ (List.mem_append_right _ hbatch)
  obtain ⟨i, hi⟩ := exists_of_requests_eq_singleton hne (List.perm_singleton.1 hnew.symm)
  exact ⟨i, by rw [happend, hi]⟩

lemma completed_eq (hpq : p.Follows q r) (hb : RegularInv ⟨a, a⟩ p.session p.history p.task?)
    (hb' : RegularInv ⟨a, a⟩ q.session q.history q.task?) (hwriters : p.inst.writers = [])
    (hwriters' : q.inst.writers = []) : q.completed = p.completed ++ [r] := by
  obtain ⟨i, hi⟩ := hpq.exists_completed hb hb' hwriters hwriters'
  rw [Point.completed, hi, requests_append, requests_singleton]
  rfl

/-- The finished writers have one more output, which is that of this request. -/
lemma exists_finished (hpq : p.Follows q r) (hb : RegularInv ⟨a, a⟩ p.session p.history p.task?)
    (hb' : RegularInv ⟨a, a⟩ q.session q.history q.task?) (haway : p.history.turnedAway = [])
    (haway' : q.history.turnedAway = []) (hwriters : p.inst.writers = [])
    (hwriters' : q.inst.writers = []) :
    ∃ f, q.inst.finished = f :: p.inst.finished ∧
      f.outcome = r.mutation.outcome (replay a p.completed) := by
  have hfinished := (hb.outputInv a rfl).finished
  have hfinished' := (hb'.outputInv a rfl).finished
  rw [haway, List.map_nil, List.nil_append] at hfinished
  rw [haway', List.map_nil, List.nil_append] at hfinished'
  have hanswers : answers a q.completed =
      answers a p.completed ++ [(r.writer, r.mutation.outcome (replay a p.completed))] := by
    rw [hpq.completed_eq hb hb' hwriters hwriters', answers_append]
    rfl
  obtain ⟨gone, hgone⟩ := hpq.finished
  change (List.map _ (_ ++ q.inst.finished.reverse)).Perm (answers a q.completed) at hfinished'
  rw [hpq.emptied, hgone, List.reverse_append, ← List.append_assoc, List.map_append,
    hanswers] at hfinished'
  have hnew := (List.perm_append_left_iff _).1 ((hfinished.symm.append_right _).trans hfinished')
  obtain ⟨f, rfl⟩ : ∃ f, gone = [f] := by
    refine List.length_eq_one_iff.1 ?_
    simpa using hnew.length_eq
  have hanswer := List.perm_singleton.1 hnew
  exact ⟨f, hgone, congrArg Prod.snd (List.singleton_inj.1 hanswer)⟩

end Point.Follows

namespace Session.Steady

variable [DecidableEq κ] {s : Session γ κ δ α ρ} {a : α} {fits : History γ κ δ α ρ → Prop}
  {ticks : List (Tick α ρ)}

/-- A mutation that begins when no writer is inside and no query is under way finishes at once. -/
lemma exists_follows (S : s.Steady a fits) (hticks : Plainly ticks) {p : Point γ κ δ α ρ}
    (hp : (Point.start s).after ticks = p) (hfits : fits p.history)
    (hcalls : ∀ r ∈ p.history.published, r.observed = false) (hcontrol : p.control = .resting)
    (hwriters : p.inst.writers = []) (hvisits : p.session.visits = []) {k : Nat}
    (hslot : p.inst.style = .combining → (p.session.own? k).isSome = true)
    (mutation : Mutation α ρ) : ∃ ticks' q, Plainly ticks' ∧ (Point.start s).after ticks' = q ∧
      q.session = (p.session.perform (.mutate k mutation false)).2 ∧ fits q.history ∧
      q.inst.writers = [] ∧ p.Follows q ⟨p.session.started, mutation, false⟩ := by
  let m : Move α ρ := .mutate k mutation false
  obtain ⟨i, hact⟩ := Session.act_mutate_of_idle hwriters hslot mutation false
  have hexclusive := S.exclusive_after ticks
  rw [hp] at hexclusive
  obtain ⟨n, history, hafter, hstill⟩ := Point.exists_perform hexclusive hcontrol m
  set q : Point γ κ δ α ρ := ⟨history, (p.session.perform m).2, .resting⟩
  have hmid : (Point.start s).after (ticks ++ [.caller m]) = p.next (.caller m) := by
    rw [Point.after_append, hp]
    rfl
  have hlast : (Point.start s).after (ticks ++ .caller m :: List.replicate n .writer) = q := by
    rw [Point.after_append, hp]
    exact hafter
  have hplain : Plainly (ticks ++ .caller m :: List.replicate n .writer) := by
    refine hticks.append fun m' hm' => ?_
    rcases List.mem_cons.1 hm' with hm' | hm'
    · cases hm'
      trivial
    · exact Plainly.replicate_writer n m' hm'
  have hfollows : p.Follows q ⟨p.session.started, mutation, false⟩ := by
    have hexclusive' := S.exclusive_after (ticks ++ [.caller m])
    have hqueued := (S.requestsCalled_after (ticks ++ [.caller m])).1
    rw [hmid] at hexclusive' hqueued
    have hwriterProgress := Point.writerProgress_replicate hexclusive' hqueued n
    rw [hafter] at hwriterProgress
    exact hwriterProgress.follows hwriters hact
  obtain ⟨actions, hhistory, hactions⟩ := hfollows.history
  -- no reader has arrived meanwhile, so the history still fits
  have hfits' : fits q.history := by
    rw [← hlast]
    refine S.fits_append (hp ▸ hfits) (by rw [hlast, hp]; exact hhistory) hactions ?_
    rw [hlast, hfollows.published]
    exact List.forall_mem_append.2 ⟨hcalls, by simp⟩
  have habsent : q.session.visits = [] := by
    change (p.session.act m).2.visits = []
    rw [hact]
    exact hvisits
  refine ⟨_, q, hplain, hlast, rfl, hfits', ?_, hfollows⟩
  have hnone := S.writers_eq_nil hplain
  rw [hlast] at hnone
  exact hnone hfits' habsent rfl hstill

/-- `RegularInv` holds if all mutations are regular. -/
lemma regularInv (S : s.Steady a fits) (hticks : Plainly ticks) :
    let p := (Point.start s).after ticks
    fits p.history → (∀ r ∈ p.history.published, r.mutation.Regular) →
      RegularInv ⟨a, a⟩ p.session p.history p.task? := by
  intro p hfits hregular
  rw [Point.task?, Instance.task?_eq]
  exact (S.readInv hticks hfits hregular).regularInv

/-- Its output is that of a single object with the mutations completed before. -/
theorem exists_finished_of_perform (S : s.Steady a fits) (hticks : Plainly ticks)
    {p : Point γ κ δ α ρ} (hp : (Point.start s).after ticks = p) (hfits : fits p.history)
    (hcalls : ∀ r ∈ p.history.published, r.mutation.Regular ∧ r.observed = false)
    (hwriters : p.inst.writers = []) (hvisits : p.session.visits = []) {k : Nat}
    (hslot : p.inst.style = .combining → (p.session.own? k).isSome = true)
    {mutation : Mutation α ρ} (hmutation : mutation.Regular) :
    ∃ f, (p.session.perform (.mutate k mutation false)).2.inst.finished = f :: p.inst.finished ∧
      f.outcome = mutation.outcome (replay a p.completed) := by
  have hb := S.regularInv hticks
  have ho := S.plainInv_after hticks
  rw [hp] at hb ho
  have hb := hb hfits fun r hr => (hcalls r hr).1
  obtain ⟨ticks', q, hticks', hq, hsession, hfits', hwriters', hfollows⟩ :=
    S.exists_follows hticks hp hfits (fun r hr => (hcalls r hr).2)
      (Point.control_eq_resting (hb.task?_eq_none hwriters)) hwriters hvisits hslot mutation
  have hb' := S.regularInv hticks'
  have ho' := S.plainInv_after hticks'
  rw [hq] at hb' ho'
  have hb' := hb' hfits' (by
    rw [hfollows.published]
    exact List.forall_mem_append.2 ⟨fun r hr => (hcalls r hr).1, by simpa using hmutation⟩)
  rw [← hsession]
  exact hfollows.exists_finished hb hb' ho.turnedAway ho'.turnedAway hwriters hwriters'

end Session.Steady

/-! ## Gates -/

/-- Over a gate with `ExactGateInv` sessions are steady, within the limit of the gate. -/
theorem steady_of_exactGateInv [DecidableEq κ] {current : γ → κ} {old : δ → κ}
    {limit : List κ → Nat → Prop} {Knows : γ → Option (Phase δ) → List (Nat × κ) → Nat → Prop}
    (M : ExactGateInv current old limit Knows) (hlimit : limit [] 0) {style : Style}
    {a : α} {gate : γ} {registry : Registry} {cells : Nat} {wait : WaitPolicy}
    (hroom : (Session.ofInstance (.fresh style ⟨a, a⟩ gate registry cells wait) :
      Session γ κ δ α ρ).EnoughCells) (hknows : Knows gate none [] 0) :
    (Session.ofInstance (.fresh style ⟨a, a⟩ gate registry cells wait) :
      Session γ κ δ α ρ).Steady a (History.Within limit) where
  exclusive := Session.exclusive_fresh _ _ _ _ _ _
  still := rfl
  round := rfl
  queued := .start hroom
  plainInv := .start _
  append := .append hlimit
  readInv hticks hwithin hregular :=
    readInv_after M.toGateInv (Session.exclusive_fresh _ _ _ _ _ _) rfl (.start rfl rfl hknows)
      (.start hroom) _
      (plainInv_after (Session.exclusive_fresh _ _ _ _ _ _) (.start _) hticks).matched hwithin
      hregular
  unhindered hticks hwithin :=
    unhindered_of_exactGateInv M (Session.exclusive_fresh _ _ _ _ _ _) rfl (.start rfl rfl hknows)
      (.start _) hticks hwithin

/-- Two read-indicators that count. -/
lemma steady_of_counting {kind : IndicatorKind} (hkind : kind.Counting) (style : Style) (c : Config)
    (a : α) : (Session.ofInstance (.ofStyle style kind c ⟨a, a⟩) :
      Session Versioned Version Version α ρ).Steady a (·.Within (Versioned.Limit kind)) := by
  obtain ⟨registry, cells, hstart, hroom⟩ :=
    Session.exists_enoughCells_ofStyle (ρ := ρ) style kind c ⟨a, a⟩
  rw [hstart]
  exact steady_of_exactGateInv (Versioned.exactGateInv kind) (by cases kind <;> decide) hroom
    (Versioned.knows_ofConfig hkind c)

/-- A word with versions. -/
lemma steady_versionedWord (c : Config) (a : α) : (Session.ofInstance (.versionedWord c ⟨a, a⟩) :
    Session VersionedWord Version Version α ρ).Steady a (·.Within VersionedWord.Limit) :=
  steady_of_exactGateInv VersionedWord.exactGateInv (by decide)
    (Session.enoughCells_exclusive _ _ _ _)
    VersionedWord.knows_fresh

/-- A word without versions. -/
lemma steady_ingressWord (c : Config) (a : α) : (Session.ofInstance (.ingressWord c ⟨a, a⟩) :
    Session IngressWord Side IngressWord.Backlog α ρ).Steady a (·.Within IngressWord.Limit) :=
  steady_of_exactGateInv IngressWord.exactGateInv (by decide)
    (Session.enoughCells_exclusive _ _ _ _)
    IngressWord.knows_fresh

/-- Over flags sessions are steady as long as no query is doubled. -/
theorem steady_of_single {kind : IndicatorKind} (hkind : ¬ kind.Counting) (style : Style)
    (c : Config) (a : α) :
    (Session.ofInstance (.ofStyle style kind c ⟨a, a⟩) :
      Session Versioned Version Version α ρ).Steady
      a fun h => ∀ d ∈ h, d.Single := by
  set s : Session Versioned Version Version α ρ := .ofInstance (.ofStyle style kind c ⟨a, a⟩)
  have hexclusive : s.Exclusive .resting := Session.exclusive_ofStyle style kind c ⟨a, a⟩
  have hround : s.inst.round = none := Instance.round_ofStyle style kind c ⟨a, a⟩
  have hgate : s.inst.gate = .ofConfig kind c := Instance.gate_ofStyle style kind c ⟨a, a⟩
  obtain ⟨registry, cells, hstart, hroom⟩ :=
    Session.exists_enoughCells_ofStyle (ρ := ρ) style kind c ⟨a, a⟩
  have hregularInv : RegularInv ⟨a, a⟩ s [] none := by
    simp only [s, hstart]
    exact .start hroom
  have hqueued : Queued s [] none := by
    simp only [s, hstart]
    exact .start hroom
  have hclean : s.inst.gate.Clean := hgate ▸ Versioned.clean_ofConfig kind c
  refine ⟨hexclusive, Instance.still_ofStyle style kind c ⟨a, a⟩, hround, hqueued, .start _,
    fun {actions h} _ hactions hsingle => ?_, fun hticks _ hregular => ?_,
    fun hticks hsingle => unhindered_of_single hkind style c ⟨a, a⟩ hticks hsingle⟩
  · refine List.forall_mem_append.2 ⟨fun d hd => ?_, hsingle⟩
    cases d with
    | moved s m =>
      have hcrossing : s.crossing m = .absent := (hactions _ hd).1
      rw [Action.Single, hcrossing]
      trivial
    | _ => trivial
  · -- `ReadInv` needs no limit here, as it depends on the versions of the gate only
    exact readInv_after Versioned.gateInv hexclusive hround (.start rfl hround hclean) hregularInv _
      (plainInv_after hexclusive (.start _) hticks).matched (.of_forall (fun _ _ => trivial) _)
      hregular

end TwinCopy
