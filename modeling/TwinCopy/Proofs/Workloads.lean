import Mathlib.Algebra.Group.Nat.Even
import Mathlib.Algebra.Ring.Parity
import TwinCopy.Proofs.Steady
import TwinCopy.Workload

/-!
# Workloads on every schedule

Writers append numbers of their own while readers look. The result is the same for every schedule
and for every division of the requests into batches, except for the interleaving of the numbers of
different writers.

`Workload.Runs` is the invariant at every point: `ReadInv` holds, and the requests published append
the numbers of the workload. When no writer is inside it implies `Workload.Done`, and for queries
that the list only grows. `Session.Steady` then gives that the writers finish, and the result of a
last mutation.
-/

namespace TwinCopy

open Numbers

/-! ## Lists that grow at the end -/

namespace Numbers.Change

lemma regular_push (x : Int64) : (push x).mutation.Regular :=
  ⟨fun xs => (xs ++ [x], lengthOutput (xs ++ [x])), rfl⟩

lemma regular_len : len.mutation.Regular :=
  ⟨fun xs => (xs, lengthOutput xs), rfl⟩

/-- Requests that append numbers extend the list by these numbers. -/
lemma replay_push {rs : List (Request Numbers (Option Int))}
    {number : Request Numbers (Option Int) → Int64}
    (h : ∀ r ∈ rs, r.mutation = (push (number r)).mutation) (xs : Numbers) :
    replay xs rs = xs ++ rs.map number := by
  induction rs generalizing xs with
  | nil => exact (List.append_nil xs).symm
  | cons r rs ih =>
    obtain ⟨hr, hrs⟩ := List.forall_mem_cons.1 h
    rw [replay_cons, hr, ih hrs, List.map_cons, List.append_cons]
    rfl

/-- The outputs are the lengths of the list. -/
lemma map_snd_answers_push {rs : List (Request Numbers (Option Int))}
    {number : Request Numbers (Option Int) → Int64}
    (h : ∀ r ∈ rs, r.mutation = (push (number r)).mutation) (xs : Numbers) :
    (answers xs rs).map Prod.snd =
      (List.range rs.length).map fun i => .ok (some ((xs.length + i + 1 : Nat) : Int)) := by
  induction rs generalizing xs with
  | nil => rfl
  | cons r rs ih =>
    obtain ⟨hr, hrs⟩ := List.forall_mem_cons.1 h
    have hlength : (r.mutation.effect xs).length = xs.length + 1 := by
      rw [hr]
      exact List.length_append
    have houtcome : r.mutation.outcome xs = .ok (some ((xs.length + 1 : Nat) : Int)) := by
      rw [← hlength, hr]
      rfl
    rw [answers, List.map_cons, ih hrs, houtcome, hlength, List.length_cons, List.range_succ_eq_map,
      List.map_cons, List.map_map]
    refine congrArg₂ List.cons rfl (List.map_congr_left fun i _ => ?_)
    simp only [Function.comp_apply, Nat.succ_eq_add_one]
    rw [Nat.add_assoc xs.length 1 i, Nat.add_comm 1 i]

end Numbers.Change

/-- After an odd number of turns the right side is active. -/
lemma Side.iterate_opposite_left (n : Nat) : Side.opposite^[n] .left = .right ↔ Odd n := by
  have hinvolutive : Function.Involutive Side.opposite := Side.opposite_opposite
  rcases Nat.even_or_odd n with hn | hn
  · rw [hinvolutive.iterate_even hn]
    exact iff_of_false (by simp) (Nat.not_odd_iff_even.2 hn)
  · rw [hinvolutive.iterate_odd hn]
    exact iff_of_true rfl hn

/-! ## Interleavings of a workload -/

namespace Workload

/-- The numbers that the writers of a workload append, in an order that preserves the order of each
writer: writer `j` appends the `work` numbers from `j * work` on. -/
structure Interleaves (w : Workload) (xs : List Nat) : Prop where
  lt : ∀ x ∈ xs, x < w.writers * w.work
  own : ∀ j < w.writers, xs.filter (· / w.work = j) = List.range' (j * w.work) w.work

lemma Interleaves.perm {w : Workload} {xs : List Nat} (h : w.Interleaves xs) :
    xs.Perm (List.range (w.writers * w.work)) := by
  refine List.perm_iff_count.2 fun x => ?_
  by_cases hx : x < w.writers * w.work
  · -- the numbers of a writer are distinct
    have hwork : 0 < w.work := Nat.pos_of_ne_zero (by rintro hzero; simp [hzero] at hx)
    have hj : x / w.work < w.writers := Nat.div_lt_of_lt_mul (by rwa [Nat.mul_comm])
    have hown := congrArg (List.count x) (h.own _ hj)
    rw [List.count_filter (by simp)] at hown
    rw [hown, List.count_eq_one_of_mem (List.nodup_range' ..),
      List.count_eq_one_of_mem List.nodup_range]
    · exact List.mem_range.2 hx
    · have hdiv := Nat.div_add_mod x w.work
      have hmod := Nat.mod_lt x hwork
      rw [List.mem_range'_1, Nat.mul_comm]
      omega
  · rw [List.count_eq_zero.2 fun hmem => hx (h.lt x hmem),
      List.count_eq_zero.2 (by simpa using hx)]

end Workload

variable {γ κ δ : Type} [Gate γ κ δ]

/-- The number that a request appends, if these numbers are appended in the order of the
requests. -/
def Request.number {α ρ : Type} (xs : List Nat) (r : Request α ρ) : Nat :=
  xs.getD r.writer 0

/-- The requests published append these numbers, in this order, and each writer of the workload uses
one cell for all its requests. -/
def History.Pushes (w : Workload) (cell : Nat → Nat) (xs : List Nat)
    (h : History γ κ δ Numbers (Option Int)) : Prop :=
  h.calls.map (fun c => (c.1, c.2.mutation, c.2.observed)) =
    xs.map fun x => (cell (x / w.work), (Change.push (Int64.ofNat x)).mutation, false)

namespace History.Pushes

variable {w : Workload} {cell : Nat → Nat} {xs : List Nat}
  {h : History γ κ δ Numbers (Option Int)}

lemma length_eq (hp : h.Pushes w cell xs) : h.published.length = xs.length := by
  have hlength := congrArg List.length hp
  rw [List.length_map, List.length_map] at hlength
  rw [← h.map_snd_calls, List.length_map, hlength]

/-- Requests are identified by their writers, which are numbered in the order of the requests. -/
lemma of_mem (hp : h.Pushes w cell xs) {n : Nat}
    (hnumbers : h.published.map Request.writer = List.range n)
    {c : Nat × Request Numbers (Option Int)} (hc : c ∈ h.calls) :
      c.1 = cell (c.2.number xs / w.work) ∧
      c.2.mutation = (Change.push (Int64.ofNat (c.2.number xs))).mutation ∧
        c.2.observed = false := by
  obtain ⟨i, hi, rfl⟩ := List.getElem_of_mem hc
  have hwriter : (h.calls[i]).2.writer = i := by
    rw [← h.map_snd_calls, List.map_map] at hnumbers
    have hat := congrArg (·[i]?) hnumbers
    simp only [List.getElem?_map, List.getElem?_eq_getElem hi, Option.map_some] at hat
    have hlt : i < n := by
      by_contra hge
      rw [List.getElem?_eq_none (by simpa using hge)] at hat
      cases hat
    rw [List.getElem?_range hlt] at hat
    exact Option.some.inj hat
  have hlt : i < xs.length := by
    have hlength := congrArg List.length hp
    rw [List.length_map, List.length_map] at hlength
    exact hlength ▸ hi
  have hat := congrArg (·[i]?) hp
  simp only [List.getElem?_map, List.getElem?_eq_getElem hi, List.getElem?_eq_getElem hlt,
    Option.map_some, Option.some.injEq, Prod.mk.injEq] at hat
  have hnumber : (h.calls[i]).2.number xs = xs[i] := by
    rw [Request.number, hwriter, List.getD_eq_getElem?_getD, List.getElem?_eq_getElem hlt,
      Option.getD_some]
  rw [hnumber]
  exact hat

lemma map_number (hp : h.Pushes w cell xs) {n : Nat}
    (hnumbers : h.published.map Request.writer = List.range n) :
    h.published.map (Request.number xs) = xs := by
  have hn : n = xs.length := by
    have hlength := congrArg List.length hnumbers
    rw [List.length_map, List.length_range, hp.length_eq] at hlength
    exact hlength.symm
  have hmap : h.published.map (Request.number xs) =
      (h.published.map Request.writer).map fun i => xs.getD i 0 := by
    rw [List.map_map]
    rfl
  rw [hmap, hnumbers, hn]
  refine List.ext_getElem (by simp) fun i hi hi' => ?_
  simp [List.getElem?_eq_getElem hi']

/-- Every request published has this form. -/
lemma mutation_eq (hp : h.Pushes w cell xs) {n : Nat}
    (hnumbers : h.published.map Request.writer = List.range n)
    {r : Request Numbers (Option Int)} (hr : r ∈ h.published) :
    r.mutation = (Change.push (Int64.ofNat (r.number xs))).mutation ∧ r.observed = false := by
  rw [← h.map_snd_calls] at hr
  obtain ⟨c, hc, rfl⟩ := List.mem_map.1 hr
  exact (hp.of_mem hnumbers hc).2

end History.Pushes

/-! ## Points of a workload -/

variable [DecidableEq κ]

namespace Workload

/-- The invariant of a workload at a point where the requests published append these numbers to a
list. -/
structure Runs (w : Workload) (init : Numbers) (cell : Nat → Nat) (xs : List Nat)
    (p : Point γ κ δ Numbers (Option Int)) : Prop where
  plainInv : PlainInv p.session p.history
  requestsCalled : RequestsCalled p.session p.history
  readInv : ReadInv .left init p.session p.history p.stage
  pushes : p.history.Pushes w cell xs

namespace Runs

variable {w : Workload} {init : Numbers} {cell : Nat → Nat} {xs : List Nat}
  {p : Point γ κ δ Numbers (Option Int)}

lemma regularInv (hr : w.Runs init cell xs p) :
    RegularInv ⟨init, init⟩ p.session p.history p.task? := by
  rw [Point.task?, Instance.task?_eq]
  exact hr.readInv.regularInv

/-- The requests of the batches turned to were published. -/
lemma mem_published_of_turned (hr : w.Runs init cell xs p) {r : Request Numbers (Option Int)}
    (hmem : r ∈ p.turned) : r ∈ p.history.published := by
  have hl : CopyInv ⟨init, init⟩ p.history p.inst p.task? := hr.regularInv.copyInv
  refine hr.regularInv.requestInv.snapshots.published_perm.mem_iff.2 (List.mem_append_left _ ?_)
  rw [Point.turned, hl.turned, requests_append] at hmem
  rw [hl.taken, requests_append]
  refine (List.mem_append.1 hmem).elim (List.mem_append_left _) fun hahead =>
    List.mem_append_right _ ?_
  revert hahead
  rcases p.task? with _ | ⟨_ | _, done, rest, old⟩
  · exact id
  · exact fun hahead => absurd hahead List.not_mem_nil
  · exact id

/-- The batches turned to first extend the list by their numbers. -/
lemma replay_requests (hr : w.Runs init cell xs p) {batches : List (Batch Numbers (Option Int))}
    (hturned : batches <+: p.history.turned) :
    replay init (requests batches) =
      init ++ (requests batches).map fun r => Int64.ofNat (r.number xs) := by
  obtain ⟨rest, hrest⟩ := hturned
  refine Change.replay_push (fun r hmem => ?_) init
  refine (hr.pushes.mutation_eq hr.plainInv.numbers (hr.mem_published_of_turned ?_)).1
  rw [Point.turned, ← hrest, requests_append]
  exact List.mem_append_left _ hmem

/-- More batches turned to extend the list further. -/
lemma replay_grows (hr : w.Runs init cell xs p)
    {batches batches' : List (Batch Numbers (Option Int))} (hearlier : batches <+: batches')
    (hturned : batches' <+: p.history.turned) :
    replay init (requests batches) <+: replay init (requests batches') := by
  rw [hr.replay_requests (hearlier.trans hturned), hr.replay_requests hturned]
  obtain ⟨rest, rfl⟩ := hearlier
  rw [requests_append, List.map_append, ← List.append_assoc]
  exact List.prefix_append _ _

/-- The copy given to a query extends those given to earlier queries. -/
lemma seen_pairwise (hr : w.Runs init cell xs p) :
    p.history.seen.Pairwise (· <+: ·) ∧
      ∀ ys ∈ p.history.seen, ys <+: p.inst.copies.get p.inst.activeSide := by
  obtain ⟨counts, hsorted, hle, hseen⟩ := hr.readInv.readsGiven
  rw [hseen]
  refine ⟨List.pairwise_map.2 (hsorted.imp fun hle => ?_), fun ys hys => ?_⟩
  · exact hr.replay_grows (List.take_prefix_take_left hle) (List.take_prefix _ _)
  · obtain ⟨n, hn, rfl⟩ := List.mem_map.1 hys
    have hactive : p.inst.copies.get p.inst.activeSide = _ := hr.readInv.active
    rw [hactive]
    exact hr.replay_grows (List.take_prefix _ _) (List.prefix_refl _)

/-- No batch has two requests from one cell. -/
lemma length_filter_le (hr : w.Runs init cell xs p) {batch : Batch Numbers (Option Int)}
    (hbatch : batch ∈ p.history.taken) (same : Request Numbers (Option Int) → Bool)
    (hsame : ∀ x ∈ p.history.calls, ∀ y ∈ p.history.calls, same x.2 = true → same y.2 = true →
      x.1 = y.1) : ((batch.map Prod.snd).filter same).length ≤ 1 := by
  obtain ⟨earlier, hsnapshot⟩ := hr.regularInv.requestInv.snapshots.exists_earlier hbatch
  exact Batch.length_filter_le hsnapshot.sorted same fun x hx y hy =>
    hsame x (hr.requestsCalled.taken batch hbatch x hx) y
      (hr.requestsCalled.taken batch hbatch y hy)

/-- Under the exclusive style all requests are published at one cell. -/
lemma call_eq (hr : w.Runs init cell xs p) (hstyle : p.inst.style = .exclusive) :
    ∀ x ∈ p.history.calls, ∀ y ∈ p.history.calls, x.1 = y.1 :=
  fun x hx y hy => (hr.requestsCalled.exclusive hstyle x hx).trans
    (hr.requestsCalled.exclusive hstyle y hy).symm

/-- When no writer is inside, the requests from one cell were completed in the order in which they
were published. -/
lemma filter_completed (hr : w.Runs init cell xs p) (hwriters : p.inst.writers = [])
    (same : Request Numbers (Option Int) → Bool)
    (hsame : ∀ x ∈ p.history.calls, ∀ y ∈ p.history.calls, same x.2 = true → same y.2 = true →
      x.1 = y.1) : p.completed.filter same = p.history.published.filter same := by
  have hb := hr.regularInv
  have hl : CopyInv ⟨init, init⟩ p.history p.inst p.task? := hb.copyInv
  have hfilter := hb.requestInv.snapshots.filter_published same fun batch hbatch =>
    hr.length_filter_le hbatch same hsame
  rw [hfilter, hl.taken, hb.task?_eq_none hwriters, (hb.unclaimed_eq_nil hwriters).2,
    Option.elim_none, List.append_nil, List.filter_nil, List.append_nil]
  rfl

/-- Under the exclusive style requests are completed in the order in which they were published. -/
lemma completed_eq (hr : w.Runs init cell xs p) (hwriters : p.inst.writers = [])
    (hstyle : p.inst.style = .exclusive) : p.completed = p.history.published := by
  have hfilter := hr.filter_completed hwriters (fun _ => true) fun x hx y hy _ _ =>
    hr.call_eq hstyle x hx y hy
  rwa [List.filter_true, List.filter_true] at hfilter

lemma mutation_eq (hr : w.Runs init cell xs p) (hwriters : p.inst.writers = []) :
    ∀ r ∈ p.completed, r.mutation = (Change.push (Int64.ofNat (r.number xs))).mutation := by
  intro r hmem
  obtain ⟨-, hperm, -⟩ := hr.regularInv.rest hwriters
  exact (hr.pushes.mutation_eq hr.plainInv.numbers (hperm.mem_iff.2 hmem)).1

/-- When no writer is inside the numbers of every writer are in order. -/
lemma interleaves (hr : w.Runs init cell xs p) (hwriters : p.inst.writers = [])
    (hxs : w.Interleaves xs) : w.Interleaves (p.completed.map (Request.number xs)) := by
  obtain ⟨-, hperm, -⟩ := hr.regularInv.rest hwriters
  have hnumbers := hr.pushes.map_number hr.plainInv.numbers
  refine ⟨fun x hx => ?_, fun j hj => ?_⟩
  · refine hxs.lt x ?_
    rw [← hnumbers]
    exact (hperm.map _).mem_iff.2 hx
  · have hcell : ∀ x ∈ p.history.calls, x.2.number xs / w.work = j → x.1 = cell j := by
      rintro x hx rfl
      exact (hr.pushes.of_mem hr.plainInv.numbers hx).1
    have hfilter := hr.filter_completed hwriters (fun r => r.number xs / w.work = j)
      fun x hx y hy hxj hyj =>
        (hcell x hx (of_decide_eq_true hxj)).trans (hcell y hy (of_decide_eq_true hyj)).symm
    have hsame : (p.completed.map (Request.number xs)).filter (· / w.work = j) =
        (p.history.published.map (Request.number xs)).filter (· / w.work = j) := by
      rw [List.filter_map, List.filter_map]
      exact congrArg _ hfilter
    rw [hsame, hnumbers]
    exact hxs.own j hj

/-- There are as many mutations as numbers. -/
lemma length_completed (hr : w.Runs init cell xs p) (hwriters : p.inst.writers = [])
    (hxs : w.Interleaves xs) : p.completed.length = w.writers * w.work := by
  have hlength := (hr.interleaves hwriters hxs).perm.length_eq
  rwa [List.length_map, List.length_range] at hlength

/-- Under the exclusive style every mutation has a turn of its own. -/
lemma length_turned (hr : w.Runs init cell xs p) (hwriters : p.inst.writers = [])
    (hstyle : p.inst.style = .exclusive) : p.history.turned.length = p.completed.length := by
  have hb := hr.regularInv
  have hl : CopyInv ⟨init, init⟩ p.history p.inst p.task? := hb.copyInv
  rw [hl.turned, hb.task?_eq_none hwriters, Option.elim_none, List.append_nil, Point.completed,
    requests, List.length_map, List.length_flatten]
  -- batches are not empty, and where there is one cell they have no second request
  have hone : ∀ batch ∈ p.history.completed, batch.length = 1 := by
    intro batch hbatch
    have htaken : batch ∈ p.history.taken := by
      rw [hl.taken]
      exact List.mem_append_left _ hbatch
    obtain ⟨earlier, hsnapshot⟩ := hb.requestInv.snapshots.exists_earlier htaken
    have hle := hr.length_filter_le htaken (fun _ => true) fun x hx y hy _ _ =>
      hr.call_eq hstyle x hx y hy
    rw [List.filter_true, List.length_map] at hle
    exact Nat.le_antisymm hle (List.length_pos_of_ne_nil hsnapshot.ne_nil)
  rw [List.map_congr_left hone, List.map_const', List.sum_replicate_nat, Nat.mul_one]

/-- The outputs are the lengths of the list, each of them once. -/
lemma outcome_perm (hr : w.Runs init cell xs p) (hwriters : p.inst.writers = []) :
    (p.done.map Finished.outcome).Perm ((List.range p.completed.length).map fun i =>
      .ok (some ((init.length + i + 1 : Nat) : Int))) := by
  have hfinished := ((hr.regularInv.outputInv init rfl).finished).map Prod.snd
  rw [hr.plainInv.turnedAway, List.map_nil, List.nil_append, List.map_map] at hfinished
  rw [← Change.map_snd_answers_push (hr.mutation_eq hwriters)]
  exact hfinished

/-- Both copies are the list extended by all the numbers. -/
lemma get_eq_append (hr : w.Runs init cell xs p) (hwriters : p.inst.writers = []) (side : Side) :
    p.inst.copies.get side = init ++ (p.completed.map (Request.number xs)).map Int64.ofNat := by
  rw [hr.regularInv.get_eq_replay hwriters side, Change.replay_push (hr.mutation_eq hwriters),
    List.map_map]
  rfl

end Runs

/-- The result of a workload at a point where no writer is inside, after requests that append these
numbers to a list were published. -/
structure Done (w : Workload) (init : Numbers) (xs : List Nat)
    (p : Point γ κ δ Numbers (Option Int)) : Prop where
  /-- every mutation returns a length of the list, and each length is returned once -/
  outputs : (p.done.map Finished.outcome).Perm ((List.range (w.writers * w.work)).map fun i =>
    .ok (some ((init.length + i + 1 : Nat) : Int)))
  copies : p.inst.copies.left = p.inst.copies.right
  content : p.inst.copies.left.Perm (init ++ (List.range (w.writers * w.work)).map Int64.ofNat)
  /-- the numbers of every writer are in order, and under the exclusive style all numbers are -/
  order : ∃ ys, w.Interleaves ys ∧ p.inst.copies.left = init ++ ys.map Int64.ofNat ∧
    (p.inst.style = .exclusive → ys = xs)
  mutations : p.inst.mutations = w.writers * w.work
  side : p.inst.style = .exclusive → (p.inst.activeSide = .right ↔ Odd (w.writers * w.work))
  /-- a last mutation finds all the numbers, and finishes at once if no query is under way -/
  len : p.session.visits = [] → ∀ k,
    (p.inst.style = .combining → (p.session.own? k).isSome = true) →
      (mutate p.session k .len).1 = some ((init.length + w.writers * w.work : Nat) : Int)

/-- The invariant implies the result, except for that of a last mutation. -/
lemma Runs.done {w : Workload} {init : Numbers} {cell : Nat → Nat} {xs : List Nat}
    {p : Point γ κ δ Numbers (Option Int)} (hr : w.Runs init cell xs p)
    (hwriters : p.inst.writers = []) (hxs : w.Interleaves xs)
    (hlen : p.session.visits = [] → ∀ k,
      (p.inst.style = .combining → (p.session.own? k).isSome = true) →
        (mutate p.session k .len).1 = some ((init.length + w.writers * w.work : Nat) : Int)) :
    w.Done init xs p where
  outputs := by
    rw [← hr.length_completed hwriters hxs]
    exact hr.outcome_perm hwriters
  copies := (hr.get_eq_append hwriters .left).trans (hr.get_eq_append hwriters .right).symm
  content := by
    rw [show p.inst.copies.left = _ from hr.get_eq_append hwriters .left]
    exact ((hr.interleaves hwriters hxs).perm.map _).append_left _
  order := by
    refine ⟨_, hr.interleaves hwriters hxs, hr.get_eq_append hwriters .left, fun hstyle => ?_⟩
    rw [hr.completed_eq hwriters hstyle, hr.pushes.map_number hr.plainInv.numbers]
  mutations := by
    rw [← hr.length_completed hwriters hxs]
    exact hr.regularInv.copyInv.mutations
  side hstyle := by
    have hside : p.inst.activeSide = _ := hr.readInv.side
    rw [hside, Side.iterate_opposite_left, hr.length_turned hwriters hstyle,
      hr.length_completed hwriters hxs]
  len := hlen

end Workload

/-! ## All schedules -/

namespace Workload

/-- A point of a workload: the copies given to queries, that writers finish, and the result when
they have. -/
structure Carried (w : Workload) (init : Numbers) (xs : List Nat)
    (p : Point γ κ δ Numbers (Option Int)) : Prop where
  /-- a query under way still has the copy that it was given when it began -/
  given : p.session.visits.map p.inst.given = p.history.opened
  /-- the copy given to a query extends those given to earlier queries -/
  seen : p.history.seen.Pairwise (· <+: ·) ∧
    ∀ ys ∈ p.history.seen, ys <+: p.inst.copies.get p.inst.activeSide
  done : w.Interleaves xs → p.inst.writers = [] → w.Done init xs p
  /-- if no query is under way the writers finish -/
  returns : p.session.visits = [] → ∃ n, let q := p.after (List.replicate n .writer)
    q.inst.writers = [] ∧ (w.Interleaves xs → w.Done init xs q)

end Workload

/-- For a session of a list with two equal copies: with plain callers, if the history satisfies
`fits`, workloads are carried out on every schedule. Every script of plain moves is such a
schedule. -/
structure Session.Carries (s : Session γ κ δ Numbers (Option Int)) (init : Numbers)
    (fits : History γ κ δ Numbers (Option Int) → Prop) : Prop where
  carried : ∀ (w : Workload) (cell : Nat → Nat) (xs : List Nat)
    (ticks : List (Tick Numbers (Option Int))), Plainly ticks →
      let p := (Point.start s).after ticks
      fits p.history → p.history.Pushes w cell xs → w.Carried init xs p
  scripts : ∀ script, (∀ m ∈ Operation.movesOfAll script, m.Plain) →
    ∃ ticks, Plainly ticks ∧ s.IsScheduleOf script ticks

namespace Session.Steady

variable {s : Session γ κ δ Numbers (Option Int)} {init : Numbers}
  {fits : History γ κ δ Numbers (Option Int) → Prop} {ticks : List (Tick Numbers (Option Int))}
  {w : Workload} {cell : Nat → Nat} {xs : List Nat}

lemma runs (S : s.Steady init fits) (hside : s.inst.activeSide = .left) (hticks : Plainly ticks)
    {p : Point γ κ δ Numbers (Option Int)} (hp : (Point.start s).after ticks = p)
    (hfits : fits p.history) (hpushes : p.history.Pushes w cell xs) : w.Runs init cell xs p := by
  subst hp
  have ho := S.plainInv_after hticks
  refine ⟨ho, (S.requestsCalled_after ticks).2, hside ▸ S.readInv hticks hfits fun r hr => ?_,
    hpushes⟩
  rw [(hpushes.mutation_eq ho.numbers hr).1]
  exact Change.regular_push _

/-- When no writer is inside the work is done. -/
lemma done (S : s.Steady init fits) (hside : s.inst.activeSide = .left) (hticks : Plainly ticks)
    {p : Point γ κ δ Numbers (Option Int)} (hp : (Point.start s).after ticks = p)
    (hfits : fits p.history) (hpushes : p.history.Pushes w cell xs) (hxs : w.Interleaves xs)
    (hwriters : p.inst.writers = []) : w.Done init xs p := by
  have hr := S.runs hside hticks hp hfits hpushes
  refine hr.done hwriters hxs fun hvisits k hslot => ?_
  obtain ⟨f, hfinished, houtcome⟩ := S.exists_finished_of_perform hticks hp hfits (fun r hmem => by
    obtain ⟨hmutation, hobserved⟩ := hpushes.mutation_eq hr.plainInv.numbers hmem
    exact ⟨hmutation ▸ Change.regular_push _, hobserved⟩) hwriters hvisits hslot Change.regular_len
  have hlength : (replay init p.completed).length = init.length + w.writers * w.work := by
    rw [Change.replay_push (hr.mutation_eq hwriters), List.length_append, List.length_map,
      hr.length_completed hwriters hxs]
  have houtcome : f.outcome = .ok (some ((init.length + w.writers * w.work : Nat) : Int)) := by
    rw [houtcome, ← hlength]
    rfl
  obtain ⟨id, outcome, seen⟩ := f
  simp only at houtcome
  subst houtcome
  simp only [Workload.mutate, hfinished]

theorem carries (S : s.Steady init fits) (hside : s.inst.activeSide = .left) :
    s.Carries init fits where
  carried w cell xs ticks hticks := by
    intro p hfits hpushes
    have hr := S.runs hside hticks rfl hfits hpushes
    refine ⟨(S.unhindered hticks hfits).given, hr.seen_pairwise,
      S.done hside hticks rfl hfits hpushes, fun hvisits => ?_⟩
    obtain ⟨n, hwriterProgress, hfits', hwriters⟩ := S.exists_no_writer_inside hticks hfits
      (fun r hmem => (hpushes.mutation_eq hr.plainInv.numbers hmem).2) hvisits
    have hpushes' : History.Pushes w cell xs (p.after (List.replicate n .writer)).history := by
      rw [History.Pushes, hwriterProgress.calls]
      exact hpushes
    exact ⟨n, hwriters, fun hxs => S.done hside (hticks.append (Plainly.replicate_writer n))
      (Point.after_append _ _ _) hfits' hpushes' hxs hwriters⟩
  scripts script hscript := by
    obtain ⟨ticks, hticks⟩ := Session.exists_isScheduleOf S.exclusive S.still script
    exact ⟨ticks, fun m hm => hscript m (hticks.mem_moves hm), hticks⟩

end Session.Steady

/-- The result of writers that append numbers of their own does not depend on the schedule, for all
gates within their limits. Counters count fewer than `2 ^ 64` arrivals; over flags no query begins
while another one with the same slot and version is under way; a word with versions has room for
`2 ^ 30 - 1` readers of each version, and a word without versions for `2 ^ 19` readers. -/
theorem work_independent_of_schedule (c : Config) (init : Numbers) :
    (∀ style kind, IndicatorKind.Counting kind →
      (Session.ofInstance (.ofStyle style kind c ⟨init, init⟩) :
        Session Versioned Version Version Numbers (Option Int)).Carries init
          (·.Within (Versioned.Limit kind))) ∧
    (∀ style kind, ¬ IndicatorKind.Counting kind →
      (Session.ofInstance (.ofStyle style kind c ⟨init, init⟩) :
        Session Versioned Version Version Numbers (Option Int)).Carries init
          fun h => ∀ d ∈ h, d.Single) ∧
    (Session.ofInstance (.versionedWord c ⟨init, init⟩) :
      Session VersionedWord Version Version Numbers (Option Int)).Carries init
        (·.Within VersionedWord.Limit) ∧
    (Session.ofInstance (.ingressWord c ⟨init, init⟩) :
      Session IngressWord Side IngressWord.Backlog Numbers (Option Int)).Carries init
        (·.Within IngressWord.Limit) := by
  refine ⟨fun style kind hkind => ?_, fun style kind hkind => ?_, ?_, ?_⟩
  · exact (steady_of_counting hkind style c init).carries (by cases style <;> rfl)
  · exact (steady_of_single hkind style c init).carries (by cases style <;> rfl)
  · exact (steady_versionedWord c init).carries
      (show Gate.side VersionedWord.fresh = .left by decide)
  · exact (steady_ingressWord c init).carries (show Gate.side IngressWord.fresh = .left by decide)

/-- A writer waits for a query, and a second query begins meanwhile; then two writers are served in
one batch, and the one whose request was published first has the higher slot. -/
def appendedTogether : List (Tick Numbers (Option Int)) :=
  [.caller .register, .caller .register, .caller .register, .caller (.enter 2),
    .caller (.mutate 1 (Change.push 2).mutation false), .writer, .writer, .writer, .writer,
    .writer, .caller (.enter 2), .caller (.leave false), .caller (.leave false), .writer, .writer,
    .writer, .writer, .writer, .caller (.mutate 1 (Change.push 3).mutation false),
    .caller (.mutate 0 (Change.push 0).mutation false), .writer, .writer, .writer, .writer,
    .writer, .writer, .writer, .writer, .writer,
    .caller (.mutate 0 (Change.push 1).mutation false), .writer, .writer, .writer, .writer,
    .writer, .writer, .writer]

/-- The point after it. -/
def whenAppended : Point Versioned Version Version Numbers (Option Int) :=
  (Point.start (.ofInstance (.ofStyle .combining .single
    { maxThreads := 3, counterBuckets := 1, wait := .yield } ⟨[7], [7]⟩))).after appendedTogether

theorem work_independent_of_schedule_together :
    let w : Workload := ⟨2, 1, 2, 2⟩
    IndicatorKind.single.Counting ∧ Plainly appendedTogether ∧
      whenAppended.history.Within (Versioned.Limit .single) ∧
      whenAppended.history.Pushes w id [2, 3, 0, 1] ∧ w.Interleaves [2, 3, 0, 1] ∧
      w.Carried [7] [2, 3, 0, 1] whenAppended ∧ whenAppended.inst.writers = [] ∧
      whenAppended.inst.copies.left = [7, 2, 0, 3, 1] ∧
      whenAppended.history.seen = [[7], [7, 2]] ∧
      whenAppended.done.map Finished.answer =
        [(0, .ok (some 2)), (1, .ok (some 4)), (2, .ok (some 3)), (3, .ok (some 5))] ∧
      (Workload.mutate whenAppended.session 0 .len).1 = some 5 := by
  intro w
  have hkind : IndicatorKind.single.Counting := trivial
  have hplain : Plainly appendedTogether := by
    intro m hm
    simp only [appendedTogether, List.mem_cons, Tick.caller.injEq, reduceCtorEq, false_or,
      or_false, List.not_mem_nil] at hm
    rcases hm with rfl | rfl | rfl | rfl | rfl | rfl | rfl | rfl | rfl | rfl | rfl <;> trivial
  have hwithin : whenAppended.history.Within (Versioned.Limit .single) := by decide +kernel
  have hpushes : whenAppended.history.Pushes ⟨2, 1, 2, 2⟩ id [2, 3, 0, 1] := by
    unfold History.Pushes
    rfl
  have hxs : w.Interleaves [2, 3, 0, 1] := ⟨by decide, by decide⟩
  have hall := (work_independent_of_schedule
    { maxThreads := 3, counterBuckets := 1, wait := .yield } [7]).1 .combining .single hkind
  have hcarried : w.Carried [7] [2, 3, 0, 1] whenAppended :=
    hall.carried w id [2, 3, 0, 1] appendedTogether hplain hwithin hpushes
  have hlen := (hcarried.done hxs rfl).len rfl 0 fun _ => rfl
  exact ⟨hkind, hplain, hwithin, hpushes, hxs, hcarried, rfl, rfl, rfl, rfl, hlen⟩

end TwinCopy
