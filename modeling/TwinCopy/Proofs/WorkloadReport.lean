import TwinCopy.Proofs.SequentialCalls
import TwinCopy.Proofs.Workloads

/-!
# The report of a workload

`Workload.run` carries a workload out in turns and reports the result. The turns are mutations made
one after the other, with queries between them, so each turn appends one number and returns the
length of the list. `Progress.After` is the state of this, with a lemma for each part of a turn. The
report is `Workload.expected`, for all gates and both styles: `run_eq_expected`. It also describes
every other schedule of the workload: `Carried.describes`, `report_independent_of_schedule`.
-/

namespace TwinCopy

open Numbers

/-! ## Sorted lists -/

/-- Lists with the same elements are equal when sorted. -/
lemma mergeSort_eq_of_perm {β : Type} [LE β] [DecidableLE β] [Std.IsLinearOrder β] {xs ys : List β}
    (h : xs.Perm ys) : xs.mergeSort (· ≤ ·) = ys.mergeSort (· ≤ ·) := by
  have hsorted (zs : List β) : (zs.mergeSort (· ≤ ·)).Pairwise (· ≤ ·) := by
    refine (List.pairwise_mergeSort (fun a b c hab hbc => ?_) (fun a b => ?_) zs).imp
      of_decide_eq_true
    · exact decide_eq_true (Std.le_trans (of_decide_eq_true hab) (of_decide_eq_true hbc))
    · simpa using Std.le_total
  exact List.Perm.eq_of_pairwise (fun _ _ _ _ => Std.le_antisymm) (hsorted xs) (hsorted ys)
    ((List.mergeSort_perm xs _).trans (h.trans (List.mergeSort_perm ys _).symm))

namespace Workload

/-! ## The expected report -/

/-- The number of slots claimed for a workload. Exclusive writers need none. -/
def claims (w : Workload) : Style → Nat
  | .exclusive => w.readers
  | .combining => w.writers + w.readers

/-- The largest number of looks that readers take. -/
def looks (w : Workload) : Nat :=
  w.readers * max w.reads (w.writers * w.work)

/-- The numbers that writers append. -/
def numbers (w : Workload) : Numbers :=
  (List.range (w.writers * w.work)).map Int64.ofNat

/-- The report of a workload that appends to a list. -/
def expected (w : Workload) (init : Numbers) : Report where
  len := some ((init.length + w.writers * w.work : Nat) : Int)
  copiesEqual := true
  sorted := (init ++ w.numbers).mergeSort (· ≤ ·)
  outputs := (List.range (w.writers * w.work)).map fun i => ((init.length + i + 1 : Nat) : Int)
  wentBack := false
  mutations := w.writers * w.work
  side := Side.opposite^[w.writers * w.work] .left

/-- In its turn `i` writer `j` appends the number `j * work + i`. -/
lemma map_snd_turns (w : Workload) (writers : List Nat) :
    (w.turns writers).map Prod.snd = (List.range w.work).flatMap fun i =>
      (List.range writers.length).map fun j => j * w.work + i := by
  rw [turns, List.map_flatMap]
  refine congrArg (List.range w.work).flatMap (funext fun i => ?_)
  rw [List.range_eq_range', ← List.zipIdx_map_snd 0 writers, List.map_map, List.map_map]
  rfl

/-- Every turn is that of a writer. -/
lemma fst_mem_of_mem_turns {w : Workload} {writers : List Nat} {t : Nat × Nat}
    (ht : t ∈ w.turns writers) : t.1 ∈ writers := by
  obtain ⟨i, -, ht⟩ := List.mem_flatMap.1 ht
  obtain ⟨x, hx, rfl⟩ := List.mem_map.1 ht
  exact List.fst_mem_of_mem_zipIdx (x := x) hx

/-- The turns append all the numbers. -/
lemma map_snd_turns_perm (w : Workload) {writers : List Nat}
    (hlength : writers.length = w.writers) :
    ((w.turns writers).map Prod.snd).Perm (List.range (w.writers * w.work)) := by
  rw [map_snd_turns, hlength]
  refine (List.perm_ext_iff_of_nodup ?_ List.nodup_range).2 fun x => ?_
  · refine List.nodup_flatMap.2 ⟨fun i hi => ?_, ?_⟩
    · have hwork : 0 < w.work := Nat.zero_lt_of_lt (List.mem_range.1 hi)
      refine List.nodup_range.map fun j j' heq => ?_
      exact Nat.eq_of_mul_eq_mul_right hwork (Nat.add_right_cancel heq)
    · refine List.nodup_range.pairwise_of_forall_ne fun i hi i' hi' hne x hx hx' => hne ?_
      obtain ⟨j, -, rfl⟩ := List.mem_map.1 hx
      obtain ⟨j', -, heq⟩ := List.mem_map.1 hx'
      have hmod := congrArg (· % w.work) heq
      simp only [Nat.mul_add_mod_self_right, Nat.mod_eq_of_lt (List.mem_range.1 hi),
        Nat.mod_eq_of_lt (List.mem_range.1 hi')] at hmod
      exact hmod.symm
  · simp only [List.mem_flatMap, List.mem_map, List.mem_range]
    constructor
    · rintro ⟨i, hi, j, hj, rfl⟩
      calc j * w.work + i < (j + 1) * w.work := by rw [Nat.succ_mul]; omega
        _ ≤ w.writers * w.work := Nat.mul_le_mul_right _ hj
    · intro hx
      have hwork : 0 < w.work := Nat.pos_of_ne_zero fun hzero => by simp [hzero] at hx
      exact ⟨x % w.work, Nat.mod_lt _ hwork, x / w.work,
        Nat.div_lt_of_lt_mul (by rwa [Nat.mul_comm]), Nat.div_add_mod' x w.work⟩

/-- The mutations that append these numbers. -/
def pushes (xs : List Nat) : List (Mutation Numbers (Option Int)) :=
  xs.map fun x => (Change.push (Int64.ofNat x)).mutation

lemma foldl_pushes (init : Numbers) (xs : List Nat) :
    (pushes xs).foldl (fun a m => m.effect a) init = init ++ xs.map Int64.ofNat := by
  induction xs generalizing init with
  | nil => exact (List.append_nil init).symm
  | cons x xs ih =>
    rw [pushes, List.map_cons, List.foldl_cons, List.map_cons, List.append_cons]
    exact ih _

lemma regular_of_mem_pushes {xs : List Nat} : ∀ m ∈ pushes xs, m.Regular := by
  intro m hm
  obtain ⟨x, -, rfl⟩ := List.mem_map.1 hm
  exact Change.regular_push _

/-! ## Turns -/

variable {γ κ δ : Type} [Gate γ κ δ] [DecidableEq κ]
  {s : Session γ κ δ Numbers (Option Int)} {init : Numbers}
  {fits : History γ κ δ Numbers (Option Int) → Prop} {xs : List Nat} {readers limit : Nat}

omit [DecidableEq κ] in
/-- These numbers were appended one after the other, each mutation has returned the length of the
list that it extended, and no reader has found the list shorter than before. -/
structure Progress.After (s : Session γ κ δ Numbers (Option Int)) (init : Numbers) (xs : List Nat)
    (readers : Nat) (pr : Progress γ κ δ) : Prop where
  instant : ∃ p, s.Sequential (pushes xs) readers p ∧ p.session = pr.session
  visits : pr.session.visits = []
  lengths : ∀ x ∈ pr.lengths, x.2 ≤ init.length + xs.length
  wentBack : pr.wentBack = false
  outputs : pr.outputs =
    ((List.range xs.length).map fun i => ((init.length + i + 1 : Nat) : Int)).reverse

/-- The numbers of readers and of slots are unchanged. -/
structure Progress.Keeps (pr pr' : Progress γ κ δ) : Prop where
  lengths : pr'.lengths.length = pr.lengths.length
  table : pr'.session.table = pr.session.table
  spare : ∀ n, pr.session.Spare n → pr'.session.Spare n

/-- A mutation is completed at once and returns its output, and the outboxes are emptied. -/
lemma exists_mutate {calls : List (Mutation Numbers (Option Int))}
    {p : Point γ κ δ Numbers (Option Int)} (hp : s.Sequential calls readers p)
    (S : s.Steady init fits) (hallows : s.Allows fits limit) (hreaders : readers ≤ limit)
    (hregular : ∀ m ∈ calls, m.Regular) (hvisits : p.session.visits = []) {k : Nat}
    (hslot : s.inst.style = .combining → (p.session.slot? k).isSome = true) {c : Change}
    (hc : c.mutation.Regular) {output : Option Int}
    (houtput : c.mutation.outcome (calls.foldl (fun a m => m.effect a) init) = .ok output) :
    ∃ q, s.Sequential (calls ++ [c.mutation]) readers q ∧
      mutate p.session k c = (output, q.session) ∧ q.session.visits = [] ∧
      q.session.table = p.session.table ∧ ∀ n, p.session.Spare n → q.session.Spare n := by
  obtain ⟨q, hq, hsession, hqvisits, htable, hspare, ⟨id, outcome, seen⟩, hfinished, houtcome⟩ :=
    hp.mutate S hallows hreaders hregular hvisits
      (fun hstyle => hp.own?_isSome S (hslot (hp.style_eq S.exclusive ▸ hstyle))) hc
  obtain rfl : outcome = .ok output := houtcome.trans houtput
  change q.session.inst.finished = _ at hfinished
  refine ⟨q.next .outbox, hq.outbox, ?_, hqvisits, htable, hspare⟩
  rw [hsession] at hfinished
  simp only [mutate, hfinished, Point.next, Point.inst, hsession]

namespace Progress

variable {pr pr' pr'' : Progress γ κ δ}

omit [DecidableEq κ] in
lemma Keeps.trans (h : pr.Keeps pr') (h' : pr'.Keeps pr'') : pr.Keeps pr'' where
  lengths := h'.lengths.trans h.lengths
  table := h'.table.trans h.table
  spare n hn := h'.spare n (h.spare n hn)

namespace After

/-- A reader is given all the numbers appended so far, or is refused. -/
lemma lookOnce (hpr : pr.After s init xs readers) (S : s.Steady init fits)
    (hallows : s.Allows fits limit) (hreaders : readers + 1 ≤ limit) {k before : Nat}
    (hbefore : before ≤ init.length + xs.length) :
    (pr.lookOnce k before).After s init xs (readers + 1) ∧
      (pr.lookOnce k before).lengths.length = pr.lengths.length + 1 ∧
      (pr.lookOnce k before).session.table = pr.session.table ∧
      ∀ n, pr.session.Spare n → (pr.lookOnce k before).session.Spare n := by
  obtain ⟨p, hp, hsession⟩ := hpr.instant
  obtain ⟨q, hq, hqsession, hvisits, htable, hspare, hfound⟩ :=
    hp.readOnce S hallows hreaders regular_of_mem_pushes (hsession ▸ hpr.visits) k
  rw [hsession] at hqsession htable hspare hfound
  rw [foldl_pushes] at hfound
  obtain ⟨now, hnow, hlook⟩ : ∃ now, (before ≤ now ∧ now ≤ init.length + xs.length) ∧
      pr.lookOnce k before = { pr with
        session := (pr.session.readOnce k false).2
        lengths := (k, now) :: pr.lengths
        wentBack := pr.wentBack || decide (now < before) } := by
    simp only [Progress.lookOnce]
    split
    · next ys hr =>
      refine ⟨ys.length, ?_, rfl⟩
      rw [hfound ys hr, List.length_append, List.length_map]
      exact ⟨hbefore, Nat.le_refl _⟩
    · exact ⟨before, ⟨Nat.le_refl _, hbefore⟩, rfl⟩
  rw [hlook]
  refine ⟨⟨⟨q, hq, hqsession⟩, hqsession ▸ hvisits, ?_, ?_, hpr.outputs⟩, rfl, hqsession ▸ htable,
    hqsession ▸ hspare⟩
  · exact List.forall_mem_cons.2 ⟨hnow.2, hpr.lengths⟩
  · change (pr.wentBack || decide (now < before)) = false
    rw [hpr.wentBack, decide_eq_false (Nat.not_lt.2 hnow.1), Bool.or_false]

/-- Every reader looks once. -/
lemma look (hpr : pr.After s init xs readers) (S : s.Steady init fits)
    (hallows : s.Allows fits limit) (hreaders : readers + pr.lengths.length ≤ limit) :
    pr.look.After s init xs (readers + pr.lengths.length) ∧ pr.Keeps pr.look := by
  -- the readers look from the last to the first, and those that have looked are counted
  have hall : ∀ ls : List (Nat × Nat), (∀ x ∈ ls, x.2 ≤ init.length + xs.length) →
      readers + ls.length ≤ limit →
      let pr' := ls.foldr (fun x p => p.lookOnce x.1 x.2) { pr with lengths := [] }
      pr'.After s init xs (readers + ls.length) ∧ pr'.lengths.length = ls.length ∧
        pr'.session.table = pr.session.table ∧
        ∀ n, pr.session.Spare n → pr'.session.Spare n := by
    intro ls
    induction ls with
    | nil =>
      intro _ _
      exact ⟨⟨hpr.instant, hpr.visits, by simp, hpr.wentBack, hpr.outputs⟩, rfl, rfl, fun _ => id⟩
    | cons x ls ih =>
      intro hls hlimit
      obtain ⟨hx, hls⟩ := List.forall_mem_cons.1 hls
      rw [List.length_cons] at hlimit
      obtain ⟨hafter, hlength, htable, hspare⟩ := ih hls (by omega)
      obtain ⟨hafter', hlength', htable', hspare'⟩ :=
        hafter.lookOnce S hallows (by omega) (k := x.1) hx
      exact ⟨hafter', by rw [List.foldr_cons, hlength', hlength, List.length_cons],
        htable'.trans htable, fun n hn => hspare' n (hspare n hn)⟩
  obtain ⟨hafter, hlength, htable, hspare⟩ := hall pr.lengths hpr.lengths hreaders
  exact ⟨hafter, hlength, htable, hspare⟩

/-- The readers look a number of times. -/
lemma lookTimes (hpr : pr.After s init xs readers) (S : s.Steady init fits)
    (hallows : s.Allows fits limit) {n : Nat} (hreaders : readers + n * pr.lengths.length ≤ limit) :
    (pr.lookTimes n).After s init xs (readers + n * pr.lengths.length) ∧
      pr.Keeps (pr.lookTimes n) := by
  induction n generalizing pr readers with
  | zero =>
    rw [Nat.zero_mul, Nat.add_zero]
    exact ⟨hpr, rfl, rfl, fun _ => id⟩
  | succ n ih =>
    rw [Nat.succ_mul] at hreaders ⊢
    obtain ⟨hlooked, hkeeps⟩ := hpr.look S hallows (by omega)
    obtain ⟨hafter, hkeeps'⟩ := ih hlooked (by rw [hkeeps.lengths]; omega)
    rw [hkeeps.lengths, Nat.add_assoc, Nat.add_comm pr.lengths.length] at hafter
    exact ⟨hafter, hkeeps.trans hkeeps'⟩

/-- A writer appends a number, and every reader looks. -/
lemma push (hpr : pr.After s init xs readers) (S : s.Steady init fits)
    (hallows : s.Allows fits limit) (hreaders : readers + pr.lengths.length ≤ limit) {k : Nat}
    (hslot : s.inst.style = .combining → (pr.session.slot? k).isSome = true) (x : Nat) :
    (pr.push k (Int64.ofNat x)).After s init (xs ++ [x]) (readers + pr.lengths.length) ∧
      pr.Keeps (pr.push k (Int64.ofNat x)) := by
  obtain ⟨p, hp, hsession⟩ := hpr.instant
  have houtput : (Change.push (Int64.ofNat x)).mutation.outcome
      ((pushes xs).foldl (fun a m => m.effect a) init) =
        .ok (some ((init.length + xs.length + 1 : Nat) : Int)) := by
    have hlength : (init ++ xs.map Int64.ofNat ++ [Int64.ofNat x]).length =
        init.length + xs.length + 1 := by
      rw [List.length_append, List.length_append, List.length_map]
      rfl
    rw [foldl_pushes, ← hlength]
    rfl
  obtain ⟨q, hq, hmutate, hvisits, htable, hspare⟩ := exists_mutate hp S hallows (by omega)
    regular_of_mem_pushes (hsession ▸ hpr.visits) (hsession ▸ hslot) (Change.regular_push _) houtput
  rw [hsession] at hmutate htable hspare
  let mid : Progress γ κ δ := { pr with
    session := q.session
    outputs := (some ((init.length + xs.length + 1 : Nat) : Int)).toList ++ pr.outputs }
  have hmid : mid.After s init (xs ++ [x]) readers := by
    refine ⟨⟨q, ?_, rfl⟩, hvisits, fun y hy => ?_, hpr.wentBack, ?_⟩
    · rw [pushes, List.map_append]
      exact hq
    · have hle := hpr.lengths y hy
      rw [List.length_append]
      omega
    · rw [List.length_append, List.length_singleton, List.range_succ, List.map_append,
        List.reverse_append, ← hpr.outputs]
      rfl
  obtain ⟨hafter, hkeeps⟩ := hmid.look S hallows hreaders
  have hpush : pr.push k (Int64.ofNat x) = mid.look := by
    rw [Progress.push, hmutate]
  rw [hpush]
  exact ⟨hafter, hkeeps.lengths, hkeeps.table.trans htable,
    fun n hn => hkeeps.spare n (hspare n hn)⟩

/-- All turns are taken. -/
lemma turns (hpr : pr.After s init xs readers) (S : s.Steady init fits)
    (hallows : s.Allows fits limit) {ts : List (Nat × Nat)}
    (hreaders : readers + ts.length * pr.lengths.length ≤ limit)
    (hslots : s.inst.style = .combining → ∀ t ∈ ts, (pr.session.slot? t.1).isSome = true) :
    let pr' := ts.foldl (fun p (k, x) => p.push k (Int64.ofNat x)) pr
    pr'.After s init (xs ++ ts.map Prod.snd) (readers + ts.length * pr.lengths.length) ∧
      pr.Keeps pr' := by
  induction ts generalizing pr xs readers with
  | nil =>
    rw [List.map_nil, List.append_nil, List.length_nil, Nat.zero_mul, Nat.add_zero]
    exact ⟨hpr, rfl, rfl, fun _ => id⟩
  | cons t ts ih =>
    rw [List.length_cons, Nat.succ_mul] at hreaders ⊢
    obtain ⟨hpushed, hkeeps⟩ := hpr.push S hallows (by omega)
      (fun hstyle => hslots hstyle t List.mem_cons_self) t.2
    obtain ⟨hafter, hkeeps'⟩ := ih hpushed (by rw [hkeeps.lengths]; omega) fun hstyle t' ht' =>
      Session.isSome_slot?_of_table (fun slot => by rw [hkeeps.table]; exact id)
        (hslots hstyle t' (List.mem_cons_of_mem _ ht'))
    rw [hkeeps.lengths, List.append_assoc, Nat.add_assoc, Nat.add_comm pr.lengths.length] at hafter
    exact ⟨hafter, hkeeps.trans hkeeps'⟩

end After

end Progress

/-! ## Slots -/

omit [DecidableEq κ] in
/-- As many slots are claimed as are asked for, if there is room. -/
lemma exists_claim {calls : List (Mutation Numbers (Option Int))}
    {p : Point γ κ δ Numbers (Option Int)} (hp : s.Sequential calls readers p)
    (hvisits : p.session.visits = []) {n m : Nat} (hspare : p.session.Spare (n + m)) :
    ∃ ks q, claim p.session n = .ok (ks, q.session) ∧ s.Sequential calls readers q ∧
      q.session.visits = [] ∧ q.session.Spare m ∧ ks.length = n ∧
      p.session.table <+: q.session.table ∧ ∀ k ∈ ks, (q.session.slot? k).isSome = true := by
  induction n generalizing p with
  | zero => exact ⟨[], p, rfl, hp, hvisits, by rwa [Nat.zero_add] at hspare, rfl,
    List.prefix_refl _, by simp⟩
  | succ n ih =>
    by_cases hslotted : Gate.slotted γ = true
    · rw [Nat.add_right_comm] at hspare
      obtain ⟨q, slot, answer, hq, hregister, hqvisits, hqspare, htable⟩ :=
        hp.register hslotted hvisits hspare
      obtain ⟨ks, q', hclaim, hq', hqvisits', hqspare', hlength, hprefix, hslots⟩ :=
        ih hq hqvisits hqspare
      rw [htable] at hprefix
      refine ⟨p.session.table.length :: ks, q', ?_, hq', hqvisits', hqspare', ?_, ?_, ?_⟩
      · rw [claim, if_pos hslotted, hregister]
        simp only [hclaim]
        rfl
      · rw [List.length_cons, hlength]
      · exact (List.prefix_append _ _).trans hprefix
      · refine List.forall_mem_cons.2 ⟨?_, hslots⟩
        obtain ⟨rest, hrest⟩ := hprefix
        rw [Session.slot?, if_pos hslotted, ← hrest]
        simp
    · obtain ⟨ks, q, hclaim, hq, hqvisits, hqspare, hlength, hprefix, hslots⟩ :=
        ih hp hvisits fun hnone => absurd hnone hslotted
      refine ⟨0 :: ks, q, ?_, hq, hqvisits, hqspare, ?_, hprefix, ?_⟩
      · rw [claim, if_neg hslotted, hclaim]
        rfl
      · rw [List.length_cons, hlength]
      · refine List.forall_mem_cons.2 ⟨?_, hslots⟩
        rw [Session.slot?, if_neg hslotted]
        rfl

/-- After slots were dropped there is room for one. -/
lemma exists_drops {calls : List (Mutation Numbers (Option Int))}
    {p : Point γ κ δ Numbers (Option Int)} (hp : s.Sequential calls readers p)
    (S : s.Steady init fits) (hslotsTaken : ∀ n, s.inst.registry.capacity = some n → s.SlotsTaken n)
    (hvisits : p.session.visits = []) {ks : List Nat}
    (hspare : p.session.Spare 1 ∨ ∃ k ∈ ks, (p.session.slot? k).isSome = true) :
    ∃ q, s.Sequential calls readers q ∧
      q.session = ks.foldl (fun s k => (s.perform (.drop k)).2) p.session ∧
      q.session.visits = [] ∧ q.session.Spare 1 := by
  induction ks generalizing p with
  | nil => exact ⟨p, hp, rfl, hvisits, hspare.resolve_right (by simp)⟩
  | cons k ks ih =>
    obtain ⟨q, hq, hsession, hqvisits, htable, hkeeps, hroom⟩ :=
      hp.drop S.exclusive hslotsTaken (fun _ _ => hp.issuer_eq S) hvisits k
    obtain ⟨q', hq', hsession', hqvisits', hroom'⟩ := ih hq hqvisits <| by
      rcases hspare with hspare | ⟨k', hk', hslot⟩
      · exact .inl (hkeeps 1 hspare)
      · by_cases hk : k = k'
        · exact .inl (hroom (hk ▸ hslot))
        · refine .inr ⟨k', (List.mem_cons.1 hk').resolve_left (Ne.symm hk), ?_⟩
          refine Session.isSome_slot?_of_table (fun slot hslot => ?_) hslot
          rwa [htable k' hk]
    exact ⟨q', hq', by rw [hsession', hsession, List.foldl_cons], hqvisits', hroom'⟩

omit [DecidableEq κ] in
/-- Combining writers have a slot each. -/
lemma exists_claimWriters {calls : List (Mutation Numbers (Option Int))}
    {p : Point γ κ δ Numbers (Option Int)} (hp : s.Sequential calls readers p)
    (hvisits : p.session.visits = []) {w : Workload} {m : Nat}
    (hspare : p.session.Spare (w.claims p.inst.style - w.readers + m)) :
    ∃ ks q, w.claimWriters p.session = .ok (ks, q.session) ∧ s.Sequential calls readers q ∧
      q.session.visits = [] ∧ q.session.Spare m ∧ ks.length = w.writers ∧
      (p.inst.style = .combining → ∀ k ∈ ks, (q.session.slot? k).isSome = true) := by
  cases hstyle : p.inst.style with
  | exclusive =>
    refine ⟨List.replicate w.writers 0, p, ?_, hp, hvisits, ?_, List.length_replicate, nofun⟩
    · change p.session.inst.style = _ at hstyle
      rw [claimWriters, hstyle]
    · rw [hstyle, claims, Nat.sub_self, Nat.zero_add] at hspare
      exact hspare
  | combining =>
    rw [hstyle, claims, Nat.add_sub_cancel] at hspare
    obtain ⟨ks, q, hclaim, hq, hqvisits, hqspare, hlength, -, hslots⟩ :=
      exists_claim hp hvisits hspare
    refine ⟨ks, q, ?_, hq, hqvisits, hqspare, hlength, fun _ => hslots⟩
    change p.session.inst.style = _ at hstyle
    rw [claimWriters, hstyle]
    exact hclaim

/-! ## The report -/

omit [DecidableEq κ] in
/-- The slots of the readers and writers of a workload: there is the required number of each, those
that need a slot have one, and when these are dropped there is room for one more. -/
lemma exists_claims {w : Workload} (hwriters : s.inst.writers = []) (hvisits : s.visits = [])
    (hspare : s.Spare (max 1 (w.claims s.inst.style))) :
    ∃ (ws rs : List Nat) (q q' : Point γ κ δ Numbers (Option Int)),
      w.claimWriters s = .ok (ws, q.session) ∧
      claim q.session w.readers = .ok (rs, q'.session) ∧ s.Sequential [] 0 q' ∧
      q'.session.visits = [] ∧ ws.length = w.writers ∧ rs.length = w.readers ∧
      (s.inst.style = .combining → ∀ k ∈ ws, (q'.session.slot? k).isSome = true) ∧
      (q'.session.Spare 1 ∨ ∃ k ∈ ws ++ rs, (q'.session.slot? k).isSome = true) := by
  have hclaims : w.readers ≤ w.claims s.inst.style := by
    cases s.inst.style
    · exact Nat.le_refl _
    · exact Nat.le_add_left _ _
  set spare := max 1 (w.claims s.inst.style) - w.claims s.inst.style with hrest
  obtain ⟨ws, q, hws, hq, hqvisits, hqspare, hwslength, hwsslots⟩ :=
    exists_claimWriters (.start hwriters) hvisits (w := w) (m := w.readers + spare) <|
      Session.Spare.mono hspare <| by
        change w.claims s.inst.style - w.readers + (w.readers + spare) ≤ _
        omega
  obtain ⟨rs, q', hrs, hq', hqvisits', hqspare', hrslength, ⟨_, hprefix⟩, hrsslots⟩ :=
    exists_claim hq hqvisits hqspare
  have hwsslots' : s.inst.style = .combining → ∀ k ∈ ws, (q'.session.slot? k).isSome = true :=
    fun hstyle k hk => Session.isSome_slot?_of_table (fun slot hslot => by
      rw [← hprefix, List.getElem?_append_left (List.getElem?_eq_some_iff.1 hslot).1]
      exact hslot) (hwsslots hstyle k hk)
  refine ⟨ws, rs, q, q', hws, hrs, hq', hqvisits', hwslength, hrslength, hwsslots', ?_⟩
  -- if no slot was claimed there is room from the start
  by_cases hnone : w.claims s.inst.style = 0
  · rw [hrest, hnone] at hqspare'
    exact .inl hqspare'
  · refine .inr ?_
    rcases hreaders : rs with _ | ⟨k, rs'⟩
    · cases hstyle : s.inst.style with
      | exclusive =>
        rw [hstyle, claims, ← hrslength, hreaders] at hnone
        exact absurd rfl hnone
      | combining =>
        rw [hstyle, claims, ← hrslength, ← hwslength, hreaders] at hnone
        obtain ⟨k, hk⟩ := List.exists_mem_of_length_pos (Nat.pos_of_ne_zero hnone)
        exact ⟨k, List.mem_append_left _ hk, hwsslots' hstyle k hk⟩
    · exact ⟨k, List.mem_append_right _ List.mem_cons_self,
        hrsslots k (hreaders ▸ List.mem_cons_self)⟩

/-- All turns are taken, and then the readers look until their number of looks is reached. -/
lemma exists_worked {w : Workload} {start : Progress γ κ δ} (hstart : start.After s init [] 0)
    (S : s.Steady init fits) (hallows : s.Allows fits w.looks)
    (hreaders : start.lengths.length = w.readers) {ws : List Nat} (hws : ws.length = w.writers)
    (hslots : s.inst.style = .combining → ∀ k ∈ ws, (start.session.slot? k).isSome = true) :
    let worked := (w.turns ws).foldl (fun p (k, x) => p.push k (Int64.ofNat x)) start
    let rested := worked.lookTimes (w.reads - (w.turns ws).length)
    rested.After s init ((w.turns ws).map Prod.snd) w.looks ∧ start.Keeps rested := by
  have hturns : (w.turns ws).length = w.writers * w.work := by
    rw [← List.length_map, (w.map_snd_turns_perm hws).length_eq, List.length_range]
  have hlooks : (w.turns ws).length * w.readers + (w.reads - (w.turns ws).length) * w.readers =
      w.looks := by
    rw [looks, ← Nat.add_mul, hturns, Nat.mul_comm]
    congr 1
    omega
  have hturn : s.inst.style = .combining →
      ∀ t ∈ w.turns ws, (start.session.slot? t.1).isSome = true :=
    fun hstyle t ht => hslots hstyle t.1 (fst_mem_of_mem_turns ht)
  obtain ⟨hworked, hkeeps⟩ := hstart.turns S hallows (by rw [hreaders]; omega) hturn
  obtain ⟨hrested, hkeeps'⟩ := hworked.lookTimes S hallows
    (n := w.reads - (w.turns ws).length) (by rw [hkeeps.lengths, hreaders]; omega)
  rw [List.nil_append, hkeeps.lengths, hreaders, Nat.zero_add, hlooks] at hrested
  exact ⟨hrested, hkeeps.trans hkeeps'⟩

/-- When the slots are dropped one can be claimed for a last mutation, which finds all the
numbers. -/
lemma exists_last {p : Point γ κ δ Numbers (Option Int)} (hp : s.Sequential (pushes xs) readers p)
    (S : s.Steady init fits) (hallows : s.Allows fits limit) (hreaders : readers ≤ limit)
    (hslotsTaken : ∀ n, s.inst.registry.capacity = some n → s.SlotsTaken n)
    (hvisits : p.session.visits = []) {ks : List Nat}
    (hspare : p.session.Spare 1 ∨ ∃ k ∈ ks, (p.session.slot? k).isSome = true) :
    ∃ k t t', claim (ks.foldl (fun s k => (s.perform (.drop k)).2) p.session) 1 = .ok ([k], t) ∧
      mutate t k .len = (some ((init.length + xs.length : Nat) : Int), t') ∧
      ∀ side, t'.inst.copies.get side = init ++ xs.map Int64.ofNat := by
  obtain ⟨q, hq, hdropped, hqvisits, hqspare⟩ := exists_drops hp S hslotsTaken hvisits hspare
  obtain ⟨ks, q', hclaim, hq', hqvisits', -, hlength, -, hslots⟩ :=
    exists_claim hq hqvisits (n := 1) (m := 0) hqspare
  obtain ⟨k, rfl⟩ := List.length_eq_one_iff.1 hlength
  have houtput : Change.len.mutation.outcome ((pushes xs).foldl (fun a m => m.effect a) init) =
      .ok (some ((init.length + xs.length : Nat) : Int)) := by
    have hlen : (init ++ xs.map Int64.ofNat).length = init.length + xs.length := by
      rw [List.length_append, List.length_map]
    rw [foldl_pushes, ← hlen]
    rfl
  obtain ⟨q'', hq'', hmutate, -⟩ := exists_mutate hq' S hallows hreaders regular_of_mem_pushes
    hqvisits' (fun _ => hslots k List.mem_cons_self) Change.regular_len houtput
  have hregular : ∀ m ∈ pushes xs ++ [Change.len.mutation], m.Regular :=
    List.forall_mem_append.2 ⟨regular_of_mem_pushes, by simpa using Change.regular_len⟩
  refine ⟨k, q'.session, q''.session, by rw [← hdropped, hclaim], hmutate, fun side => ?_⟩
  rw [← foldl_pushes]
  exact ((hq''.result S hallows hreaders hregular).1 side).trans (List.foldl_append ..)

/-- The report of a workload in turns: each mutation returned the length of the list, no reader
found the list shorter than before, and in the end it has all the numbers. -/
theorem run_eq_expected (w : Workload) (S : s.Steady init fits) (hallows : s.Allows fits w.looks)
    (hside : s.inst.activeSide = .left) (hwriters : s.inst.writers = []) (hvisits : s.visits = [])
    (hslotsTaken : ∀ n, s.inst.registry.capacity = some n → s.SlotsTaken n)
    (hspare : s.Spare (max 1 (w.claims s.inst.style))) : w.run s = .ok (w.expected init) := by
  obtain ⟨ws, rs, q, p, hws, hrs, hp, hpvisits, hwslength, hrslength, hwsslots, hroom⟩ :=
    exists_claims hwriters hvisits hspare
  let start : Progress γ κ δ := ⟨p.session, rs.map (·, 0), false, []⟩
  have hstart : start.After s init [] 0 :=
    ⟨⟨p, hp, rfl⟩, hpvisits, by simp [start], rfl, rfl⟩
  have hreaders : start.lengths.length = w.readers := by
    rw [List.length_map, hrslength]
  let worked := (w.turns ws).foldl (fun p (k, x) => p.push k (Int64.ofNat x)) start
  let rested := worked.lookTimes (w.reads - (w.turns ws).length)
  let xs := (w.turns ws).map Prod.snd
  obtain ⟨hrested, hkeeps⟩ : rested.After s init xs w.looks ∧ start.Keeps rested :=
    exists_worked hstart S hallows hreaders hwslength hwsslots
  have hperm : xs.Perm (List.range (w.writers * w.work)) := w.map_snd_turns_perm hwslength
  have hlength : xs.length = w.writers * w.work := by
    rw [hperm.length_eq, List.length_range]
  obtain ⟨p', hp', hsession⟩ := hrested.instant
  obtain ⟨-, hmutations, hactive⟩ := hp'.result S hallows (Nat.le_refl _) regular_of_mem_pushes
  have hroom' : p'.session.Spare 1 ∨ ∃ k ∈ ws ++ rs, (p'.session.slot? k).isSome = true := by
    rw [hsession]
    refine hroom.imp (hkeeps.spare 1) fun ⟨k, hk, hslot⟩ => ⟨k, hk, ?_⟩
    exact Session.isSome_slot?_of_table (fun slot => by rw [hkeeps.table]; exact id) hslot
  obtain ⟨k, t, t', hclaim, hmutate, hcopies⟩ :=
    exists_last hp' S hallows (Nat.le_refl _) hslotsTaken (hsession ▸ hrested.visits) hroom'
  rw [hsession] at hclaim
  rw [run, hws]
  change (claim q.session w.readers >>= _) = _
  rw [hrs]
  change (claim ((ws ++ rs).foldl (fun s k => (s.perform (.drop k)).2) rested.session) 1 >>= _) = _
  rw [hclaim]
  refine congrArg Except.ok ?_
  let copies := (mutate t k .len).2.inst.copies
  change Report.mk (mutate t k .len).1 (copies.left == copies.right) (copies.left.mergeSort (· ≤ ·))
    (rested.outputs.mergeSort (· ≤ ·)) rested.wentBack rested.session.inst.mutations
    rested.session.inst.activeSide = _
  have hcopies : copies = ⟨init ++ xs.map Int64.ofNat, init ++ xs.map Int64.ofNat⟩ := by
    simp only [copies, hmutate]
    exact congrArg₂ Copies.mk (hcopies .left) (hcopies .right)
  rw [hcopies, hmutate, expected, Report.mk.injEq]
  refine ⟨by rw [hlength], beq_self_eq_true _, ?_, ?_, hrested.wentBack, ?_, ?_⟩
  · exact mergeSort_eq_of_perm ((hperm.map _).append_left _)
  · rw [hrested.outputs, hlength]
    refine (mergeSort_eq_of_perm (List.reverse_perm _)).trans (List.mergeSort_of_pairwise ?_)
    refine List.pairwise_map.2 (List.pairwise_lt_range.imp fun hlt => ?_)
    exact decide_eq_true (by omega)
  · rw [← hsession, ← hlength]
    exact hmutations.trans (List.length_map _)
  · rw [← hsession, ← hlength]
    refine hactive.trans ?_
    rw [pushes, List.length_map, hside]

omit [DecidableEq κ] in
/-- A report describes a point: the copies, the outputs, and the copies given to queries. The active
side is determined only if every mutation has a turn of its own. -/
structure Report.Describes (report : Report) (p : Point γ κ δ Numbers (Option Int)) : Prop where
  copies : report.copiesEqual = true ↔ p.inst.copies.left = p.inst.copies.right
  sorted : report.sorted = p.inst.copies.left.mergeSort (· ≤ ·)
  outputs : (p.done.map Finished.outcome).Perm (report.outputs.map fun n => .ok (some n))
  wentBack : report.wentBack = false ↔ p.history.seen.Pairwise (·.length ≤ ·.length)
  mutations : report.mutations = p.inst.mutations
  side : p.inst.style = .exclusive → report.side = p.inst.activeSide
  len : p.session.visits = [] → ∀ k,
    (p.inst.style = .combining → (p.session.own? k).isSome = true) →
      (mutate p.session k .len).1 = report.len

omit [DecidableEq κ] in
/-- The expected report describes every point at which the work is done. -/
lemma Carried.describes {w : Workload} {p : Point γ κ δ Numbers (Option Int)}
    (hc : w.Carried init xs p) (hxs : w.Interleaves xs) (hwriters : p.inst.writers = []) :
    (w.expected init).Describes p := by
  have hd := hc.done hxs hwriters
  refine
    { copies := iff_of_true rfl hd.copies
      sorted := (mergeSort_eq_of_perm hd.content).symm
      outputs := ?_
      wentBack := iff_of_true rfl (hc.seen.1.imp fun hprefix => hprefix.length_le)
      mutations := hd.mutations.symm
      side := fun hstyle => ?_
      len := hd.len }
  · rw [expected, List.map_map]
    exact hd.outputs
  · have hexpected := (Side.iterate_opposite_left (w.writers * w.work)).trans (hd.side hstyle).symm
    change Side.opposite^[w.writers * w.work] .left = _
    revert hexpected
    cases p.inst.activeSide <;> cases Side.opposite^[w.writers * w.work] .left <;> simp

end Workload

/-! ## The three gates -/

variable {γ κ δ : Type} [Gate γ κ δ]

/-- The report of a workload in this session is the expected one, which describes every other
schedule of the workload as well, if the history satisfies `fits`. -/
structure Session.Reports (s : Session γ κ δ Numbers (Option Int)) (init : Numbers) (w : Workload)
    (fits : History γ κ δ Numbers (Option Int) → Prop) : Prop where
  run : w.run s = .ok (w.expected init)
  describes : ∀ {cell xs ticks}, Plainly ticks → let p := (Point.start s).after ticks
    fits p.history → p.history.Pushes w cell xs → w.Interleaves xs → p.inst.writers = [] →
      (w.expected init).Describes p

/-- Steady sessions with enough slots give this report. -/
lemma Session.Steady.reports [DecidableEq κ] {inst : Instance γ δ Numbers (Option Int)}
    {init : Numbers} {w : Workload} {fits : History γ κ δ Numbers (Option Int) → Prop}
    (S : (Session.ofInstance inst : Session γ κ δ _ _).Steady init fits)
    (hallows : (Session.ofInstance inst : Session γ κ δ _ _).Allows fits w.looks)
    (hside : inst.activeSide = .left) (hwriters : inst.writers = [])
    (hspare : inst.registry.Spare (max 1 (w.claims inst.style))) :
    (Session.ofInstance inst : Session γ κ δ _ _).Reports init w fits where
  run := w.run_eq_expected S hallows hside hwriters rfl (fun _ => .of_capacity inst) fun _ => hspare
  describes hticks := fun hfits hpushes hxs hwriters =>
    ((S.carries hside).carried w _ _ _ hticks hfits hpushes).describes hxs hwriters

/-- An instance has enough slots for a workload, and one for a last mutation. -/
def Workload.HasRoom (w : Workload) {α ρ : Type} (inst : Instance γ δ α ρ) : Prop :=
  ∀ n, inst.registry.capacity = some n → max 1 (w.claims inst.style) ≤ n

omit [Gate γ κ δ] in
lemma Workload.HasRoom.spare_ofStyle {w : Workload} {style : Style} {kind : IndicatorKind}
    {c : Config} {α ρ : Type} {init : Copies α}
    (h : w.HasRoom (.ofStyle style kind c init : Instance Versioned Version α ρ)) :
    (Instance.ofStyle style kind c init : Instance Versioned Version α ρ).registry.Spare
      (max 1 (w.claims style)) := by
  cases style with
  | exclusive =>
    exact Registry.spare_ofCapacity fun m hm => h m ((Registry.capacity_ofCapacity 0 _).trans hm)
  | combining =>
    have hcapacity := Registry.capacity_ofCapacity 0 (some c.maxThreads)
    exact Registry.spare_ofCapacity fun m hm => h m (hcapacity.trans hm)

/-- The report of a workload is the result of every schedule of it, for all gates, if there are
enough slots and a counter of arrivals does not wrap. -/
theorem report_independent_of_schedule (c : Config) (init : Numbers) (w : Workload) :
    (∀ style kind, IndicatorKind.Counting kind → (kind = .paired → w.looks < 2 ^ 64) →
      w.HasRoom (.ofStyle style kind c ⟨init, init⟩ : Instance _ _ Numbers (Option Int)) →
        (Session.ofInstance (.ofStyle style kind c ⟨init, init⟩) :
          Session Versioned Version Version Numbers (Option Int)).Reports init w
            (·.Within (Versioned.Limit kind))) ∧
    (∀ style kind, ¬ IndicatorKind.Counting kind →
      w.HasRoom (.ofStyle style kind c ⟨init, init⟩ : Instance _ _ Numbers (Option Int)) →
        (Session.ofInstance (.ofStyle style kind c ⟨init, init⟩) :
          Session Versioned Version Version Numbers (Option Int)).Reports init w
            fun h => ∀ d ∈ h, d.Single) ∧
    (Session.ofInstance (.versionedWord c ⟨init, init⟩) :
      Session VersionedWord Version Version Numbers (Option Int)).Reports init w
        (·.Within VersionedWord.Limit) ∧
    (Session.ofInstance (.ingressWord c ⟨init, init⟩) :
      Session IngressWord Side IngressWord.Backlog Numbers (Option Int)).Reports init w
        (·.Within IngressWord.Limit) := by
  refine ⟨fun style kind hkind hpaired hroom => ?_, fun style kind hkind hroom => ?_, ?_, ?_⟩
  · have hlimit (tickets : List Version) (n : Nat) (htickets : tickets.length ≤ 1)
        (hn : n ≤ w.looks) : Versioned.Limit kind tickets n := by
      cases kind with
      | paired => exact Nat.lt_of_le_of_lt hn (hpaired rfl)
      | _ => exact Nat.lt_of_le_of_lt htickets (by decide)
    have S := steady_of_counting (ρ := Option Int) hkind style c init
    have hspare := hroom.spare_ofStyle
    cases style <;> exact S.reports (S.allows_within rfl hlimit) rfl rfl hspare
  · have S := steady_of_single (ρ := Option Int) hkind style c init
    have hspare := hroom.spare_ofStyle
    cases style <;> exact S.reports (Session.allows_single _ _) rfl rfl hspare
  · have S := steady_versionedWord (ρ := Option Int) c init
    have hlimit (tickets : List Version) (n : Nat) (htickets : tickets.length ≤ 1)
      (_ : n ≤ w.looks) :
        VersionedWord.Limit tickets n :=
      ⟨Nat.lt_of_le_of_lt (List.count_le_length.trans htickets) (by decide),
        Nat.lt_of_le_of_lt (List.count_le_length.trans htickets) (by decide)⟩
    exact S.reports (S.allows_within rfl hlimit)
      (show Gate.side VersionedWord.fresh = .left by decide)
      rfl trivial
  · have S := steady_ingressWord (ρ := Option Int) c init
    have hlimit (tickets : List Side) (n : Nat) (htickets : tickets.length ≤ 1) (_ : n ≤ w.looks) :
        IngressWord.Limit tickets n := Nat.le_trans htickets (by decide)
    exact S.reports (S.allows_within rfl hlimit)
      (show Gate.side IngressWord.fresh = .left by decide)
      rfl trivial

end TwinCopy
