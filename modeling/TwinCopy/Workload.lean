import TwinCopy.Numbers
import TwinCopy.Session.Script

/-!
# Workloads

A workload is a number of writers that each append numbers of their own to a list, and of readers
that watch the list meanwhile. `run` carries it out in turns: every writer makes its next
mutation, and after each mutation every reader looks once. What a workload reports does not depend
on the turns.
-/

namespace TwinCopy

/-- How many take part, and how much each of them does. -/
structure Workload where
  writers : Nat
  readers : Nat
  /-- how many numbers each writer appends -/
  work : Nat
  /-- how often each reader looks at least -/
  reads : Nat
  deriving DecidableEq, Repr

namespace Workload

/-- What is reported of a workload. -/
structure Report where
  /-- the length that a last mutation finds -/
  len : Option Int
  copiesEqual : Bool
  /-- the left copy, sorted -/
  sorted : Numbers
  /-- the outputs of the writers' mutations, sorted -/
  outputs : List Int
  /-- whether a reader found the list shorter than before -/
  wentBack : Bool
  /-- the mutations counted before the last one -/
  mutations : Nat
  /-- the side active before the last mutation -/
  side : Side
  deriving DecidableEq, Repr

/-- A workload under way. -/
structure Progress (γ κ δ : Type) where
  session : Session γ κ δ Numbers (Option Int)
  /-- what each reader last found the length to be, with its slot's place in the table -/
  lengths : List (Nat × Nat)
  wentBack : Bool
  outputs : List Int

variable {γ κ δ : Type} [Gate γ κ δ]

/-- Claims slots, and says where in the table they are. -/
def claim (s : Session γ κ δ Numbers (Option Int)) :
    Nat → Except Failure (List Nat × Session γ κ δ Numbers (Option Int))
  | 0 => .ok ([], s)
  | n + 1 =>
      if Gate.slotted γ then
        match s.perform .register with
        | (.ok _, s') => (claim s' n).map (·.map (s.table.length :: ·) id)
        | (.error f, _) => .error f
      else (claim s n).map (·.map (0 :: ·) id)

/-- Claims a slot for each writer that needs one, as combining writers do. -/
def claimWriters (w : Workload) (s : Session γ κ δ Numbers (Option Int)) :
    Except Failure (List Nat × Session γ κ δ Numbers (Option Int)) :=
  match s.inst.style with
  | .combining => claim s w.writers
  | .exclusive => .ok (List.replicate w.writers 0, s)

/-- A mutation, and its output if it returned at once. -/
def mutate (s : Session γ κ δ Numbers (Option Int)) (k : Nat) (c : Numbers.Change) :
    Option Int × Session γ κ δ Numbers (Option Int) :=
  let (_, s) := s.perform (.mutate k c.mutation false)
  let output := match s.inst.finished with
    | ⟨_, .ok output, _⟩ :: _ => output
    | _ => none
  (output, { s with inst := { s.inst with finished := [], log := [] } })

/-- A reader looks, who last found the length to be `before`. -/
def Progress.lookOnce (p : Progress γ κ δ) (k before : Nat) : Progress γ κ δ :=
  let (r, session) := p.session.readOnce k false
  let now := match r with
    | .ok (.copy xs) => xs.length
    | _ => before
  { p with
    session
    lengths := (k, now) :: p.lengths
    wentBack := p.wentBack || decide (now < before) }

/-- Every reader looks once. -/
def Progress.look (p : Progress γ κ δ) : Progress γ κ δ :=
  p.lengths.foldr (fun (k, before) p => p.lookOnce k before) { p with lengths := [] }

/-- A writer appends a number, and every reader looks once. -/
def Progress.push (p : Progress γ κ δ) (k : Nat) (x : Int64) : Progress γ κ δ :=
  let (output, session) := mutate p.session k (.push x)
  { p with session, outputs := output.toList ++ p.outputs }.look

/-- The readers look so many times. -/
def Progress.lookTimes (p : Progress γ κ δ) : Nat → Progress γ κ δ
  | 0 => p
  | n + 1 => p.look.lookTimes n

/-- The turns of a workload whose writers have these places in the table: who appends which
number. -/
def turns (w : Workload) (writers : List Nat) : List (Nat × Nat) :=
  (List.range w.work).flatMap fun i => writers.zipIdx.map fun (k, j) => (k, j * w.work + i)

/-- Carries a workload out. Readers need a slot each where the gate asks for it. -/
def run (w : Workload) (s : Session γ κ δ Numbers (Option Int)) : Except Failure Report := do
  let (writers, s) ← w.claimWriters s
  let (readers, s) ← claim s w.readers
  let start : Progress γ κ δ := ⟨s, readers.map (·, 0), false, []⟩
  let turns := w.turns writers
  let p := turns.foldl (fun p (k, x) => p.push k (Int64.ofNat x)) start
  let p := p.lookTimes (w.reads - turns.length)
  let (mutations, side) := (p.session.inst.mutations, p.session.inst.activeSide)
  let idle := (writers ++ readers).foldl (fun s k => (s.perform (.drop k)).2) p.session
  let (last, s) ← claim idle 1
  let (len, s) := mutate s (last.headD 0) .len
  let copies := s.inst.copies
  return {
    len := len
    copiesEqual := copies.left == copies.right
    sorted := copies.left.mergeSort (· ≤ ·)
    outputs := p.outputs.mergeSort (· ≤ ·)
    wentBack := p.wentBack
    mutations := mutations
    side := side }

end Workload

end TwinCopy
