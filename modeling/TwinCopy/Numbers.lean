import TwinCopy.Mutation

/-!
# Lists of numbers

The protected value of scripts: a list of 64-bit integers, with a handful of changes. Arithmetic
wraps. `count` and `explode` depend on which application of the mutation it is, so the copies may
come to differ.
-/

namespace TwinCopy

/-- The protected value. -/
abbrev Numbers := List Int64

namespace Numbers

/-- The changes of a list, each with its output. -/
inductive Change where
  /-- leaves the list alone and has no output -/
  | nop
  /-- the length -/
  | len
  /-- the sum -/
  | sum
  /-- appends a number, the new length -/
  | push (x : Int64)
  /-- removes the last number, which is the output -/
  | pop
  /-- removes everything, the old length -/
  | clear
  /-- adds a number to every element, the new first element -/
  | add (x : Int64)
  /-- appends the number of the application, which is the output -/
  | count
  /-- appends seven, and then gives up on the application with this number, or on every one if
  the number is zero; else the new length -/
  | explode (x : Int64)
  deriving DecidableEq, Repr

namespace Change

/-- The change that scripts call by this name. -/
def ofName? (name : String) (x : Int64) : Option Change :=
  match name with
  | "nop" => some nop
  | "len" => some len
  | "sum" => some sum
  | "push" => some (push x)
  | "pop" => some pop
  | "clear" => some clear
  | "add" => some (add x)
  | "count" => some count
  | "explode" => some (explode x)
  | _ => none

/-- The length of a list, as an output. -/
def lengthOutput (xs : Numbers) : Option Int :=
  some xs.length

/-- One application of a change. -/
def apply (application : Nat) (xs : Numbers) : Change → Application Numbers (Option Int)
  | nop => ⟨xs, .ok none⟩
  | len => ⟨xs, .ok (lengthOutput xs)⟩
  | sum => ⟨xs, .ok (some (xs.foldl (· + ·) 0).toInt)⟩
  | push x => ⟨xs ++ [x], .ok (lengthOutput (xs ++ [x]))⟩
  | pop => ⟨xs.dropLast, .ok (xs.getLast?.map Int64.toInt)⟩
  | clear => ⟨[], .ok (lengthOutput xs)⟩
  | add x =>
      let ys := xs.map (· + x)
      ⟨ys, .ok (ys.head?.map Int64.toInt)⟩
  | count => ⟨xs ++ [Int64.ofNat application], .ok (some application)⟩
  | explode x =>
      let ys := xs ++ [7]
      ⟨ys, if x = 0 ∨ x = Int64.ofNat application then .error "mutation exploded"
        else .ok (lengthOutput ys)⟩

/-- A change as a mutation. -/
def mutation (c : Change) : Mutation Numbers (Option Int) where
  apply application xs := c.apply application xs

end Change

end Numbers

end TwinCopy
