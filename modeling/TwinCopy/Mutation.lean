/-!
# Mutations

A mutation is applied once to each of the two copies. Its first application gives the output.
What it does may depend on which application it is, and it may give up after any change; the two
copies then differ.
-/

namespace TwinCopy

/-- What one application leaves behind: the copy as it then is, and the output or the message the
application gave up with. -/
structure Application (α ρ : Type) where
  copy : α
  outcome : Except String ρ

/-- A change of a copy. Applications are numbered from one. -/
structure Mutation (α ρ : Type) where
  apply : Nat → α → Application α ρ

/-- A mutation that looks at nothing but the copy and always returns. -/
def Mutation.ofFunction {α ρ : Type} (f : α → α × ρ) : Mutation α ρ where
  apply _ a := ⟨(f a).1, .ok (f a).2⟩

end TwinCopy
