import TwinCopy.Instance

/-!
# Diagnostic texts

Slots, registries, locks and instances can be written out for a log. A structure is written as
its name and its fields, with two dots at the end if there are fields it does not show.
-/

namespace TwinCopy

/-- Text between braces. -/
def braced (inner : String) : String :=
  "\x7b " ++ inner ++ " \x7d"

/-- The text of a structure. -/
def structureText (name : String) (fields : List (String × String)) (isPartial : Bool) : String :=
  let shown := fields.map fun (field, value) => field ++ ": " ++ value
  name ++ " " ++ braced (", ".intercalate (if isPartial then shown ++ [".."] else shown))

/-- The text of a slot, which does not name its registry. -/
def Slot.text (s : Slot) : String :=
  "Slot(" ++ toString s.index ++ ")"

/-- The text of a registry, which does not show its claims. -/
def Registry.text (r : Registry) : String :=
  let capacity := match r.capacity with
    | some n => "Some(" ++ toString n ++ ")"
    | none => "None"
  structureText "SlotRegistry" [("capacity", capacity)] true

/-- The text of a lock, which does not show how callers wait for it. -/
def SpinLock.text (l : SpinLock) : String :=
  structureText "SpinLock" [("locked", if l.locked then "true" else "false")] false

/-- The text of a version. -/
def Version.text (v : Version) : String :=
  "VersionIndex(" ++ toString v.index ++ ")"

/-- The text of an instance whose gate is one word: all there is to it can be seen. -/
def View.wordText? (v : View) : Option String :=
  let side := ("side", v.side.name)
  match v.gate with
  | .versions .. => none
  | .packed current inZero inOne =>
      some <| structureText "LeftRightAL"
        [side, ("version", current.text),
          ("readers", "(" ++ toString inZero ++ ", " ++ toString inOne ++ ")")] true
  | .ingress arrivals left right rebases =>
      let word := structureText "Fields"
        [side, ("ingress", toString arrivals), ("egress_left", toString left),
          ("egress_right", toString right)] false
      some <| structureText "LeftRightALNV" [("word", word), ("rebases", toString rebases)] true

/-- The text of an instance. -/
def Instance.text {γ κ δ α ρ : Type} [Gate γ κ δ] (s : Instance γ δ α ρ) : String :=
  let v := s.view
  let side := ("side", v.side.name)
  match v.gate, s.style with
  | .versions current .., .exclusive =>
      structureText "LeftRight"
        [side, ("version", current.text), ("registry", s.registry.text),
          ("mutations", toString v.mutations)] true
  | .versions current .., .combining =>
      structureText "LeftRightFlatCombining"
        [side, ("version", current.text), ("combiner", s.lock.text),
          ("batches", toString v.batches), ("mutations", toString v.mutations)] true
  | _, _ => v.wordText?.getD ""

end TwinCopy
