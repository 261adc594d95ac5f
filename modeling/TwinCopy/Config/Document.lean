import TwinCopy.Config
import TwinCopy.Toml.Document

/-!
# Configuration documents

A configuration is written as a TOML document with up to three keys, `max_threads`,
`counter_buckets` and `wait`. Keys that are left out have their standard values, other keys are
ignored as long as their values can be represented. Which entries a document has is up to a
`Toml.EntryReader`.
-/

namespace TwinCopy

namespace Toml

/-- Sizes fit a word of 64 bits. -/
def Value.size? : Value → Option Nat
  | .integer n => if 0 ≤ n ∧ n.toNat < UInt64.size then some n.toNat else none
  | _ => none

/-- The waiting policy that a name stands for. -/
def policyOfName? (name : List Char) : Option WaitPolicy :=
  if name = "yield".toList then some .yield
  else if name = "spin".toList then some .spin
  else none

/-- A policy is given by its name, or by a table with the name as its only key and nothing in
it. -/
def Value.policy? : Value → Option WaitPolicy
  | .text name => policyOfName? name
  | .table _ [(name, .table _ [])] => policyOfName? name
  | _ => none

mutual

/-- Whether a value that nobody asks for can be represented: integers in 128 bits, with or without
sign, and floats in 64. -/
def Value.representable : Value → Bool
  | .integer n => decide (-2 ^ 127 ≤ n ∧ n < 2 ^ 128)
  | .float inRange => inRange
  | .array _ elements => allRepresentable elements
  | .table _ entries => entriesRepresentable entries
  | .text _ | .boolean _ | .moment => true

/-- Whether every element of an array can be represented. -/
def allRepresentable : List Value → Bool
  | [] => true
  | v :: rest => v.representable && allRepresentable rest

/-- Whether every value of a table can be represented. -/
def entriesRepresentable : List (List Char × Value) → Bool
  | [] => true
  | (_, v) :: rest => v.representable && entriesRepresentable rest

end

end Toml

namespace Config

open Toml

/-- Takes account of one entry of a document. -/
def setEntry (c : Config) (key : List Char) (v : Value) : Option Config :=
  if key = "max_threads".toList then v.size?.map ({ c with maxThreads := · })
  else if key = "counter_buckets".toList then v.size?.map ({ c with counterBuckets := · })
  else if key = "wait".toList then v.policy?.map ({ c with wait := · })
  else if v.representable then some c
  else none

/-- The configuration that the entries of a document describe. -/
def ofEntries (es : Entries) : Option Config :=
  es.foldlM (fun c (key, v) => c.setEntry key v) standard

/-- Reads and validates a configuration, with this reader of documents. -/
def ofTomlWith (read : EntryReader) (document : String) : Except Error Config :=
  match read document.toList >>= ofEntries with
  | some c => c.validate
  | none => .error .configMalformed

/-- Reads and validates a configuration. -/
def ofToml : String → Except Error Config :=
  ofTomlWith entriesOf

/-- Reads a configuration from the contents of a file, if the file could be read. -/
def load (path : String) (contents : Option ByteArray) : Except Error Config :=
  match contents >>= String.fromUTF8? with
  | some document => ofToml document
  | none => .error (.configUnreadable path)

end Config

end TwinCopy
