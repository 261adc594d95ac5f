/-!
# Values and tables

What a document denotes: a table of values. A table remembers how it came about, because that
settles what may be added to it later: a table is written in one place only, under one header, by
dotted keys of one table, or between braces.
-/

namespace TwinCopy.Toml

/-- How a table came about. -/
inductive Origin where
  /-- under a header of its own, or as the whole document -/
  | header
  /-- on the way to the table of another header -/
  | implied
  /-- on the way to the last part of a dotted key -/
  | dotted
  /-- between braces -/
  | inline
  deriving DecidableEq, Repr

/-- A value of a document. Only what configurations can tell apart is kept. -/
inductive Value where
  | text (cs : List Char)
  | integer (n : Int)
  /-- a float, which may be out of range -/
  | float (inRange : Bool)
  | boolean (b : Bool)
  | moment
  /-- an array, which headers may add tables to or not -/
  | array (ofTables : Bool) (elements : List Value)
  | table (origin : Origin) (entries : List (List Char × Value))

/-- Keys with their values. -/
abbrev Entries := List (List Char × Value)

/-- Gives a key another value. -/
def Entries.replace (es : Entries) (key : List Char) (v : Value) : Entries :=
  es.map fun (k, old) => (k, if k = key then v else old)

/-- Follows keys into a table and changes the table they lead to. Tables that are missing on the
way are made; of an array of tables the last one is taken. A dotted key does not lead into a table
that has a header. -/
def descend (dotted : Bool) (change : Origin → Entries → Option Entries) :
    List (List Char) → Origin → Entries → Option Entries
  | [], origin, es => change origin es
  | key :: path, _, es =>
      match es.lookup key with
      | none => do
          let made := if dotted then .dotted else .implied
          let inner ← descend dotted change path made []
          return es ++ [(key, .table made inner)]
      | some (.table origin inner) => do
          if origin = .inline ∨ (dotted ∧ origin = .header) then none
          let inner ← descend dotted change path origin inner
          return es.replace key (.table origin inner)
      | some (.array true elements) =>
          match elements.getLast? with
          | some (.table origin inner) => do
              let inner ← descend dotted change path origin inner
              return es.replace key (.array true (elements.dropLast ++ [.table origin inner]))
          | _ => none
      | some _ => none

/-- Adds a new key. A table made by dotted keys takes keys by dotted keys only, and no other table
does. -/
def addKey (viaDots : Bool) (key : List Char) (v : Value) (origin : Origin) (es : Entries) :
    Option Entries :=
  if viaDots = decide (origin = .dotted) ∧ (es.lookup key).isNone then some (es ++ [(key, v)])
  else none

/-- Adds a value under a dotted key to a table. -/
def addPath (path : List (List Char)) (v : Value) (origin : Origin) (es : Entries) :
    Option Entries :=
  match path.getLast? with
  | none => none
  | some key =>
      let above := path.dropLast
      descend true (addKey (!above.isEmpty) key v) above origin es

/-- Opens the table of a header: a new one, or one that headers have only passed through. -/
def openTable (path : List (List Char)) (root : Entries) : Option Entries :=
  match path.getLast? with
  | none => none
  | some key =>
      descend false
        (fun _ es =>
          match es.lookup key with
          | none => some (es ++ [(key, .table .header [])])
          | some (.table .implied inner) => some (es.replace key (.table .header inner))
          | some _ => none)
        path.dropLast .header root

/-- Opens the next table of an array of tables. -/
def openElement (path : List (List Char)) (root : Entries) : Option Entries :=
  match path.getLast? with
  | none => none
  | some key =>
      descend false
        (fun _ es =>
          match es.lookup key with
          | none => some (es ++ [(key, .array true [.table .header []])])
          | some (.array true elements) =>
              some (es.replace key (.array true (elements ++ [.table .header []])))
          | some _ => none)
        path.dropLast .header root

/-- Adds a value under a dotted key to the table that the last header opened. -/
def addUnder (header path : List (List Char)) (v : Value) (root : Entries) : Option Entries :=
  descend false (addPath path v) header .header root

end TwinCopy.Toml
