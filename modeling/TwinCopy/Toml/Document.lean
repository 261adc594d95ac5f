import TwinCopy.Toml.Moment
import TwinCopy.Toml.Number
import TwinCopy.Toml.Quoted
import TwinCopy.Toml.Table

/-!
# Documents

Reads a TOML document, version 1.1, into the entries of its table. A document is a succession of
lines, each a key with its value or a header; only values between brackets or braces and strings
between three quotes run over more than one line.
-/

namespace TwinCopy.Toml

/-- How deep brackets and braces may be nested. -/
def maxNesting : Nat := 80

/-- One part of a key. -/
def simpleKey : List Char → Option (List Char × List Char)
  | [] => none
  | c :: cs =>
      if c = '"' ∨ c = '\'' then quotedLine (c :: cs)
      else
        match (c :: cs).span isBareKeyChar with
        | ([], _) => none
        | (key, rest) => some (key, rest)

/-- The parts of a key, with dots between them. Blanks after the last part are skipped. -/
def keyParts : Nat → List Char → Option (List (List Char) × List Char)
  | 0, _ => none
  | fuel + 1, cs => do
      let (key, rest) ← simpleKey cs
      match skipBlanks rest with
      | '.' :: rest =>
          let (more, rest) ← keyParts fuel (skipBlanks rest)
          return (key :: more, rest)
      | rest => return ([key], rest)

/-- A key; each of its parts takes a character at least. -/
def keyPath (cs : List Char) : Option (List (List Char) × List Char) :=
  keyParts cs.length cs

/-- A character of a value without quotes, brackets or braces. -/
def isWordChar (c : Char) : Bool :=
  isBareKeyChar c || c == '+' || c == '.' || c == ':'

/-- The words of a value without quotes, brackets or braces: a date may be followed by a blank and
a time. -/
def scalarText (cs : List Char) : List Char × List Char :=
  let (word, rest) := cs.span isWordChar
  match rest with
  | ' ' :: c :: more =>
      if skipDate word = some [] ∧ isDigit c then
        let (time, rest) := (c :: more).span isWordChar
        (word ++ ' ' :: time, rest)
      else (word, rest)
  | _ => (word, rest)

/-- Reads all of a text as a truth value, a number, a date or a time. -/
def scalar? (cs : List Char) : Option Value :=
  match cs with
  | ['t', 'r', 'u', 'e'] => some (.boolean true)
  | ['f', 'a', 'l', 's', 'e'] => some (.boolean false)
  | _ =>
      match integer? cs with
      | some n => some (.integer n)
      | none =>
          match float? cs with
          | some inRange => some (.float inRange)
          | none => if isMoment cs then some .moment else none

/-- A value that is neither an array nor a table. -/
def plainValue (cs : List Char) : Option (Value × List Char) :=
  match cs with
  | '"' :: _ | '\'' :: _ => (quoted cs).map fun (text, rest) => (.text text, rest)
  | _ =>
      let (word, rest) := scalarText cs
      (scalar? word).map (·, rest)

/-- A key, an equals sign and a value. -/
def keyValue (value : List Char → Option (Value × List Char)) (cs : List Char) :
    Option ((List (List Char) × Value) × List Char) := do
  let (path, rest) ← keyPath cs
  match rest with
  | '=' :: rest =>
      let (v, rest) ← value (skipBlanks rest)
      return ((path, v), rest)
  | _ => none

/-- The rest of a list of items with commas between them, up to the closing character. A comma may
also follow the last item. -/
def items {α : Type} (close : Char) (item : List Char → Option (α × List Char)) :
    Nat → List Char → Option (List α × List Char)
  | 0, _ => none
  | fuel + 1, cs => do
      let c :: cs ← skipTrivia false cs | none
      if c = close then return ([], cs)
      let (a, rest) ← item (c :: cs)
      let d :: rest ← skipTrivia false rest | none
      if d = close then return ([a], rest)
      guard (d = ',')
      let (more, rest) ← items close item fuel rest
      return (a :: more, rest)

/-- A value, with so many levels of brackets and braces. Each item takes a character at least. -/
def value : Nat → List Char → Option (Value × List Char)
  | 0, cs => plainValue cs
  | depth + 1, cs =>
      match cs with
      | '[' :: rest => do
          let (elements, rest) ← items ']' (value depth) cs.length rest
          return (.array false elements, rest)
      | '{' :: rest => do
          let (pairs, rest) ← items '}' (keyValue (value depth)) cs.length rest
          let entries ← pairs.foldlM (fun es (path, v) => addPath path v .inline es) []
          return (.table .inline entries, rest)
      | _ => plainValue cs

/-- The rest of a header, after its opening brackets. -/
def headerPath (cs : List Char) : Option (List (List Char) × List Char) :=
  keyPath (skipBlanks cs)

/-- The lines of a document, under the header that was read last. Each line takes a character at
least. -/
def lines : Nat → List (List Char) → Entries → List Char → Option Entries
  | 0, _, _, _ => none
  | fuel + 1, header, root, cs =>
      match skipBlanks cs with
      | [] => some root
      | '[' :: '[' :: rest => do
          let (path, rest) ← headerPath rest
          let ']' :: ']' :: rest := rest | none
          lines fuel path (← openElement path root) (← endLine rest)
      | '[' :: rest => do
          let (path, rest) ← headerPath rest
          let ']' :: rest := rest | none
          lines fuel path (← openTable path root) (← endLine rest)
      | c :: rest =>
          if c = '#' ∨ atLineEnd (c :: rest) then do
            lines fuel header root (← endLine (c :: rest))
          else do
            let ((path, v), rest) ← keyValue (value maxNesting) (c :: rest)
            lines fuel header (← addUnder header path v root) (← endLine rest)

/-- What reads documents into the entries of their tables. -/
abbrev EntryReader := List Char → Option Entries

/-- Reads a document. A byte order mark may stand in front of it. -/
def entriesOf : EntryReader := fun cs =>
  let cs := match cs with
    | '\ufeff' :: rest => rest
    | _ => cs
  lines (cs.length + 1) [] [] cs

end TwinCopy.Toml
