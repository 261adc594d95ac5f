/-!
# The text of a TOML document

The characters of a document, and what may stand between its parts: blanks, line ends and
comments. Readers take the characters that are left and give those that follow what they read, or
nothing where the text is no TOML.
-/

namespace TwinCopy.Toml

/-- A space or a tab. -/
def isBlank (c : Char) : Bool :=
  c == ' ' || c == '\t'

/-- A control character, of which only the tab may stand in a comment or a string. -/
def isControl (c : Char) : Bool :=
  c.val < 0x20 || c.val == 0x7f

/-- A character that may stand in a comment or on a line of a string. -/
def isPrintable (c : Char) : Bool :=
  c == '\t' || !isControl c

/-- A decimal digit. -/
def isDigit (c : Char) : Bool :=
  '0' ≤ c && c ≤ '9'

/-- A hexadecimal digit of either case. -/
def isHexDigit (c : Char) : Bool :=
  isDigit c || ('a' ≤ c && c ≤ 'f') || ('A' ≤ c && c ≤ 'F')

/-- A character of a key without quotes. -/
def isBareKeyChar (c : Char) : Bool :=
  isDigit c || ('a' ≤ c && c ≤ 'z') || ('A' ≤ c && c ≤ 'Z') || c == '_' || c == '-'

/-- The value of a digit in any base up to sixteen. -/
def digitValue (c : Char) : Nat :=
  if isDigit c then c.toNat - '0'.toNat
  else if 'a' ≤ c then c.toNat - 'a'.toNat + 10
  else c.toNat - 'A'.toNat + 10

/-- The number that digits write in a base. -/
def ofDigits (base : Nat) (ds : List Char) : Nat :=
  ds.foldl (fun n d => base * n + digitValue d) 0

/-- Skips spaces and tabs. -/
def skipBlanks (cs : List Char) : List Char :=
  cs.dropWhile isBlank

/-- A line end. A carriage return counts only before a line feed. -/
def newline? : List Char → Option (List Char)
  | '\n' :: rest => some rest
  | '\r' :: '\n' :: rest => some rest
  | _ => none

/-- Whether a line ends here. -/
def atLineEnd (cs : List Char) : Bool :=
  cs.isEmpty || (newline? cs).isSome

/-- Skips a comment up to the line end, if there is one. -/
def skipComment : List Char → Option (List Char)
  | '#' :: rest =>
      let (body, rest) := rest.span (fun c => c != '\n' && c != '\r')
      if body.all isPrintable then some rest else none
  | cs => some cs

/-- Nothing but blanks and a comment may be left on a line. The line end is skipped too. -/
def endLine (cs : List Char) : Option (List Char) := do
  match ← skipComment (skipBlanks cs) with
  | [] => some []
  | cs => newline? cs

/-- Skips blanks, line ends and comments. -/
def skipTrivia (inComment : Bool) : List Char → Option (List Char)
  | [] => some []
  | '\n' :: rest => skipTrivia false rest
  | '\r' :: '\n' :: rest => skipTrivia false rest
  | c :: rest =>
      if inComment then
        if isPrintable c then skipTrivia true rest else none
      else if isBlank c then skipTrivia false rest
      else if c == '#' then skipTrivia true rest
      else some (c :: rest)

end TwinCopy.Toml
