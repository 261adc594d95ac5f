import TwinCopy.Toml.Text

/-!
# Quoted text

TOML has four forms of a string. The basic ones stand between double quotes and know escapes, the
literal ones stand between single quotes and are taken as they are. Both may stand between three
quotes instead, and then run over several lines; a line end right after the opening quotes does
not count.
-/

namespace TwinCopy.Toml

/-- A code point that is a character. -/
def charOfCode? (n : Nat) : Option Char :=
  if n < 0xd800 ∨ (0xdfff < n ∧ n < 0x110000) then some (Char.ofNat n) else none

/-- The character that hexadecimal digits stand for. -/
def charOfHex? (ds : List Char) : Option Char :=
  if ds.all isHexDigit then charOfCode? (ofDigits 16 ds) else none

/-- The character of an escape that is a single letter. -/
def escape? : Char → Option Char
  | 'b' => some '\x08'
  | 't' => some '\t'
  | 'n' => some '\n'
  | 'f' => some '\x0c'
  | 'r' => some '\r'
  | 'e' => some '\x1b'
  | '"' => some '"'
  | '\\' => some '\\'
  | _ => none

/-- Text in front of what a reader found. -/
def prepend (cs : List Char) : Option (List Char × List Char) → Option (List Char × List Char)
  | some (text, rest) => some (cs ++ text, rest)
  | none => none

/-- Text in front of what a reader found, if there is such text. -/
def prepend? (c : Option Char) (found : Option (List Char × List Char)) :
    Option (List Char × List Char) :=
  match c with
  | some c => prepend [c] found
  | none => none

/-- The rest of a basic string on one line. -/
def basicBody : List Char → Option (List Char × List Char)
  | [] => none
  | '"' :: rest => some ([], rest)
  | '\\' :: 'x' :: a :: b :: rest => prepend? (charOfHex? [a, b]) (basicBody rest)
  | '\\' :: 'u' :: a :: b :: c :: d :: rest => prepend? (charOfHex? [a, b, c, d]) (basicBody rest)
  | '\\' :: 'U' :: a :: b :: c :: d :: e :: f :: g :: h :: rest =>
      prepend? (charOfHex? [a, b, c, d, e, f, g, h]) (basicBody rest)
  | '\\' :: c :: rest => prepend? (escape? c) (basicBody rest)
  | c :: rest => if isPrintable c then prepend [c] (basicBody rest) else none

/-- The rest of a literal string on one line. -/
def literalBody : List Char → Option (List Char × List Char)
  | [] => none
  | '\'' :: rest => some ([], rest)
  | c :: rest => if isPrintable c then prepend [c] (literalBody rest) else none

/-- What follows three quotes that close a string: up to two more quotes still belong to it. -/
def closing (quote : Char) : List Char → List Char × List Char
  | a :: b :: rest =>
      if a = quote ∧ b = quote then ([a, b], rest)
      else if a = quote then ([a], b :: rest)
      else ([], a :: b :: rest)
  | [a] => if a = quote then ([a], []) else ([], [a])
  | [] => ([], [])

/-- The rest of a basic string on several lines. A backslash at the end of a line takes all blanks
and line ends with it; `trimming` says that this is under way. -/
def multilineBasicBody (trimming : Bool) : List Char → Option (List Char × List Char)
  | [] => none
  | '"' :: '"' :: '"' :: rest => some (closing '"' rest)
  | '\n' :: rest =>
      let found := multilineBasicBody trimming rest
      if trimming then found else prepend ['\n'] found
  | '\r' :: '\n' :: rest =>
      let found := multilineBasicBody trimming rest
      if trimming then found else prepend ['\r', '\n'] found
  | '\\' :: 'x' :: a :: b :: rest =>
      prepend? (charOfHex? [a, b]) (multilineBasicBody false rest)
  | '\\' :: 'u' :: a :: b :: c :: d :: rest =>
      prepend? (charOfHex? [a, b, c, d]) (multilineBasicBody false rest)
  | '\\' :: 'U' :: a :: b :: c :: d :: e :: f :: g :: h :: rest =>
      prepend? (charOfHex? [a, b, c, d, e, f, g, h]) (multilineBasicBody false rest)
  | '\\' :: c :: rest =>
      if (newline? (skipBlanks (c :: rest))).isSome then multilineBasicBody true (c :: rest)
      else prepend? (escape? c) (multilineBasicBody false rest)
  | c :: rest =>
      if trimming && isBlank c then multilineBasicBody true rest
      else if isPrintable c then prepend [c] (multilineBasicBody false rest)
      else none

/-- The rest of a literal string on several lines. -/
def multilineLiteralBody : List Char → Option (List Char × List Char)
  | [] => none
  | '\'' :: '\'' :: '\'' :: rest => some (closing '\'' rest)
  | '\n' :: rest => prepend ['\n'] (multilineLiteralBody rest)
  | '\r' :: '\n' :: rest => prepend ['\r', '\n'] (multilineLiteralBody rest)
  | c :: rest => if isPrintable c then prepend [c] (multilineLiteralBody rest) else none

/-- What follows the opening quotes of a string on several lines. -/
def skipFirstNewline (cs : List Char) : List Char :=
  (newline? cs).getD cs

/-- A string on one line, with its quotes. -/
def quotedLine : List Char → Option (List Char × List Char)
  | '"' :: rest => basicBody rest
  | '\'' :: rest => literalBody rest
  | _ => none

/-- A string of any form, with its quotes. -/
def quoted : List Char → Option (List Char × List Char)
  | '"' :: '"' :: '"' :: rest => multilineBasicBody false (skipFirstNewline rest)
  | '\'' :: '\'' :: '\'' :: rest => multilineLiteralBody (skipFirstNewline rest)
  | cs => quotedLine cs

end TwinCopy.Toml
