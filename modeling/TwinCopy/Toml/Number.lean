import TwinCopy.Toml.Text

/-!
# Numbers

Integers are decimal with an optional sign and no leading zero, or hexadecimal, octal or binary
with a prefix and no sign. Floats are decimal with a fraction, an exponent or both, or infinite,
or no number. Single underscores may stand between digits.
-/

namespace TwinCopy.Toml

/-- Digits with single underscores between them, without the underscores. There is at least one
digit. -/
def digitGroups (isDigit : Char → Bool) : List Char → Option (List Char)
  | [] => none
  | [c] => if isDigit c then some [c] else none
  | c :: '_' :: rest => if isDigit c then (digitGroups isDigit rest).map (c :: ·) else none
  | c :: rest => if isDigit c then (digitGroups isDigit rest).map (c :: ·) else none

/-- The digits of a decimal number without a leading zero. -/
def decimalDigits (cs : List Char) : Option (List Char) :=
  match digitGroups isDigit cs with
  | some ('0' :: _ :: _) => none
  | ds => ds

/-- Whether a number has a minus, and what follows the sign. -/
def splitSign : List Char → Bool × List Char
  | '-' :: rest => (true, rest)
  | '+' :: rest => (false, rest)
  | cs => (false, cs)

/-- The number with this sign and magnitude. -/
def signed (negative : Bool) (n : Nat) : Int :=
  if negative then -n else n

/-- Reads all of a text as an integer. -/
def integer? : List Char → Option Int
  | '0' :: 'x' :: ds => (digitGroups isHexDigit ds).map fun ds => ofDigits 16 ds
  | '0' :: 'o' :: ds => (digitGroups (fun c => '0' ≤ c && c ≤ '7') ds).map fun ds => ofDigits 8 ds
  | '0' :: 'b' :: ds => (digitGroups (fun c => c == '0' || c == '1') ds).map fun ds => ofDigits 2 ds
  | cs =>
      let (negative, ds) := splitSign cs
      (decimalDigits ds).map fun ds => signed negative (ofDigits 10 ds)

/-- The least magnitude that rounds to infinity in binary64: half a unit above the greatest
finite number. -/
def infinityBound : Nat :=
  1 <<< 1024 - 1 <<< 970

/-- Whether `m * 10 ^ e` rounds to a finite number in binary64. The number of digits settles it
for exponents far away from the bound. -/
def roundsToFinite (m : Nat) (e : Int) : Bool :=
  if m = 0 then true
  else
    let digits : Int := (Nat.toDigits 10 m).length
    if digits + e ≤ 308 then true
    else if digits + e > 310 then false
    else if 0 ≤ e then m * Nat.pow 10 e.toNat < infinityBound
    else m < infinityBound * Nat.pow 10 (-e).toNat

/-- The exponent of a float: its sign and digits. -/
def exponent? (cs : List Char) : Option Int :=
  let (negative, ds) := splitSign cs
  (digitGroups isDigit ds).map fun ds => signed negative (ofDigits 10 ds)

/-- Reads all of a text as a float, and says whether it is within range. -/
def float? (cs : List Char) : Option Bool := do
  let (_, unsigned) := splitSign cs
  if unsigned = ['i', 'n', 'f'] ∨ unsigned = ['n', 'a', 'n'] then return true
  let isExponentMark := fun c => c == 'e' || c == 'E'
  let mantissa := unsigned.takeWhile (!isExponentMark ·)
  let whole := mantissa.takeWhile (· != '.')
  let wholeDigits ← decimalDigits whole
  let fraction ← match mantissa.drop whole.length with
    | '.' :: ds => digitGroups isDigit ds
    | _ => some []
  let exponent ← match unsigned.drop mantissa.length with
    | _ :: ds => exponent? ds
    | [] => some 0
  if mantissa.length = unsigned.length ∧ whole.length = mantissa.length then none
  return roundsToFinite (ofDigits 10 (wholeDigits ++ fraction)) (exponent - fraction.length)

end TwinCopy.Toml
