import Mathlib.Data.List.Basic
import Mathlib.Data.List.TakeDrop
import Mathlib.Data.List.TakeWhile
import TwinCopy.Toml.Document

/-!
# Flat documents

A flat document has at most one assignment on each line, of a number or a string, and no headers.
Its layout may vary: blanks around every part, comments and empty lines, two kinds of line ends, a
byte order mark in front, keys and strings in either quotes, signs and underscores in numbers.
`Flat` is the type of these layouts, `Flat.text` gives the characters and `Flat.entries` the
assignments. `readsFlat_entriesOf` proves that reading the characters gives the assignments.

A reader of a part is given the part and everything that follows. So the lemma about it is stated
for the part in front of a text at which it stops; for the text after a value this is `Tail.stops`.
-/

namespace TwinCopy.Toml

/-! ## Runs of characters -/

/-- Characters that satisfy `p`. -/
structure Run (p : Char → Bool) where
  text : List Char
  kind : text.all p = true

/-- The next character, if any, does not satisfy `p`. -/
def Stops (p : Char → Bool) (rest : List Char) : Prop :=
  ∀ c ∈ rest.head?, p c = false

section

variable {p : Char → Bool} {cs rest : List Char}

lemma Run.mem_kind (r : Run p) : ∀ c ∈ r.text, p c = true :=
  List.all_eq_true.1 r.kind

lemma takeWhile_append (hcs : ∀ c ∈ cs, p c = true) (h : Stops p rest) :
    (cs ++ rest).takeWhile p = cs := by
  rw [List.takeWhile_append_of_pos hcs]
  cases rest with
  | nil => simp
  | cons c rest => simp [h c rfl]

lemma dropWhile_append (hcs : ∀ c ∈ cs, p c = true) (h : Stops p rest) :
    (cs ++ rest).dropWhile p = rest := by
  rw [List.dropWhile_append_of_pos hcs]
  cases rest with
  | nil => rfl
  | cons c rest => simp [h c rfl]

lemma span_append (hcs : ∀ c ∈ cs, p c = true) (h : Stops p rest) :
    (cs ++ rest).span p = (cs, rest) := by
  rw [List.span_eq_takeWhile_dropWhile, takeWhile_append hcs h, dropWhile_append hcs h]

/-- Characters are distinct if one satisfies `p` and the other does not. -/
lemma ne_of_kind {c d : Char} (hc : p c = true) (hd : p d = false) : c ≠ d := by
  rintro rfl
  rw [hc] at hd
  cases hd

lemma eq_of_isBlank {c : Char} (h : isBlank c = true) : c = ' ' ∨ c = '\t' := by
  simpa [isBlank] using h

/-- If `p` excludes blanks, a character that satisfies it is no blank. -/
lemma isBlank_eq_false {c : Char} (hc : p c = true) (hspace : p ' ' = false)
    (htab : p '\t' = false) : isBlank c = false :=
  Bool.eq_false_iff.2 fun hblank =>
    (eq_of_isBlank hblank).elim (ne_of_kind hc hspace) (ne_of_kind hc htab)

end

/-! ## The end of a line -/

/-- Spaces and tabs. -/
abbrev Blanks := Run isBlank

def noBlanks : Blanks :=
  ⟨[], rfl⟩

def oneSpace : Blanks :=
  ⟨[' '], rfl⟩

/-- Blanks and an optional comment, up to the end of the line. -/
structure Tail where
  blanks : Blanks
  comment : Option (Run isPrintable)

/-- The empty tail. -/
def Tail.empty : Tail :=
  ⟨noBlanks, none⟩

def Tail.text (t : Tail) : List Char :=
  t.blanks.text ++ t.comment.elim [] ('#' :: ·.text)

/-- The end of a line, with what follows it. -/
inductive Ends : List Char → List Char → Prop where
  | last : Ends [] []
  | feed (rest : List Char) : Ends ('\n' :: rest) rest
  | returnFeed (rest : List Char) : Ends ('\r' :: '\n' :: rest) rest

/-- The first characters of a tail or of the end of its line. -/
def separators : List Char :=
  [' ', '\t', '#', '\n', '\r']

namespace Ends

variable {stop rest : List Char}

lemma stops (h : Ends stop rest) {p : Char → Bool} (hfeed : p '\n' = false)
    (hreturn : p '\r' = false) : Stops p stop := by
  cases h with
  | last => exact nofun
  | feed => rintro _ ⟨⟩; exact hfeed
  | returnFeed => rintro _ ⟨⟩; exact hreturn

end Ends

namespace Tail

variable {stop rest : List Char} (t : Tail)

/-- The blanks of a tail are skipped. -/
lemma skipBlanks_text (h : Ends stop rest) (bs : Blanks) :
    skipBlanks (bs.text ++ (t.text ++ stop)) = t.comment.elim [] ('#' :: ·.text) ++ stop := by
  have hstops : Stops isBlank (t.comment.elim [] ('#' :: ·.text) ++ stop) := by
    cases t.comment with
    | none => exact h.stops rfl rfl
    | some r => rintro _ ⟨⟩; rfl
  have hblank : ∀ c ∈ bs.text ++ t.blanks.text, isBlank c = true := by
    intro c hc
    exact (List.mem_append.1 hc).elim (bs.mem_kind c) (t.blanks.mem_kind c)
  rw [skipBlanks, text, List.append_assoc, ← List.append_assoc, dropWhile_append hblank hstops]

/-- A comment is skipped. -/
lemma skipComment_text (h : Ends stop rest) :
    skipComment (t.comment.elim [] ('#' :: ·.text) ++ stop) = some stop := by
  cases t.comment with
  | none => cases h <;> rfl
  | some r =>
    have hkind : ∀ c ∈ r.text, (c != '\n' && c != '\r') = true := by
      intro c hc
      rw [Bool.and_eq_true, bne_iff_ne, bne_iff_ne]
      exact ⟨ne_of_kind (r.mem_kind c hc) rfl, ne_of_kind (r.mem_kind c hc) rfl⟩
    have hspan := span_append hkind (h.stops rfl rfl)
    change skipComment ('#' :: (r.text ++ stop)) = some stop
    simp only [skipComment, hspan, r.kind, if_true]

lemma endLine_text (h : Ends stop rest) : endLine (t.text ++ stop) = some rest := by
  have hskip : skipBlanks (t.text ++ stop) = t.comment.elim [] ('#' :: ·.text) ++ stop :=
    t.skipBlanks_text h noBlanks
  rw [endLine, hskip, t.skipComment_text h]
  cases h <;> rfl

/-- The next character, if any, is a separator. -/
lemma head_mem_separators (h : Ends stop rest) : ∀ c ∈ (t.text ++ stop).head?, c ∈ separators := by
  obtain ⟨⟨blanks, hblanks⟩, comment⟩ := t
  intro c hc
  cases blanks with
  | cons b blanks =>
    obtain rfl : b = c := Option.some.inj hc
    rcases eq_of_isBlank (Bool.and_eq_true_iff.1 hblanks).1 with rfl | rfl <;> decide
  | nil =>
    cases comment with
    | some r => cases hc; decide
    | none =>
      cases h with
      | last => cases hc
      | feed | returnFeed => cases hc; decide

lemma stops (h : Ends stop rest) {p : Char → Bool} (hp : separators.any p = false) :
    Stops p (t.text ++ stop) :=
  fun c hc => Bool.eq_false_iff.2 (List.any_eq_false.1 hp c (t.head_mem_separators h c hc))

/-- So is the one after a blank. -/
lemma snd_mem_separators (h : Ends stop rest) {c : Char} {more : List Char}
    (heq : t.text ++ stop = ' ' :: c :: more) : c ∈ separators := by
  obtain ⟨⟨blanks, hblanks⟩, comment⟩ := t
  cases blanks with
  | cons b blanks =>
    have htail : text ⟨⟨blanks, (Bool.and_eq_true_iff.1 hblanks).2⟩, comment⟩ ++ stop =
        c :: more := (List.cons.inj heq).2
    exact head_mem_separators _ h c (by rw [htail]; rfl)
  | nil =>
    cases comment with
    | some r => cases (List.cons.inj heq).1
    | none => cases h <;> cases heq

end Tail

/-! ## Strings -/

/-- A character that stands for itself between double quotes. -/
def isBasicChar (c : Char) : Bool :=
  isPrintable c && c != '"' && c != '\\'

/-- A character that may stand between single quotes. -/
def isLiteralChar (c : Char) : Bool :=
  isPrintable c && c != '\''

/-- A string on one line without escapes. -/
inductive Quoted where
  | basic (content : Run isBasicChar)
  | literal (content : Run isLiteralChar)

namespace Quoted

def content : Quoted → List Char
  | basic r => r.text
  | literal r => r.text

def quote : Quoted → Char
  | basic _ => '"'
  | literal _ => '\''

def text (q : Quoted) : List Char :=
  q.quote :: (q.content ++ [q.quote])

lemma ne_quote (q : Quoted) : ∀ c ∈ q.content, c ≠ q.quote := by
  intro c hc
  cases q with
  | basic r => exact ne_of_kind (r.mem_kind c hc) rfl
  | literal r => exact ne_of_kind (r.mem_kind c hc) rfl

lemma basicBody_append {cs : List Char} (hcs : ∀ c ∈ cs, isBasicChar c = true) (rest : List Char) :
    basicBody (cs ++ '"' :: rest) = some (cs, rest) := by
  induction cs with
  | nil => rfl
  | cons c cs ih =>
    have hc := hcs c List.mem_cons_self
    simp only [isBasicChar, Bool.and_eq_true, bne_iff_ne] at hc
    obtain ⟨⟨hprintable, hquote⟩, hescape⟩ := hc
    rw [List.cons_append, basicBody.eq_def]
    split <;> simp_all [prepend]

lemma literalBody_append {cs : List Char} (hcs : ∀ c ∈ cs, isLiteralChar c = true)
    (rest : List Char) : literalBody (cs ++ '\'' :: rest) = some (cs, rest) := by
  induction cs with
  | nil => rfl
  | cons c cs ih =>
    have hc := hcs c List.mem_cons_self
    simp only [isLiteralChar, Bool.and_eq_true, bne_iff_ne] at hc
    rw [List.cons_append, literalBody.eq_def]
    split <;> simp_all [prepend]

lemma quotedLine_text (q : Quoted) (rest : List Char) :
    quotedLine (q.text ++ rest) = some (q.content, rest) := by
  rw [text, List.cons_append, List.append_assoc]
  cases q with
  | basic r => exact basicBody_append r.mem_kind rest
  | literal r => exact literalBody_append r.mem_kind rest

end Quoted

/-! ## Keys -/

/-- One part of a key. -/
inductive Key where
  | bare (name : Run isBareKeyChar) (nonempty : name.text ≠ [])
  | quoted (name : Quoted)

namespace Key

def name : Key → List Char
  | bare r _ => r.text
  | quoted q => q.content

def text : Key → List Char
  | bare r _ => r.text
  | quoted q => q.text

/-- The first characters of a key. -/
def isFirst (c : Char) : Bool :=
  isBareKeyChar c || c == '"' || c == '\''

lemma exists_first (k : Key) : ∃ c more, k.text = c :: more ∧ isFirst c = true := by
  cases k with
  | bare r hr =>
    obtain ⟨c, more, heq⟩ := List.exists_cons_of_ne_nil hr
    have hc := r.mem_kind c (heq ▸ List.mem_cons_self)
    exact ⟨c, more, heq, by simp [isFirst, hc]⟩
  | quoted q => exact ⟨q.quote, q.content ++ [q.quote], rfl, by cases q <;> rfl⟩

lemma simpleKey_text (k : Key) {rest : List Char} (h : Stops isBareKeyChar rest) :
    simpleKey (k.text ++ rest) = some (k.name, rest) := by
  cases k with
  | bare r hr =>
    obtain ⟨c, more, heq⟩ := List.exists_cons_of_ne_nil hr
    have hc := r.mem_kind c (heq ▸ List.mem_cons_self)
    have hquote : ¬(c = '"' ∨ c = '\'') := not_or.2 ⟨ne_of_kind hc rfl, ne_of_kind hc rfl⟩
    have hspan := span_append r.mem_kind h
    rw [text, name, heq] at *
    rw [List.cons_append] at hspan ⊢
    rw [simpleKey, if_neg hquote, hspan]
  | quoted q =>
    have hquote : q.quote = '"' ∨ q.quote = '\'' := by cases q <;> simp [Quoted.quote]
    have hline := q.quotedLine_text rest
    rw [Quoted.text, List.cons_append] at hline
    rw [text, Quoted.text, List.cons_append, simpleKey, if_pos hquote, hline, name]

end Key

/-! ## Numbers -/

inductive Sign where
  | plus
  | minus
  deriving DecidableEq

def Sign.char : Sign → Char
  | plus => '+'
  | minus => '-'

/-- A decimal digit. -/
abbrev Digit := { c : Char // isDigit c = true }

/-- A decimal integer: an optional sign, and digits, each of which but the first may follow an
underscore. A leading zero is the only digit. -/
structure Numeral where
  sign : Option Sign
  first : Digit
  more : List (Bool × Digit)
  plain : first.1 = '0' → more = []

namespace Numeral

/-- The digits after the first one, with their underscores. -/
def grouped (more : List (Bool × Digit)) : List Char :=
  more.flatMap fun x => if x.1 then ['_', x.2.1] else [x.2.1]

def text (n : Numeral) : List Char :=
  (n.sign.map Sign.char).toList ++ n.first.1 :: grouped n.more

def digits (n : Numeral) : List Char :=
  n.first.1 :: n.more.map (·.2.1)

def magnitude (n : Numeral) : Nat :=
  Nat.ofDigitChars 10 n.digits 0

def value (n : Numeral) : Int :=
  if n.sign = some .minus then -n.magnitude else n.magnitude

lemma ofDigits_eq {ds : List Char} (hds : ∀ c ∈ ds, isDigit c = true) :
    ofDigits 10 ds = Nat.ofDigitChars 10 ds 0 := by
  rw [ofDigits, Nat.ofDigitChars]
  refine List.foldl_ext _ _ _ fun n c hc => ?_
  rw [digitValue, if_pos (hds c hc)]

lemma digitGroups_grouped (d : Digit) (more : List (Bool × Digit)) :
    digitGroups isDigit (d.1 :: grouped more) = some (d.1 :: more.map (·.2.1)) := by
  induction more generalizing d with
  | nil => simp [grouped, digitGroups, d.2]
  | cons x more ih =>
    obtain ⟨underscore, e⟩ := x
    have he : e.1 ≠ '_' := ne_of_kind e.2 rfl
    have hrest := ih e
    cases underscore with
    | true =>
      change digitGroups isDigit (d.1 :: '_' :: e.1 :: grouped more) = _
      rw [digitGroups, if_pos d.2, hrest]
      rfl
    | false =>
      change digitGroups isDigit (d.1 :: e.1 :: grouped more) = _
      rw [digitGroups, if_pos d.2, hrest]
      · rfl
      · simp
      · intro rest heq
        exact he (List.cons.inj heq).1

lemma decimalDigits_grouped (n : Numeral) :
    decimalDigits (n.first.1 :: grouped n.more) = some n.digits := by
  rw [decimalDigits, digitGroups_grouped]
  split
  · next heq =>
    obtain ⟨hfirst, hmore⟩ := List.cons.inj (Option.some.inj heq)
    rw [n.plain hfirst] at hmore
    cases hmore
  · rfl

/-- After the sign of a numeral there is a digit. -/
lemma splitSign_text (n : Numeral) :
    splitSign n.text = (decide (n.sign = some .minus), n.first.1 :: grouped n.more) := by
  obtain ⟨sign, ⟨c, hc⟩, more, hplain⟩ := n
  cases sign with
  | some s => cases s <;> rfl
  | none =>
    change splitSign (c :: grouped more) = _
    rw [splitSign.eq_def]
    split
    · next heq => exact absurd (List.cons.inj heq).1 (ne_of_kind hc rfl)
    · next heq => exact absurd (List.cons.inj heq).1 (ne_of_kind hc rfl)
    · rfl

/-- A leading zero is the only digit, so that a numeral is not read in another base. -/
lemma text_ne (n : Numeral) (c : Char) (rest : List Char) : n.text ≠ '0' :: c :: rest := by
  obtain ⟨sign, d, more, hplain⟩ := n
  intro heq
  cases sign with
  | some s => cases s <;> exact absurd (List.cons.inj heq).1 (by decide)
  | none =>
    obtain ⟨hfirst, hmore⟩ := List.cons.inj heq
    obtain rfl : more = [] := hplain hfirst
    cases hmore

lemma integer?_text (n : Numeral) : integer? n.text = some n.value := by
  have hdigits : ∀ c ∈ n.digits, isDigit c = true := by
    intro c hc
    rcases List.mem_cons.1 hc with rfl | hc
    · exact n.first.2
    · obtain ⟨x, -, rfl⟩ := List.mem_map.1 hc
      exact x.2.2
  have hvalue : signed (decide (n.sign = some .minus)) n.magnitude = n.value := by
    simp only [signed, value, decide_eq_true_eq]
  rw [integer?.eq_def]
  split
  · next heq => exact absurd heq (n.text_ne _ _)
  · next heq => exact absurd heq (n.text_ne _ _)
  · next heq => exact absurd heq (n.text_ne _ _)
  · rw [splitSign_text]
    simp only [decimalDigits_grouped, Option.map_some, ofDigits_eq hdigits, ← hvalue, magnitude]

/-- The first characters of a numeral. -/
def isFirst (c : Char) : Bool :=
  isDigit c || c == '+' || c == '-'

lemma exists_first (n : Numeral) : ∃ c more, n.text = c :: more ∧ isFirst c = true := by
  obtain ⟨sign, d, more, hplain⟩ := n
  cases sign with
  | some s => exact ⟨s.char, _, rfl, by cases s <;> rfl⟩
  | none => exact ⟨d.1, _, rfl, by simp [isFirst, d.2]⟩

lemma isWordChar_text (n : Numeral) : ∀ c ∈ n.text, isWordChar c = true := by
  have hdigit (d : Digit) : isWordChar d.1 = true := by simp [isWordChar, isBareKeyChar, d.2]
  intro c hc
  rcases List.mem_append.1 hc with hc | hc
  · obtain ⟨s, -, rfl⟩ := by simpa using hc
    cases s <;> rfl
  rcases List.mem_cons.1 hc with rfl | hc
  · exact hdigit n.first
  · obtain ⟨⟨underscore, d⟩, -, hc⟩ := List.mem_flatMap.1 hc
    cases underscore with
    | true =>
      rcases List.mem_cons.1 hc with rfl | hc
      · rfl
      · obtain rfl := List.mem_singleton.1 hc
        exact hdigit d
    | false =>
      obtain rfl := List.mem_singleton.1 hc
      exact hdigit d

lemma scalar?_text (n : Numeral) : scalar? n.text = some (.integer n.value) := by
  obtain ⟨c, more, heq, hfirst⟩ := n.exists_first
  rw [scalar?.eq_def]
  split
  · next hword => exact absurd (List.cons.inj (heq ▸ hword)).1 (ne_of_kind hfirst rfl)
  · next hword => exact absurd (List.cons.inj (heq ▸ hword)).1 (ne_of_kind hfirst rfl)
  · rw [n.integer?_text]

lemma eq_nil_of_toDigits {n : Nat} {cs : List Char} (h : Nat.toDigits 10 n = '0' :: cs) :
    cs = [] := by
  induction n using Nat.strongRecOn generalizing cs with
  | ind n ih =>
    rw [Nat.toDigits_eq_if (by omega)] at h
    split at h
    · exact (List.cons.inj h).2.symm
    · next hten =>
      obtain ⟨c, more, hdigits⟩ :=
        List.exists_cons_of_ne_nil (Nat.toDigits_ne_nil (n := n / 10) (b := 10))
      rw [hdigits] at h
      obtain rfl : c = '0' := (List.cons.inj h).1
      have hmore : more = [] := ih (n / 10) (by omega) hdigits
      have hzero : n / 10 = 0 := by
        rw [← Nat.ofDigitChars_ten_toDigits (n := n / 10), hdigits, hmore]
        rfl
      omega

lemma exists_grouped {cs : List Char} (h : ∀ c ∈ cs, isDigit c = true) :
    ∃ more, grouped more = cs ∧ more.map (·.2.1) = cs := by
  induction cs with
  | nil => exact ⟨[], rfl, rfl⟩
  | cons c cs ih =>
    obtain ⟨more, hgrouped, hmap⟩ := ih fun d hd => h d (List.mem_cons_of_mem c hd)
    exact ⟨(false, ⟨c, h c List.mem_cons_self⟩) :: more, congrArg (c :: ·) hgrouped,
      congrArg (c :: ·) hmap⟩

/-- Every number has a numeral. -/
lemma exists_numeral (n : Nat) : ∃ m : Numeral, m.text = Nat.toDigits 10 n ∧ m.value = n := by
  have hdigit : ∀ c ∈ Nat.toDigits 10 n, isDigit c = true :=
    fun c hc => Nat.isDigit_of_mem_toDigits (by omega) (by omega) hc
  obtain ⟨c, cs, hdigits⟩ := List.exists_cons_of_ne_nil (Nat.toDigits_ne_nil (n := n) (b := 10))
  rw [hdigits] at hdigit
  obtain ⟨more, hgrouped, hmap⟩ := exists_grouped fun d hd => hdigit d (List.mem_cons_of_mem c hd)
  have hplain : c = '0' → more = [] := by
    rintro rfl
    rw [eq_nil_of_toDigits hdigits] at hmap
    exact List.map_eq_nil_iff.1 hmap
  refine ⟨⟨none, ⟨c, hdigit c List.mem_cons_self⟩, more, hplain⟩, ?_, ?_⟩
  · exact (congrArg (c :: ·) hgrouped).trans hdigits.symm
  · rw [value, if_neg nofun, magnitude, Numeral.digits, hmap, ← hdigits,
      Nat.ofDigitChars_ten_toDigits]

end Numeral

/-! ## Values -/

/-- A number or a string. -/
inductive Scalar where
  | numeral (n : Numeral)
  | quoted (q : Quoted)

namespace Scalar

def text : Scalar → List Char
  | numeral n => n.text
  | quoted q => q.text

def value : Scalar → Value
  | numeral n => .integer n.value
  | quoted q => .text q.content

variable {stop rest : List Char} {t : Tail}

lemma scalarText_numeral (h : Ends stop rest) (n : Numeral) :
    scalarText (n.text ++ (t.text ++ stop)) = (n.text, t.text ++ stop) := by
  have hstops : Stops isWordChar (t.text ++ stop) := t.stops h rfl
  rw [scalarText, span_append n.isWordChar_text hstops]
  simp only
  split
  · next c more heq =>
    -- no time follows, as a line continues with blanks and a comment only
    have hdigits : separators.any isDigit = false := rfl
    have hdigit := List.any_eq_false.1 hdigits c (t.snd_mem_separators h heq)
    rw [if_neg (by simp [hdigit])]
  · rfl

lemma quoted_text (h : Ends stop rest) (q : Quoted) :
    Toml.quoted (q.text ++ (t.text ++ stop)) = some (q.content, t.text ++ stop) := by
  have hstops : Stops (· == q.quote) (t.text ++ stop) := by
    cases q with
    | basic r => exact t.stops h (p := (· == '"')) rfl
    | literal r => exact t.stops h (p := (· == '\'')) rfl
  -- so there are no three quotes in a row
  have hthree (c : Char) (more : List Char) : q.text ++ (t.text ++ stop) ≠ c :: c :: c :: more := by
    intro heq
    rw [Quoted.text, List.cons_append, List.append_assoc] at heq
    obtain ⟨rfl, hrest⟩ := List.cons.inj heq
    rcases hcontent : q.content with _ | ⟨d, content⟩
    · rw [hcontent] at hrest
      have hnext : (t.text ++ stop).head? = some q.quote :=
        congrArg List.head? (List.cons.inj hrest).2
      simpa using hstops _ hnext
    · rw [hcontent] at hrest
      exact q.ne_quote d (hcontent ▸ List.mem_cons_self) (List.cons.inj hrest).1
  rw [Toml.quoted.eq_def]
  split
  · next heq => exact absurd heq (hthree _ _)
  · next heq => exact absurd heq (hthree _ _)
  · exact q.quotedLine_text _

lemma value_text (h : Ends stop rest) (s : Scalar) :
    Toml.value maxNesting (s.text ++ (t.text ++ stop)) = some (s.value, t.text ++ stop) := by
  cases s with
  | numeral n =>
    obtain ⟨c, more, heq, hfirst⟩ := n.exists_first
    have hplain : plainValue (n.text ++ (t.text ++ stop)) =
        some (.integer n.value, t.text ++ stop) := by
      have hword := scalarText_numeral (t := t) h n
      rw [plainValue.eq_def]
      split
      · next hquote => exact absurd (List.cons.inj (heq ▸ hquote)).1 (ne_of_kind hfirst rfl)
      · next hquote => exact absurd (List.cons.inj (heq ▸ hquote)).1 (ne_of_kind hfirst rfl)
      · rw [hword]
        simp only [n.scalar?_text, Option.map_some]
    rw [maxNesting, Toml.value.eq_def]
    simp only [text, value]
    split
    · next hopen => exact absurd (List.cons.inj (heq ▸ hopen)).1 (ne_of_kind hfirst rfl)
    · next hopen => exact absurd (List.cons.inj (heq ▸ hopen)).1 (ne_of_kind hfirst rfl)
    · exact hplain
  | quoted q =>
    have hquoted := quoted_text (t := t) h q
    rw [text, value]
    cases q with
    | basic r =>
      change (Toml.quoted _).map _ = _
      rw [hquoted]
      rfl
    | literal r =>
      change (Toml.quoted _).map _ = _
      rw [hquoted]
      rfl

end Scalar

/-! ## Lines -/

/-- A key, an equals sign and a value, with blanks between them. -/
structure Assignment where
  key : Key
  before : Blanks
  after : Blanks
  value : Scalar

namespace Assignment

def text (a : Assignment) : List Char :=
  a.key.text ++ (a.before.text ++ '=' :: (a.after.text ++ a.value.text))

def entry (a : Assignment) : List Char × Value :=
  (a.key.name, a.value.value)

variable {stop rest : List Char} {t : Tail}

lemma keyPath_text (k : Key) (bs : Blanks) (more : List Char) :
    keyPath (k.text ++ (bs.text ++ '=' :: more)) = some ([k.name], '=' :: more) := by
  have hbare : Stops isBareKeyChar (bs.text ++ '=' :: more) := by
    obtain ⟨_ | ⟨b, blanks⟩, hblanks⟩ := bs
    · rintro _ ⟨⟩
      rfl
    · rintro _ ⟨⟩
      rcases eq_of_isBlank (Bool.and_eq_true_iff.1 hblanks).1 with rfl | rfl <;> decide
  have hskip : skipBlanks (bs.text ++ '=' :: more) = '=' :: more :=
    dropWhile_append bs.mem_kind (by rintro _ ⟨⟩; rfl)
  obtain ⟨c, key, heq, -⟩ := k.exists_first
  have hsimple := k.simpleKey_text hbare
  rw [heq, List.cons_append] at hsimple ⊢
  rw [keyPath, List.length_cons, keyParts, hsimple]
  simp [hskip]

lemma keyValue_text (h : Ends stop rest) (a : Assignment) :
    keyValue (Toml.value maxNesting) (a.text ++ (t.text ++ stop)) =
      some (([a.key.name], a.value.value), t.text ++ stop) := by
  have hassoc : a.text ++ (t.text ++ stop) = a.key.text ++
      (a.before.text ++ '=' :: (a.after.text ++ (a.value.text ++ (t.text ++ stop)))) := by
    simp [text]
  have hvalue : Stops isBlank (a.value.text ++ (t.text ++ stop)) := by
    cases a.value with
    | numeral n =>
      obtain ⟨c, more, heq, hfirst⟩ := n.exists_first
      rw [Scalar.text, heq]
      rintro _ ⟨⟩
      exact isBlank_eq_false hfirst rfl rfl
    | quoted q =>
      rintro _ ⟨⟩
      cases q <;> rfl
  have hskip : skipBlanks (a.after.text ++ (a.value.text ++ (t.text ++ stop))) =
      a.value.text ++ (t.text ++ stop) := dropWhile_append a.after.mem_kind hvalue
  rw [hassoc, keyValue, keyPath_text]
  simp [hskip, Scalar.value_text h]

end Assignment

/-- A line: an optional assignment, blanks and an optional comment. -/
structure Line where
  indent : Blanks
  assignment : Option Assignment
  tail : Tail

namespace Line

def text (l : Line) : List Char :=
  l.indent.text ++ (l.assignment.elim [] Assignment.text ++ l.tail.text)

def entry (l : Line) : Option (List Char × Value) :=
  l.assignment.map Assignment.entry

/-- The empty line. -/
def empty : Line :=
  ⟨noBlanks, none, .empty⟩

/-- An assignment with one space on each side of the equals sign. -/
def plain (key : Key) (value : Scalar) : Line :=
  ⟨noBlanks, some ⟨key, oneSpace, oneSpace, value⟩, .empty⟩

lemma text_plain (key : Key) (value : Scalar) :
    (plain key value).text = key.text ++ ([' ', '=', ' '] ++ value.text) := by
  simp [plain, text, Assignment.text, Tail.text, Tail.empty, noBlanks, oneSpace]

end Line

lemma addUnder_new {root : Entries} {key : List Char} (v : Value)
    (h : (root.lookup key).isNone = true) :
    addUnder [] [key] v root = some (root ++ [(key, v)]) := by
  simp [addUnder, descend, addPath, addKey, h]

section

variable {stop rest cs more : List Char} {c : Char} {header : List (List Char)} {root : Entries}

/-- A line without a key or a header is skipped. -/
lemma lines_skip (fuel : Nat) (hskip : skipBlanks cs = c :: more)
    (hc : c = '#' ∨ atLineEnd (c :: more) = true) (hend : endLine (c :: more) = some rest) :
    lines (fuel + 1) header root cs = lines fuel header root rest := by
  have hopen : c ≠ '[' := by
    rintro rfl
    simp [atLineEnd, newline?] at hc
  rw [lines.eq_def]
  simp only [hskip]
  split
  · next heq => cases heq
  · next heq => exact absurd (List.cons.inj heq).1 hopen
  · next heq => exact absurd (List.cons.inj heq).1 hopen
  · next heq =>
    cases heq
    rw [if_pos hc, hend]
    rfl

/-- A line that begins with a key adds its assignment. -/
lemma lines_assign (fuel : Nat) {path : List (List Char)} {v : Value} {tail : List Char}
    {added : Entries} (hskip : skipBlanks cs = c :: more) (hc : Key.isFirst c = true)
    (hread : keyValue (value maxNesting) (c :: more) = some ((path, v), tail))
    (hend : endLine tail = some rest) (hadd : addUnder header path v root = some added) :
    lines (fuel + 1) header root cs = lines fuel header added rest := by
  have hopen : c ≠ '[' := ne_of_kind hc rfl
  have hnoRoundEvents : ¬(c = '#' ∨ atLineEnd (c :: more) = true) := by
    rintro (hcomment | hend)
    · exact ne_of_kind hc rfl hcomment
    · unfold atLineEnd newline? at hend
      split at hend
      · next heq => exact ne_of_kind hc rfl (List.cons.inj heq).1
      · next heq => exact ne_of_kind hc rfl (List.cons.inj heq).1
      · simp at hend
  rw [lines.eq_def]
  simp only [hskip]
  split
  · next heq => cases heq
  · next heq => exact absurd (List.cons.inj heq).1 hopen
  · next heq => exact absurd (List.cons.inj heq).1 hopen
  · next heq =>
    cases heq
    rw [if_neg hnoRoundEvents, hread]
    simp [hend, hadd]

/-- A line is read as its assignment, unless there is nothing more to read. -/
lemma lines_line (fuel : Nat) (root : Entries) (l : Line) (h : Ends stop rest)
    (hsome : skipBlanks (l.text ++ stop) ≠ [])
    (hnew : ∀ e ∈ l.entry, (root.lookup e.1).isNone = true) :
    lines (fuel + 1) [] root (l.text ++ stop) = lines fuel [] (root ++ l.entry.toList) rest := by
  obtain ⟨indent, assignment, tail⟩ := l
  cases assignment with
  | none =>
    have hskip : skipBlanks (Line.text ⟨indent, none, tail⟩ ++ stop) =
        tail.comment.elim [] ('#' :: ·.text) ++ stop := by
      rw [← tail.skipBlanks_text h indent]
      simp [Line.text]
    have hend : endLine (tail.comment.elim [] ('#' :: ·.text) ++ stop) = some rest :=
      Tail.endLine_text ⟨noBlanks, tail.comment⟩ h
    rw [show Line.entry ⟨indent, none, tail⟩ = none from rfl, Option.toList_none, List.append_nil]
    -- a line without a comment may not be the last one, for then there is nothing more to read
    rw [hskip] at hsome
    rcases hcomment : tail.comment with _ | r
    · rw [hcomment] at hskip hend hsome
      cases h with
      | last => exact absurd rfl hsome
      | feed | returnFeed => exact lines_skip fuel hskip (.inr rfl) hend
    · rw [hcomment] at hskip hend
      exact lines_skip fuel hskip (.inl rfl) hend
  | some a =>
    obtain ⟨c, more, hkey, hfirst⟩ := a.key.exists_first
    have htext : Line.text ⟨indent, some a, tail⟩ ++ stop =
        indent.text ++ (a.text ++ (tail.text ++ stop)) := by
      simp [Line.text]
    have hcons : ∃ more', a.text ++ (tail.text ++ stop) = c :: more' := by
      rw [Assignment.text, hkey]
      exact ⟨_, rfl⟩
    obtain ⟨more', hcons⟩ := hcons
    have hskip : skipBlanks (Line.text ⟨indent, some a, tail⟩ ++ stop) = c :: more' := by
      rw [htext, hcons]
      refine dropWhile_append indent.mem_kind ?_
      rintro _ ⟨⟩
      exact isBlank_eq_false hfirst rfl rfl
    have hread := Assignment.keyValue_text (t := tail) h a
    rw [hcons] at hread
    exact lines_assign fuel hskip hfirst hread (tail.endLine_text h)
      (addUnder_new _ (hnew _ rfl))

end

/-! ## Documents -/

inductive Newline where
  | feed
  | returnFeed

def Newline.text : Newline → List Char
  | feed => ['\n']
  | returnFeed => ['\r', '\n']

/-- The characters of lines, the last of which has no line end. -/
def textOf (ls : List (Line × Newline)) (last : Line) : List Char :=
  (ls.flatMap fun x => x.1.text ++ x.2.text) ++ last.text

/-- The assignments of lines, in order. -/
def assigned (ls : List (Line × Newline)) (last : Line) : Entries :=
  (ls.map Prod.fst ++ [last]).filterMap Line.entry

lemma assigned_cons (l : Line) (e : Newline) (ls : List (Line × Newline)) (last : Line) :
    assigned ((l, e) :: ls) last = l.entry.toList ++ assigned ls last := by
  rw [assigned, List.map_cons, List.cons_append, List.filterMap_cons]
  cases l.entry <;> rfl

lemma ends_newline (e : Newline) (rest : List Char) : Ends (e.text ++ rest) rest := by
  cases e with
  | feed => exact .feed rest
  | returnFeed => exact .returnFeed rest

/-- A text with a character other than a blank does not consist of blanks. -/
lemma skipBlanks_ne_nil {cs : List Char} {c : Char} (hmem : c ∈ cs) (hc : isBlank c = false) :
    skipBlanks cs ≠ [] := by
  intro hnil
  have hblank := List.dropWhile_eq_nil_iff.1 hnil c hmem
  rw [hc] at hblank
  cases hblank

lemma lookup_isNone {root : Entries} {key : List Char} (h : key ∉ root.map Prod.fst) :
    (root.lookup key).isNone = true := by
  rw [Option.isNone_iff_eq_none, List.lookup_eq_none_iff]
  intro e he
  rw [bne_iff_ne]
  rintro rfl
  exact h (List.mem_map_of_mem he)

lemma Line.exists_mem_of_entry (l : Line) (h : l.entry ≠ none) :
    ∃ c ∈ l.text, isBlank c = false := by
  obtain ⟨indent, _ | a, tail⟩ := l
  · exact absurd rfl h
  · obtain ⟨c, more, hkey, hfirst⟩ := a.key.exists_first
    exact ⟨c, by simp [text, Assignment.text, hkey], isBlank_eq_false hfirst rfl rfl⟩

/-- Lines are read as their assignments. -/
lemma lines_textOf (ls : List (Line × Newline)) (last : Line) {root : Entries}
    (hdistinct : ((root ++ assigned ls last).map Prod.fst).Nodup) {fuel : Nat}
    (hfuel : (textOf ls last).length < fuel) :
    lines fuel [] root (textOf ls last) = some (root ++ assigned ls last) := by
  induction ls generalizing root fuel with
  | nil =>
    obtain _ | fuel := fuel
    · exact absurd hfuel (Nat.not_lt_zero _)
    have hassigned : assigned [] last = last.entry.toList := by
      rw [assigned, List.map_nil, List.nil_append, List.filterMap_cons]
      cases last.entry <;> rfl
    have htext : textOf [] last = last.text := rfl
    rw [hassigned] at hdistinct ⊢
    rw [htext] at hfuel ⊢
    by_cases hnil : skipBlanks last.text = []
    · have hentry : last.entry = none := by
        by_contra hsome
        obtain ⟨c, hmem, hc⟩ := last.exists_mem_of_entry hsome
        exact skipBlanks_ne_nil hmem hc hnil
      rw [lines.eq_def, hentry]
      simp [hnil]
    · have hline := lines_line fuel root last .last (by rwa [List.append_nil])
        fun e he => lookup_isNone fun hmem => by
          rw [Option.mem_def.1 he] at hdistinct
          rw [List.map_append] at hdistinct
          exact (List.nodup_append.1 hdistinct).2.2 _ hmem _ (by simp) rfl
      rw [List.append_nil] at hline
      rw [hline]
      -- something was read, so that fuel is left
      obtain _ | fuel := fuel
      · have hempty : last.text = [] := by simpa using hfuel
        exact absurd (congrArg skipBlanks hempty) hnil
      · rfl
  | cons x ls ih =>
    obtain ⟨l, e⟩ := x
    obtain _ | fuel := fuel
    · exact absurd hfuel (Nat.not_lt_zero _)
    have htext : textOf ((l, e) :: ls) last = l.text ++ (e.text ++ textOf ls last) := by
      simp [textOf]
    rw [assigned_cons, ← List.append_assoc] at hdistinct ⊢
    rw [htext] at hfuel ⊢
    have hmem : ∃ c ∈ e.text, isBlank c = false := by cases e <;> exact ⟨_, List.mem_cons_self, rfl⟩
    obtain ⟨c, hmem, hc⟩ := hmem
    rw [lines_line fuel root l (ends_newline e _) (skipBlanks_ne_nil (by simp [hmem]) hc)]
    · refine ih hdistinct ?_
      have hpos := List.length_pos_of_mem hmem
      simp only [List.length_append] at hfuel
      omega
    · intro x hx
      refine lookup_isNone fun hmem => ?_
      rw [Option.mem_def.1 hx, List.map_append, List.map_append] at hdistinct
      exact (List.nodup_append.1 (List.nodup_append.1 hdistinct).1).2.2 _ hmem _ (by simp) rfl

/-- A document of lines with distinct keys, and an optional byte order mark in front. -/
structure Flat where
  marked : Bool
  lines : List (Line × Newline)
  last : Line
  distinct : ((assigned lines last).map Prod.fst).Nodup

namespace Flat

def text (d : Flat) : List Char :=
  (if d.marked then ['\ufeff'] else []) ++ textOf d.lines d.last

def entries (d : Flat) : Entries :=
  assigned d.lines d.last

end Flat

/-- A reader that reads every flat document as its entries. -/
def ReadsFlat (read : EntryReader) : Prop :=
  ∀ d : Flat, read d.text = some d.entries

theorem readsFlat_entriesOf : ReadsFlat entriesOf := by
  intro d
  have hlines : Toml.lines ((textOf d.lines d.last).length + 1) [] [] (textOf d.lines d.last) =
      some d.entries := lines_textOf _ _ d.distinct (Nat.lt_succ_self _)
  unfold entriesOf Flat.text
  cases d.marked with
  | true => exact hlines
  | false =>
    rw [if_neg Bool.false_ne_true, List.nil_append]
    split
    · next heq =>
      -- lines do not begin with a byte order mark, as no text after one can be read
      rw [heq] at hlines
      cases hlines
    · exact hlines

end TwinCopy.Toml
