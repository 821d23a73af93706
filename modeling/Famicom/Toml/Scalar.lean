/-
  Values without quotes or brackets: truth values, numbers, dates and times.

  Each function takes the whole text of a value and says what it stands for, if it is well-formed.
  Digits may be grouped by single underscores between them; leading zeros are not allowed in front of
  other digits; integers of another base carry no sign.  An integer is read in two steps: here its text
  is looked at only as far as is needed to tell it from other values, so that it may turn out to stand
  for no number.
-/
import Famicom.Toml.Value

namespace Famicom.Toml

/-- The value of a digit in a base up to 16. -/
def digit? (base : Nat) (c : Char) : Option Nat :=
  let n :=
    if '0' ≤ c ∧ c ≤ '9' then c.toNat - '0'.toNat
    else if 'a' ≤ c ∧ c ≤ 'f' then c.toNat - 'a'.toNat + 10
    else if 'A' ≤ c ∧ c ≤ 'F' then c.toNat - 'A'.toNat + 10
    else 16
  if n < base then some n else none

/-- Whether a character is a decimal digit. -/
def isDigit (c : Char) : Bool := '0' ≤ c && c ≤ '9'

/-- Whether a character is a hexadecimal digit. -/
def isHexDigit (c : Char) : Bool := (digit? 16 c).isSome

/-- The number that digits stand for; there must be one. -/
def number? (base : Nat) (cs : List Char) : Option Nat :=
  if cs.isEmpty then none else cs.foldlM (fun n c => (digit? base c).map (n * base + ·)) 0

/-- A sign, if there is one, and what follows it. -/
def splitSign : List Char → Option Bool × List Char
  | '+' :: rest => (some false, rest)
  | '-' :: rest => (some true, rest)
  | cs => (none, cs)

/-- Whether every underscore stands between two digits, `before` being the character in front. -/
def isGrouped (isDigit : Char → Bool) (before : Char) : List Char → Bool
  | [] => before ≠ '_'
  | c :: rest =>
    (if c = '_' then isDigit before else before ≠ '_' || isDigit c) && isGrouped isDigit c rest

/-- The character in front of a number, as far as underscores are concerned: a sign does for a digit,
    and nothing else does. -/
def beforeNumber (sign : Option Bool) : Char := if sign.isSome then '0' else ' '

/-- A text without its underscores. -/
def ungrouped (cs : List Char) : List Char := cs.filter (· ≠ '_')

/-- An integer of a base other than ten, after its mark.  There may be no digits at all, in which case
    it stands for nothing. -/
def basedInteger? (base : Nat) (cs : List Char) : Option Value :=
  if (ungrouped cs).all (fun c => (digit? base c).isSome) && isGrouped isHexDigit ' ' cs then
    some (.integer ((number? base (ungrouped cs)).map Int.ofNat))
  else none

/-- A decimal integer.  Once there is an underscore, anything may follow that cannot be part of a float,
    as long as there are hexadecimal digits around underscores; what is not made up of decimal digits
    stands for nothing. -/
def decimalInteger? (cs : List Char) : Option Value :=
  let (sign, text) := splitSign cs
  let shaped :=
    match text.dropWhile isDigit with
    | [] => text = ['0'] || (!text.isEmpty && text.head? ≠ some '0')
    | '_' :: rest =>
      text.head? ≠ some '0' && !rest.any (['.', 'e', 'E'].contains ·) &&
        isGrouped isHexDigit (beforeNumber sign) text
    | _ => false
  if shaped then
    some (.integer ((number? 10 (ungrouped text)).map fun n =>
      if sign = some true then -Int.ofNat n else Int.ofNat n))
  else none

/-- An integer. -/
def integer? : List Char → Option Value
  | '0' :: 'x' :: rest => basedInteger? 16 rest
  | '0' :: 'o' :: rest => basedInteger? 8 rest
  | '0' :: 'b' :: rest => basedInteger? 2 rest
  | cs => decimalInteger? cs

/-- The least power of two and a half step below it from which on a number rounds to infinity. -/
def doubleBound : Nat := (1 <<< 1024) - (1 <<< 970)

/-- Whether `m * 10 ^ e` is within the range of a double.  Numbers far from the bound are told by the
    count of their digits. -/
def inDoubleRange (m : Nat) (e : Int) : Bool :=
  let size := Int.ofNat (Nat.toDigits 10 m).length + e
  if m = 0 ∨ size < 300 then true
  else if 400 < size then false
  else if 0 ≤ e then m * Nat.pow 10 e.toNat < doubleBound
  else m < doubleBound * Nat.pow 10 (-e).toNat

/-- An exponent with its mark; none at all is an exponent of zero. -/
def exponent? : List Char → Option Int
  | [] => some 0
  | c :: rest =>
    if c = 'e' ∨ c = 'E' then
      match splitSign rest with
      | (some true, rest) => (number? 10 (ungrouped rest)).map fun n => -Int.ofNat n
      | (_, rest) => (number? 10 (ungrouped rest)).map Int.ofNat
    else none

/-- A float: true if it is within the range of a double.  It has a fraction or an exponent. -/
def float? (cs : List Char) : Option Bool :=
  let (sign, text) := splitSign cs
  if text = ['i', 'n', 'f'] ∨ text = ['n', 'a', 'n'] then some true
  else if isGrouped isDigit (beforeNumber sign) text then do
    let isPart := fun c => isDigit c || c = '_'
    let whole := ungrouped (text.takeWhile isPart)
    if text.head? = some '0' ∧ 1 < whole.length then none
    else
      let m ← number? 10 whole
      match text.dropWhile isPart with
      | [] => none
      | '.' :: rest =>
        let fraction := ungrouped (rest.takeWhile isPart)
        let value ← number? 10 fraction
        let e ← exponent? (rest.dropWhile isPart)
        return inDoubleRange (m * Nat.pow 10 fraction.length + value) (e - fraction.length)
      | rest => return inDoubleRange m (← exponent? rest)
  else none

/-! ## Dates and times -/

/-- A number of exactly so many digits at the front of a text. -/
def fixedDigits? (count : Nat) (cs : List Char) : Option (Nat × List Char) :=
  let front := cs.take count
  if front.length = count ∧ front.all isDigit then
    (number? 10 front).map fun n => (n, cs.drop count)
  else none

/-- A character at the front of a text. -/
def skipChar? (c : Char) : List Char → Option (List Char)
  | d :: rest => if d = c then some rest else none
  | [] => none

/-- Days of a month. -/
def daysIn (year month : Nat) : Nat :=
  if month = 2 then if year % 4 = 0 ∧ (year % 100 ≠ 0 ∨ year % 400 = 0) then 29 else 28
  else if month = 4 ∨ month = 6 ∨ month = 9 ∨ month = 11 then 30
  else 31

/-- A date at the front of a text, and what follows it. -/
def date? (cs : List Char) : Option (List Char) := do
  let (year, cs) ← fixedDigits? 4 cs
  let (month, cs) ← fixedDigits? 2 (← skipChar? '-' cs)
  let (day, cs) ← fixedDigits? 2 (← skipChar? '-' cs)
  if 1 ≤ month ∧ month ≤ 12 ∧ 1 ≤ day ∧ day ≤ daysIn year month then some cs else none

/-- What follows a fraction of a second at the front of a text, if there is one. -/
def skipFraction? : List Char → Option (List Char)
  | '.' :: rest =>
    if (rest.head?.map isDigit).getD false then some (rest.dropWhile isDigit) else none
  | cs => some cs

/-- A time of day at the front of a text, and what follows it.  It may do without seconds, and the last
    minute may have a leap second. -/
def time? (cs : List Char) : Option (List Char) := do
  let (hour, cs) ← fixedDigits? 2 cs
  let (minute, cs) ← fixedDigits? 2 (← skipChar? ':' cs)
  if hour ≤ 23 ∧ minute ≤ 59 then
    match cs with
    | ':' :: cs =>
      let (second, cs) ← fixedDigits? 2 cs
      if second ≤ 60 then skipFraction? cs else none
    | cs => some cs
  else none

/-- An offset from universal time, which makes up the whole text. -/
def isOffset : List Char → Bool
  | ['Z'] | ['z'] => true
  | cs =>
    let parts : Option (Nat × Nat × List Char) := do
      let (_, cs) ← match splitSign cs with
        | (none, _) => none
        | signed => some signed
      let (hours, cs) ← fixedDigits? 2 cs
      let (minutes, cs) ← fixedDigits? 2 (← skipChar? ':' cs)
      return (hours, minutes, cs)
    match parts with
    | some (hours, minutes, []) => hours ≤ 23 && minutes ≤ 59
    | _ => false

/-- Whether a text is a date, a time of day, or both. -/
def isMoment (cs : List Char) : Bool :=
  match date? cs with
  | some [] => true
  | some (c :: rest) =>
    (c = 'T' || c = 't' || c = ' ') &&
      match time? rest with
      | some [] => true
      | some offset => isOffset offset
      | none => false
  | none => time? cs == some []

/-- What the text of a value without quotes or brackets stands for. -/
def scalar? (cs : List Char) : Option Value :=
  if cs = ['t', 'r', 'u', 'e'] then some (.boolean true)
  else if cs = ['f', 'a', 'l', 's', 'e'] then some (.boolean false)
  else if isMoment cs then some .moment
  else match integer? cs with
    | some v => some v
    | none => (float? cs).map .float

end Famicom.Toml
