/-
  Quoted strings and keys.

  There are two kinds of quotes, with and without escapes, and of each a form over several lines, with
  three quotes at both ends.  A newline right after the opening three does not count, and a backslash
  at the end of a line takes the line's end and all blanks after it away.
-/
import Famicom.Toml.Scalar

namespace Famicom.Toml

/-- A blank within a line. -/
def isBlank (c : Char) : Bool := c = ' ' || c = '\t'

/-- A character that may stand for itself within a line: a tab, or no control character. -/
def isText (c : Char) : Bool := c = '\t' || (' ' ≤ c && c ≠ '\x7F')

/-- What follows a newline at the front of a text, if there is one. -/
def newline? : List Char → Option (List Char)
  | '\n' :: rest => some rest
  | '\r' :: '\n' :: rest => some rest
  | _ => none

/-- The character of a code point given by exactly so many hexadecimal digits. -/
def codePoint? (count : Nat) (cs : List Char) : Option Char := do
  let digits ← (cs.take count).mapM (digit? 16)
  let n := digits.foldl (fun n d => n * 16 + d) 0
  if digits.length = count ∧ n.isValidChar then some (Char.ofNat n) else none

/-- An escape, without its backslash: the character it stands for, and how many it is written with. -/
def escape? : List Char → Option (Char × Nat)
  | [] => none
  | c :: rest =>
    match c with
    | 'b' => some ('\x08', 1)
    | 'e' => some ('\x1B', 1)
    | 't' => some ('\t', 1)
    | 'n' => some ('\n', 1)
    | 'f' => some ('\x0C', 1)
    | 'r' => some ('\r', 1)
    | '"' => some ('"', 1)
    | '\\' => some ('\\', 1)
    | 'x' => (codePoint? 2 rest).map fun c => (c, 3)
    | 'u' => (codePoint? 4 rest).map fun c => (c, 5)
    | 'U' => (codePoint? 8 rest).map fun c => (c, 9)
    | _ => none

/-- The text of a string on one line, after its opening quote, and what follows the closing one. -/
def lineString? (quote : Char) (cs : List Char) : Option (List Char × List Char) :=
  match cs with
  | [] => none
  | c :: rest =>
    if c = quote then some ([], rest)
    else if c = '\\' ∧ quote = '"' then
      match escape? rest with
      | none => none
      | some (e, n) => (lineString? quote (rest.drop n)).map fun (text, rest) => (e :: text, rest)
    else if isText c then (lineString? quote rest).map fun (text, rest) => (c :: text, rest)
    else none
termination_by cs.length
decreasing_by all_goals simp only [List.length_cons, List.length_drop]; omega

/-- Skips blanks and newlines. -/
def skipBlankLines : List Char → List Char
  | [] => []
  | '\r' :: '\n' :: rest => skipBlankLines rest
  | c :: rest => if isBlank c ∨ c = '\n' then skipBlankLines rest else c :: rest

theorem length_skipBlankLines_le (cs : List Char) : (skipBlankLines cs).length ≤ cs.length := by
  fun_induction skipBlankLines cs <;> simp_all <;> omega

/-- The rest of a text after a backslash at the end of a line. -/
def joinLine? (cs : List Char) : Option (List Char) :=
  (newline? (cs.dropWhile isBlank)).map fun _ => skipBlankLines cs

theorem length_le_of_joinLine? {cs rest : List Char} (h : joinLine? cs = some rest) :
    rest.length ≤ cs.length := by
  unfold joinLine? at h
  cases hn : newline? (cs.dropWhile isBlank) with
  | none => simp [hn] at h
  | some r =>
    simp only [hn, Option.map_some, Option.some.injEq] at h
    exact h ▸ length_skipBlankLines_le cs

/-- The quotes, up to two, that stand right before the closing three, and what follows. -/
def lastQuotes (quote : Char) : List Char → List Char × List Char
  | a :: b :: rest =>
    if a = quote then if b = quote then ([a, b], rest) else ([a], b :: rest) else ([], a :: b :: rest)
  | [a] => if a = quote then ([a], []) else ([], [a])
  | [] => ([], [])

/-- The text of a string over several lines, after its opening quotes and the newline there, and what
    follows the closing ones. -/
def blockString? (quote : Char) (cs : List Char) : Option (List Char × List Char) :=
  match cs with
  | [] => none
  | c :: rest =>
    if c = quote ∧ rest.take 2 = [quote, quote] then some (lastQuotes quote (rest.drop 2))
    else if c = '\\' ∧ quote = '"' then
      match h : joinLine? rest with
      | some rest' =>
        have := length_le_of_joinLine? h
        blockString? quote rest'
      | none =>
        match escape? rest with
        | none => none
        | some (e, n) => (blockString? quote (rest.drop n)).map fun (text, rest) => (e :: text, rest)
    else if c = '\r' ∧ rest.head? = some '\n' then blockString? quote rest
    else if isText c ∨ c = '\n' then
      (blockString? quote rest).map fun (text, rest) => (c :: text, rest)
    else none
termination_by cs.length
decreasing_by all_goals simp_all only [List.length_cons, List.length_drop]; omega

/-- A quoted string, after its first quote, and what follows it. -/
def quoted? (quote : Char) (cs : List Char) : Option (String × List Char) :=
  let read :=
    if cs.take 2 = [quote, quote] then
      let cs := cs.drop 2
      blockString? quote ((newline? cs).getD cs)
    else lineString? quote cs
  read.map fun (text, rest) => (String.ofList text, rest)

/-! ## Keys -/

/-- A character of a key without quotes. -/
def isBare (c : Char) : Bool :=
  isDigit c || ('a' ≤ c && c ≤ 'z') || ('A' ≤ c && c ≤ 'Z') || c = '_' || c = '-'

/-- One part of a key, and what follows it. -/
def simpleKey? (cs : List Char) : Option (String × List Char) :=
  match cs with
  | '"' :: rest => (lineString? '"' rest).map fun (text, rest) => (String.ofList text, rest)
  | '\'' :: rest => (lineString? '\'' rest).map fun (text, rest) => (String.ofList text, rest)
  | cs =>
    let bare := cs.takeWhile isBare
    if bare.isEmpty then none else some (String.ofList bare, cs.dropWhile isBare)

/-- A key of at most so many parts, divided by dots, and what follows it and the blanks after it. -/
def dottedKey? : Nat → List Char → Option (List String × List Char)
  | 0, _ => none
  | bound + 1, cs => do
    let (part, rest) ← simpleKey? (cs.dropWhile isBlank)
    match rest.dropWhile isBlank with
    | '.' :: rest => (dottedKey? bound rest).map fun (parts, rest) => (part :: parts, rest)
    | rest => some ([part], rest)

/-- How many parts a key may have, and how deep brackets and braces may nest. -/
def depthLimit : Nat := 80

/-- A key, and what follows it and the blanks after it. -/
def key? : List Char → Option (List String × List Char) := dottedKey? depthLimit

end Famicom.Toml
