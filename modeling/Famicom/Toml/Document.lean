/-
  Reading a TOML document.

  A line holds a key with its value, a header, or nothing, and may end with a comment.  Arrays and tables
  in braces may run over several lines, with comments at their ends, and may have a comma after the last
  item; only a key stays on its line.  Brackets and braces nest at most `depthLimit` deep.  Every
  function that goes on within a value takes a bound on its steps, for which the length of the document
  is enough, since each step takes a character.
-/
import Famicom.Toml.Quoted

namespace Famicom.Toml

/-- A character that may be part of a value without quotes or brackets: one that divides nothing. -/
def isScalarChar (c : Char) : Bool :=
  !(['=', ',', '[', ']', '{', '}', ' ', '\t', '#', '\r', '\n'].contains c)

/-- A value without quotes or brackets, and what follows it.  A single blank may stand between a date
    and a time. -/
def scalarAt? (cs : List Char) : Option (Value × List Char) :=
  let text := cs.takeWhile isScalarChar
  let rest := cs.dropWhile isScalarChar
  let (text, rest) :=
    match rest with
    | ' ' :: c :: more =>
      if isDigit c ∧ date? text = some [] then
        (text ++ ' ' :: (c :: more).takeWhile isScalarChar, (c :: more).dropWhile isScalarChar)
      else (text, rest)
    | _ => (text, rest)
  (scalar? text).map fun v => (v, rest)

/-- What follows a comment, which begins at its mark and ends before a newline. -/
def skipComment? : List Char → Option (List Char)
  | [] => some []
  | c :: rest =>
    if isText c then skipComment? rest
    else if (newline? (c :: rest)).isSome then some (c :: rest) else none

/-- The end of a line: blanks and a comment.  What follows the newline, if there is one, or else
    nothing. -/
def endLine? (cs : List Char) : Option (List Char) := do
  let rest ← match cs.dropWhile isBlank with
    | '#' :: rest => skipComment? rest
    | rest => some rest
  if rest.isEmpty then some [] else newline? rest

/-- Skips blanks, comments and newlines within a value, being within a comment or not. -/
def skipLines? : Bool → List Char → Option (List Char)
  | _, [] => some []
  | _, '\n' :: rest => skipLines? false rest
  | _, '\r' :: '\n' :: rest => skipLines? false rest
  | true, c :: rest => if isText c then skipLines? true rest else none
  | false, '#' :: rest => skipLines? true rest
  | false, c :: rest => if isBlank c then skipLines? false rest else some (c :: rest)

mutual

/-- A value, and what follows it.  It may hold others nested up to `depth` deep. -/
def value? : Nat → Nat → List Char → Option (Value × List Char)
  | 0, _, _ => none
  | steps + 1, depth, cs =>
    match cs with
    | [] => none
    | c :: rest =>
      if c = '"' ∨ c = '\'' then (quoted? c rest).map fun (s, rest) => (.string s, rest)
      else if c = '[' then
        match depth with
        | 0 => none
        | depth + 1 => (items? steps depth rest).map fun (vs, rest) => (.array vs, rest)
      else if c = '{' then
        match depth with
        | 0 => none
        | depth + 1 =>
          (pairs? steps depth [] rest).map fun (t, rest) => (.table (entriesValue t), rest)
      else scalarAt? (c :: rest)

/-- The items of an array up to its bracket. -/
def items? : Nat → Nat → List Char → Option (List Value × List Char)
  | 0, _, _ => none
  | steps + 1, depth, cs => do
    match ← skipLines? false cs with
    | ']' :: rest => return ([], rest)
    | cs =>
      let (v, rest) ← value? steps depth cs
      match ← skipLines? false rest with
      | ',' :: rest =>
        let (vs, rest) ← items? steps depth rest
        return (v :: vs, rest)
      | ']' :: rest => return ([v], rest)
      | _ => none

/-- The pairs of a table in braces up to its brace. -/
def pairs? : Nat → Nat → Entries → List Char → Option (Entries × List Char)
  | 0, _, _, _ => none
  | steps + 1, depth, t, cs => do
    match ← skipLines? false cs with
    | '}' :: rest => return (t, rest)
    | cs =>
      let (path, rest) ← key? cs
      let rest ← skipChar? '=' (← skipLines? false rest)
      let (v, rest) ← value? steps depth (← skipLines? false rest)
      let t ← t.assign v path
      match ← skipLines? false rest with
      | ',' :: rest => pairs? steps depth t rest
      | '}' :: rest => return (t, rest)
      | _ => none

end

/-- A line: the path of the table it leaves open, and the tables with what it adds. -/
def line? (path : List String) (t : Entries) (cs : List Char) :
    Option (List String × Entries × List Char) :=
  match cs with
  | '[' :: '[' :: rest => do
    let (path, rest) ← key? rest
    let rest ← skipChar? ']' (← skipChar? ']' rest)
    return (path, ← t.openElement path, ← endLine? rest)
  | '[' :: rest => do
    let (path, rest) ← key? rest
    return (path, ← t.openTable path, ← endLine? (← skipChar? ']' rest))
  | cs => do
    let (key, rest) ← key? cs
    let rest ← skipChar? '=' rest
    let (v, rest) ← value? (rest.length + 1) depthLimit (rest.dropWhile isBlank)
    return (path, ← t.extendAt (Entries.assign v key) path, ← endLine? rest)

/-- The lines of a document. -/
def lines? : Nat → List String → Entries → List Char → Option Entries
  | 0, _, _, _ => none
  | steps + 1, path, t, cs =>
    match cs.dropWhile isBlank with
    | [] => some t
    | c :: rest =>
      if c = '#' ∨ c = '\n' ∨ c = '\r' then do lines? steps path t (← endLine? (c :: rest))
      else do
        let (path, t, rest) ← line? path t (c :: rest)
        lines? steps path t rest

/-- The table that a document stands for, if it is well-formed.  A byte order mark may come first. -/
def document? (s : String) : Option (List (String × Value)) :=
  let cs := match s.toList with
    | '\uFEFF' :: rest => rest
    | cs => cs
  (lines? (cs.length + 1) [] [] cs).map entriesValue

end Famicom.Toml
