/-
  What a program asks of a TOML library.

  A `Library` writes documents and reads texts; how, is its own affair.  The documents that are written are
  plain: values under names, and then tables of such values (`Document`).

  What can be relied on is `Library.Faithful`: a plain document is written unless one of its numbers is too
  large, and the text, with the lines of any of its keys taken out (`eraseKeys`), is read as the document
  without these keys (`Document.erase`), in whatever order (`Document.SaidBy`).  The largest number is that
  of the library; for one that keeps to what TOML asks for it is that of 64 bits with a sign.
-/
import Famicom.Toml.Quoted

namespace Famicom.Toml

/-! ## Documents -/

/-- A value that is written: a text or a whole number. -/
inductive Scalar where
  | text (s : String)
  | whole (n : Nat)
  deriving DecidableEq, Repr

namespace Scalar

/-- The value as it is read. -/
def value : Scalar → Value
  | text s => .string s
  | whole n => .integer (some n)

/-- Whether the value is no number above the given one. -/
def atMost (largest : Nat) : Scalar → Bool
  | text _ => true
  | whole n => n ≤ largest

end Scalar

/-- A document that is written: values under names, and then tables of such values. -/
structure Document where
  fields : List (String × Scalar)
  tables : List (String × List (String × Scalar))
  deriving DecidableEq, Repr

/-- A value under its name, as it is read. -/
def entry (e : String × Scalar) : String × Value := (e.1, e.2.value)

/-- Whether a key is kept when some are removed: a key of a table, or one that is in none.  A table that is
    removed keeps no key. -/
def keeps (removed : List String → Bool) (table : Option String) (key : String) : Bool :=
  match table with
  | none => !removed [key]
  | some t => !removed [t] && !removed [t, key]

namespace Document

/-- Every value of a document, under its own name. -/
def scalars (d : Document) : List (String × Scalar) := d.fields ++ d.tables.flatMap Prod.snd

/-- Whether no number of a document is above the given one. -/
def atMost (largest : Nat) (d : Document) : Bool := d.scalars.all (·.2.atMost largest)

/-- What is left of a document without the keys that are removed. -/
def erase (removed : List String → Bool) (d : Document) : Document where
  fields := d.fields.filter (keeps removed none ·.1)
  tables := (d.tables.filter (keeps removed none ·.1)).map fun t =>
    (t.1, t.2.filter (keeps removed (some t.1) ·.1))

/-- Tables that say what these do, each in an order of its own. -/
def TablesSaidBy : List (String × List (String × Scalar)) → List (String × Value) → Prop
  | [], tables => tables = []
  | t :: ts, tables => ∃ entries rest,
      entries.Perm (t.2.map entry) ∧ TablesSaidBy ts rest ∧ tables = (t.1, .table entries) :: rest

/-- What is read says what the document does, in any order. -/
def SaidBy (d : Document) (read : List (String × Value)) : Prop :=
  ∃ tables, TablesSaidBy d.tables tables ∧ read.Perm (d.fields.map entry ++ tables)

end Document

/-! ## Plain documents -/

/-- A character that needs no escape. -/
def isPlain (c : Char) : Bool := isText c && c ≠ '"' && c ≠ '\\'

/-- A name without quotes. -/
def IsBareKey (name : String) : Prop := name.toList ≠ [] ∧ name.toList.all isBare = true

instance (name : String) : Decidable (IsBareKey name) := inferInstanceAs (Decidable (_ ∧ _))

/-- A value that is written on one line and without escapes. -/
def Scalar.IsPlain : Scalar → Prop
  | text s => s.toList ≠ [] ∧ s.toList.all isPlain = true
  | whole _ => True

/-- A document with names that need no quotes, each given once, and with values that need no escapes. -/
structure Document.IsPlain (d : Document) : Prop where
  nodup : (d.fields.map Prod.fst ++ d.tables.map Prod.fst).Nodup
  nodup_table : ∀ t ∈ d.tables, (t.2.map Prod.fst).Nodup
  bare_table : ∀ t ∈ d.tables, IsBareKey t.1
  bare : ∀ e ∈ d.scalars, IsBareKey e.1
  plain : ∀ e ∈ d.scalars, e.2.IsPlain

/-! ## Lines -/

/-- Lines of a table, or of none, without those of the keys that are removed.  A line in brackets opens a
    table; any other that is not empty begins with the name of a key. -/
def eraseLines (removed : List String → Bool) : Option String → List (List Char) → List (List Char)
  | _, [] => []
  | table, [] :: rest => [] :: eraseLines removed table rest
  | table, (c :: cs) :: rest =>
    if c = '[' then
      let name := String.ofList (cs.takeWhile isBare)
      if keeps removed none name then (c :: cs) :: eraseLines removed (some name) rest
      else eraseLines removed (some name) rest
    else if keeps removed table (String.ofList ((c :: cs).takeWhile isBare)) then
      (c :: cs) :: eraseLines removed table rest
    else eraseLines removed table rest

/-- A text without the lines of the keys that are removed.  The header of a table goes with its lines. -/
def eraseKeys (removed : List String → Bool) (text : String) : String :=
  .ofList (['\n'].intercalate (eraseLines removed none (text.toList.splitOn '\n')))

/-! ## Libraries -/

/-- A TOML library. -/
structure Library where
  /-- The text of a document, if it can be written. -/
  write? : Document → Option String
  /-- What a text says, if it is one of a document. -/
  read? : String → Option (List (String × Value))

/-- A library that renders plain documents faithfully, with numbers up to the given one. -/
structure Library.Faithful (lib : Library) (largest : Nat) : Prop where
  /-- A document is refused only for the size of its numbers. -/
  writes_iff : ∀ d : Document, d.IsPlain → ((lib.write? d).isSome = true ↔ d.atMost largest = true)
  /-- What is written is read as what it says, and line by line so is what is left of it. -/
  reads : ∀ (d : Document) (text : String), d.IsPlain → lib.write? d = some text →
    ∀ removed, ∃ read, lib.read? (eraseKeys removed text) = some read ∧ (d.erase removed).SaidBy read

end Famicom.Toml
