/-
  Writing plain documents, a key to a line.

  With the reader of `Famicom.Toml.Document` this makes up a library (`library`) that the program can run
  with.  What is said about settings is said of any faithful library.
-/
import Famicom.Toml.Document
import Famicom.Toml.Library

namespace Famicom.Toml

/-- A value as it is written. -/
def Scalar.written : Scalar → List Char
  | text s => '"' :: (s.toList ++ ['"'])
  | whole n => Nat.toDigits 10 n

/-- The line that gives a value to a name. -/
def pairLine (e : String × Scalar) : List Char := e.1.toList ++ ' ' :: '=' :: ' ' :: e.2.written

/-- The line that opens a table. -/
def headerLine (name : String) : List Char := '[' :: (name.toList ++ [']'])

namespace Document

/-- The lines of a document.  There is an empty one in front of each table. -/
def lines (d : Document) : List (List Char) :=
  d.fields.map pairLine ++ d.tables.flatMap fun t => [] :: headerLine t.1 :: t.2.map pairLine

/-- A document in writing. -/
def text (d : Document) : String := .ofList (d.lines.flatMap (· ++ ['\n']))

end Document

/-- The library that writes numbers up to the given one. -/
def library (largest : Nat) : Library where
  write? d := if d.atMost largest then some d.text else none
  read? := document?

end Famicom.Toml
