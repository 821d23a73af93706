/-
  The data of a TOML document, and how its tables are put together.

  A document is a list of lines, each of which adds to a tree of tables: a key with a value, a header
  that opens a table, or one that adds a table to an array.  Tables may be reached before they are
  opened, but opened only once, and a table written in braces takes nothing more.  `Node` is a table
  under construction and remembers how it came to be; `Node.value` is the finished value.

  Main statement: what was put under a key is found there (`find?_put_self`).
-/

namespace Famicom.Toml

/-- A value. -/
inductive Value where
  | string (s : String)
  /-- An integer.  One whose text does not stand for a number is still a value, of no use to anyone who
      asks for it. -/
  | integer (n : Option Int)
  /-- A float, of which only is kept whether it is within the range of a double. -/
  | float (inRange : Bool)
  | boolean (b : Bool)
  /-- A date, a time of day, or both, of which nothing is kept. -/
  | moment
  | array (items : List Value)
  | table (entries : List (String × Value))
  deriving Inhabited

/-- How a table came to be. -/
inductive Origin where
  /-- It lies on the way to a table that was opened. -/
  | passed
  /-- It lies on the way to a dotted key. -/
  | dotted
  /-- It was opened by its own header. -/
  | opened
  deriving DecidableEq, Repr

/-- A part of a document under construction. -/
inductive Node where
  /-- A value to which nothing can be added. -/
  | closed (v : Value)
  | table (origin : Origin) (entries : List (String × Node))
  /-- An array of tables; lines are added to the last. -/
  | tables (before : List Value) (last : List (String × Node))
  deriving Inhabited

/-- The entries of a table under construction, in order. -/
abbrev Entries := List (String × Node)

mutual

/-- The finished value. -/
def Node.value : Node → Value
  | .closed v => v
  | .table _ entries => .table (entriesValue entries)
  | .tables before last => .array (before ++ [.table (entriesValue last)])

/-- The finished entries of a table. -/
def entriesValue : List (String × Node) → List (String × Value)
  | [] => []
  | (key, node) :: rest => (key, node.value) :: entriesValue rest

end

namespace Entries

/-- What stands under a key. -/
def find? (key : String) : Entries → Option Node
  | [] => none
  | (k, node) :: rest => if k = key then some node else find? key rest

/-- Puts a node under a key, in the place of the one that stands there. -/
def put (key : String) (node : Node) : Entries → Entries
  | [] => [(key, node)]
  | (k, n) :: rest => if k = key then (key, node) :: rest else (k, n) :: put key node rest

theorem find?_put_self (key : String) (node : Node) (t : Entries) :
    find? key (put key node t) = some node := by
  induction t with
  | nil => simp [put, find?]
  | cons e rest ih =>
    obtain ⟨k, n⟩ := e
    by_cases h : k = key <;> simp [put, find?, h, ih]

end Entries

/-- Adds to the entries of a node: those of a table, or of the last table of an array. -/
def Node.extend (f : Entries → Option Entries) : Node → Option Node
  | .closed _ => none
  | .table origin entries => (f entries).map (.table origin)
  | .tables before last => (f last).map (.tables before)

namespace Entries

/-- Adds to the table at the end of a path of tables that are there. -/
def extendAt (f : Entries → Option Entries) : List String → Entries → Option Entries
  | [], t => f t
  | key :: path, t => do
    let node ← (← t.find? key).extend (extendAt f path)
    return t.put key node

/-- Follows a header to the table that holds its last key.  Tables that are not there are added. -/
def onHeader (f : String → Entries → Option Entries) : List String → Entries → Option Entries
  | [], _ => none
  | [key], t => f key t
  | key :: path, t => do
    let node ← ((t.find? key).getD (.table .passed [])).extend (onHeader f path)
    return t.put key node

/-- Opens a table.  It may have been passed before, but not opened. -/
def openTable : List String → Entries → Option Entries :=
  onHeader fun key t =>
    match t.find? key with
    | none => some (t.put key (.table .opened []))
    | some (.table .passed entries) => some (t.put key (.table .opened entries))
    | some _ => none

/-- Adds a table to an array of tables. -/
def openElement : List String → Entries → Option Entries :=
  onHeader fun key t =>
    match t.find? key with
    | none => some (t.put key (.tables [] []))
    | some (.tables before last) =>
      some (t.put key (.tables (before ++ [.table (entriesValue last)]) []))
    | some _ => none

/-- Whether a dotted key may lead through a node, the table that takes the value being next or not. -/
def dottedThrough (isNext : Bool) : Node → Bool
  | .closed _ => false
  | .table .opened _ => false
  | .table .passed _ => !isNext
  | .table .dotted _ => true
  | .tables _ _ => !isNext

/-- Sets a value under a dotted key.  There must be none so far. -/
def assign (v : Value) : List String → Entries → Option Entries
  | [], _ => none
  | [key], t => if (t.find? key).isSome then none else some (t.put key (.closed v))
  | key :: path, t => do
    let node := (t.find? key).getD (.table .dotted [])
    if dottedThrough (path.length = 1) node then
      let node ← node.extend (assign v path)
      return t.put key node
    else none

end Entries

end Famicom.Toml
