/-!
# Configuration documents

The values of a TOML document.  Texts, truth values and whole numbers are read; fractions and
moments of time are kept as they were written, because nothing here computes with them.

A document is written in pieces: headers open tables and arrays of tables, and keys with dots reach
into tables that may not exist yet.  Which of this is allowed depends on how a table came about, so
tables remember that (`TableForm`), and arrays remember whether they were written item by item.  The
three operations `declare`, `append` and `assign` build up a document; each fails where the document
would say something twice.
-/

namespace MemoAudit.Toml

/-- How a table came about: between braces, on the way to some other table, or by being named. -/
inductive TableForm where
  | inline
  | implied
  | declared
  deriving DecidableEq, Repr, Inhabited

inductive Value where
  | text (value : String)
  | boolean (value : Bool)
  | integer (value : Int)
  | float (literal : String)
  | moment (literal : String)
  /-- An array, between brackets unless it is built up of tables with headers of their own. -/
  | array (ofTables : Bool) (items : List Value)
  | table (form : TableForm) (entries : List (String × Value))
  deriving Repr, Inhabited

/-- The entries of a table, in the order in which they were written. -/
abbrev Table := List (String × Value)

/-- A key: the names that lead to a value from the outside in. -/
abbrev Key := List String

namespace Table

/-- A table with a new value under a name, in the place of the old one or at the end. -/
def set (entries : Table) (name : String) (value : Value) : Table :=
  match entries with
  | [] => [(name, value)]
  | (other, old) :: rest =>
    if other = name then (name, value) :: rest else (other, old) :: set rest name value

/-- Changes the entries of the table that a key leads to.  Tables on the way are made where there
are none, and an array of tables stands for its last table. -/
def reach (change : Table → Option Table) : Table → Key → Option Table
  | entries, [] => change entries
  | entries, name :: rest =>
    match entries.lookup name with
    | none => do
      let inner ← reach change [] rest
      return entries.set name (.table .implied inner)
    | some (.table .inline _) => none
    | some (.table form inner) => do
      let inner ← reach change inner rest
      return entries.set name (.table form inner)
    | some (.array true items) =>
      match items.getLast? with
      | some (.table form inner) => do
        let inner ← reach change inner rest
        return entries.set name (.array true (items.dropLast ++ [.table form inner]))
      | _ => none
    | some _ => none

/-- Changes the table that holds the last name of a key. -/
def reachLast (change : String → Table → Option Table) (entries : Table) (key : Key) :
    Option Table :=
  match key.getLast? with
  | none => none
  | some name => reach (change name) entries key.dropLast

/-- Names a table by a header; it must not have been named before. -/
def declare : Table → Key → Option Table :=
  reachLast fun name entries =>
    match entries.lookup name with
    | none => some (entries.set name (.table .declared []))
    | some (.table .implied inner) => some (entries.set name (.table .declared inner))
    | some _ => none

/-- Adds a table to an array of tables by a header. -/
def append : Table → Key → Option Table :=
  reachLast fun name entries =>
    match entries.lookup name with
    | none => some (entries.set name (.array true [.table .declared []]))
    | some (.array true items) =>
      some (entries.set name (.array true (items ++ [.table .declared []])))
    | some _ => none

/-- Lets a table that was only reached so far count as named. -/
def settle : Table → Key → Option Table :=
  reachLast fun name entries =>
    match entries.lookup name with
    | some (.table .implied inner) => some (entries.set name (.table .declared inner))
    | _ => some entries

/-- Gives a value to a key with dots; the tables on the way must not have been named by headers. -/
def assign (value : Value) : Table → Key → Option Table
  | _, [] => none
  | entries, [name] =>
    match entries.lookup name with
    | none => some (entries.set name value)
    | some _ => none
  | entries, name :: next :: rest =>
    match entries.lookup name with
    | none => do
      let inner ← assign value [] (next :: rest)
      return entries.set name (.table .implied inner)
    | some (.table .implied inner) => do
      let inner ← assign value inner (next :: rest)
      return entries.set name (.table .implied inner)
    | some _ => none

end Table

/-- The proper beginnings of a key, which name the tables on the way to it. -/
def Key.steps (key : Key) : List Key :=
  (List.range (key.length - 1)).map fun n => key.take (n + 1)

end MemoAudit.Toml
