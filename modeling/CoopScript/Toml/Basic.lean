/-! Documents of settings in the TOML format, and the rules by which headers and keys build
their tables. -/

namespace CoopScript

namespace Toml

/-- How a table came to be, which decides what may be added to it later. -/
inductive TableOrigin where
  /-- Only named on the way to another table. -/
  | implicit
  /-- Made by a dotted key. -/
  | dotted
  /-- Made by a header of its own. -/
  | header
  deriving DecidableEq

inductive Node where
  | text (s : String)
  | integer (i : Int)
  | float
  | boolean (b : Bool)
  | datetime
  | array (items : List Node)
  /-- A table in braces, which is complete where it stands. -/
  | inlineTable (entries : List (String × Node))
  | table (origin : TableOrigin) (entries : List (String × Node))
  /-- Tables that headers in double brackets add one after another, last first. -/
  | tables (elements : List (List (String × Node)))

abbrev Entries := List (String × Node)

namespace Entries

def put (entries : Entries) (key : String) (node : Node) : Entries :=
  if entries.any (·.1 == key) then entries.map fun (k, n) => (k, if k == key then node else n)
  else entries ++ [(key, node)]

/-- Adds a value under a dotted key. Tables that a header made cannot be reached, and a key
that is taken is an error. -/
def insert (entries : Entries) (key : String) (path : List String) (value : Node) :
    Option Entries :=
  match path with
  | [] => if (entries.lookup key).isSome then none else some (put entries key value)
  | next :: path =>
    match entries.lookup key with
    | none => (insert [] next path value).map fun inner => put entries key (.table .dotted inner)
    | some (.table .header _) => none
    | some (.table origin inner) =>
      (insert inner next path value).map fun inner => put entries key (.table origin inner)
    | some _ => none

/-- Changes the table that a header path leads to. Missing tables on the way are made, and an
array of tables stands for its last element. -/
def update (entries : Entries) (path : List String) (change : Entries → Option Entries) :
    Option Entries :=
  match path with
  | [] => change entries
  | key :: path =>
    match entries.lookup key with
    | none => (update [] path change).map fun inner => put entries key (.table .implicit inner)
    | some (.table origin inner) =>
      (update inner path change).map fun inner => put entries key (.table origin inner)
    | some (.tables (last :: earlier)) =>
      (update last path change).map fun last => put entries key (.tables (last :: earlier))
    | some _ => none

/-- Opens the table of a header. One that exists already must have been named in passing
only. -/
def openTable (key : String) (entries : Entries) : Option Entries :=
  match entries.lookup key with
  | none => some (put entries key (.table .header []))
  | some (.table .implicit inner) => some (put entries key (.table .header inner))
  | some _ => none

/-- Opens the next element of an array of tables. -/
def openElement (key : String) (entries : Entries) : Option Entries :=
  match entries.lookup key with
  | none => some (put entries key (.tables [[]]))
  | some (.tables elements) => some (put entries key (.tables ([] :: elements)))
  | some _ => none

end Entries

end Toml

end CoopScript
