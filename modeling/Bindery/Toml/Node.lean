import Bindery.Toml.Value

/-!
# Tables under construction

While a document is read, its tables remember how they came about, because that decides whether a
later header or key may add to them. A table takes its place where it is first mentioned.
-/

namespace Bindery.Toml

/-- How a table came about. -/
inductive Origin where
  /-- it was named on the way to a table with a header -/
  | implied
  /-- it was named on the way to a key -/
  | dotted
  /-- it has a header, or is the document -/
  | headed
deriving DecidableEq, Repr

/-- What stands at a key while the document is read. -/
inductive Node where
  /-- a finished value; a table written between braces is one too -/
  | leaf (value : Value)
  | table (origin : Origin) (entries : List (String × Node))
  /-- the tables of which each has a header in double brackets -/
  | tables (items : List (List (String × Node)))
deriving Inhabited

/-- The entries of a table under construction. -/
abbrev Entries := List (String × Node)

mutual

def Node.value : Node → Value
  | .leaf value => value
  | .table _ entries => .table (entryValues entries)
  | .tables items => .array (itemValues items)

def entryValues : List (String × Node) → Table
  | [] => []
  | entry :: rest => entryValue entry :: entryValues rest

def entryValue : String × Node → String × Value
  | (key, node) => (key, node.value)

/-- The values of the tables of a list. -/
def itemValues : List (List (String × Node)) → List Value
  | [] => []
  | entries :: rest => .table (entryValues entries) :: itemValues rest

end

/-- Changes what stands at a key; a new key comes last. -/
def alter (key : String) (change : Option Node → Option Node) : Entries → Option Entries
  | [] => (change none).map fun node => [(key, node)]
  | (other, node) :: rest =>
      if other = key then (change (some node)).map fun node => (other, node) :: rest
      else (alter key change rest).map ((other, node) :: ·)

/-- Changes the table that a path leads to. On the way, tables are made where there are none; a list
of tables is entered at its last one. A path of a key does not enter a table that has a header. -/
def within (dotted : Bool) (change : Origin → Entries → Option Entries) :
    (path : List String) → Origin → Entries → Option Entries
  | [], origin, entries => change origin entries
  | key :: path, _, entries =>
      let enter : Option Node → Option Node
        | none =>
            let origin := if dotted then .dotted else .implied
            (within dotted change path origin []).map (.table origin)
        | some (.table origin inner) =>
            if dotted && origin = .headed then none
            else (within dotted change path origin inner).map (.table origin)
        | some (.tables items) =>
            match items.getLast? with
            | none => none
            | some last =>
                (within dotted change path .headed last).map fun last =>
                  .tables (items.dropLast ++ [last])
        | some (.leaf _) => none
      alter key enter entries

/-- Adds an entry at a key that does not exist yet. -/
def addEntry (key : String) (node : Node) (entries : Entries) : Option Entries :=
  let enter : Option Node → Option Node
    | none => some node
    | some _ => none
  alter key enter entries

/-- Adds a value at a dotted key. The table it goes into was made by dotted keys exactly if the key
has more than one part. -/
def addValue (path : List String) (key : String) (value : Value) (entries : Entries) :
    Option Entries :=
  let dotted := !path.isEmpty
  let enter (origin : Origin) (entries : Entries) : Option Entries :=
    if (origin = .dotted) = dotted then addEntry key (.leaf value) entries else none
  within true enter path .headed entries

def addTable (path : List String) (key : String) (entries : Entries) : Option Entries :=
  let enter : Option Node → Option Node
    | none => some (.table .headed [])
    | some (.table .implied inner) => some (.table .headed inner)
    | some _ => none
  within false (fun _ => alter key enter) path .headed entries

/-- Adds a table to a list of tables. -/
def addListedTable (path : List String) (key : String) (entries : Entries) : Option Entries :=
  let enter : Option Node → Option Node
    | none => some (.tables [[]])
    | some (.tables items) => some (.tables (items ++ [[]]))
    | some _ => none
  within false (fun _ => alter key enter) path .headed entries

end Bindery.Toml
