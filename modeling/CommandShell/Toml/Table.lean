import CommandShell.Toml.Value

/-!
# `CommandShell.Toml.Table` — how the tables of a document come together

The tables of a document are defined piece by piece: by headers, by dotted keys, and by headers of
deeper tables, which imply those around them. A table is defined by a header at most once; one that
dotted keys have made takes more keys from dotted keys of the same section alone; and what a single
value defines is closed.

## Contents
- `Node`, a place in a document that is not complete yet, and `Node.toValue`.
- `Node.modifyAt`, a change at the end of a path.
- `Node.insertPair`, `Node.defineTable` and `Node.appendTable`.
-/

namespace CommandShell
namespace Toml

/-- How a table has come into being. -/
inductive TableOrigin where
  /-- By a header, or as the document itself. -/
  | defined
  /-- By the header of a table inside it. -/
  | implied
  /-- By a dotted key. -/
  | dotted
deriving DecidableEq, Repr

/-- A place in a document. -/
inductive Node where
  /-- A value, to which nothing can be added. -/
  | closed (v : Value)
  | table (origin : TableOrigin) (entries : List (String × Node))
  /-- The tables of an array that headers define one by one, the last one first. -/
  | tables (items : List Node)

namespace Node

mutual

/-- The value of a place. -/
def toValue : Node → Value
  | closed v => v
  | table _ entries => .table (entryValues entries)
  | tables items => .array (itemValues items).reverse

def entryValues : List (String × Node) → List (String × Value)
  | [] => []
  | (key, node) :: rest => (key, node.toValue) :: entryValues rest

def itemValues : List Node → List Value
  | [] => []
  | node :: rest => node.toValue :: itemValues rest

end

/-- The entries with the one of a key replaced, or added at the end. -/
def put (key : String) (node : Node) : List (String × Node) → List (String × Node)
  | [] => [(key, node)]
  | entry :: rest => if entry.1 = key then (key, node) :: rest else entry :: put key node rest

/-- Changes the table at the end of a path. Tables missing on the way are made with the origin `new`;
    the last table of an array stands for the array. A dotted key does not enter a table that a header
    has defined. -/
def modifyAt (new : TableOrigin) (change : Node → Option Node) : List String → Node → Option Node
  | [], node => change node
  | key :: path, .table origin entries => do
      let child ← match entries.lookup key with
        | none => modifyAt new change path (.table new [])
        | some (.closed _) => none
        | some (.table inner children) =>
            if new = .dotted ∧ inner = .defined then none
            else modifyAt new change path (.table inner children)
        | some (.tables []) => none
        | some (.tables (last :: earlier)) =>
            (modifyAt new change path last).map fun item => .tables (item :: earlier)
      return .table origin (put key child entries)
  | _ :: _, _ => none

/-- Adds a key to a table, which must not have it. A key behind a dotted path belongs to a table that
    dotted keys have made, and any other to a table that they have not. -/
def addKey (isDotted : Bool) (key : String) (v : Value) : Node → Option Node
  | .table origin entries =>
      if (origin = .dotted) ≠ isDotted ∨ (entries.lookup key).isSome then none
      else some (.table origin (put key (.closed v) entries))
  | _ => none

/-- The parts of a path in front of the last one, and the last one. -/
def splitPath (path : List String) : Option (List String × String) :=
  path.getLast?.map fun last => (path.dropLast, last)

/-- Adds a key, which may be dotted, to the table at the end of a path of headers. -/
def insertPair (header path : List String) (v : Value) (root : Node) : Option Node := do
  let (front, key) ← splitPath path
  root.modifyAt .implied (·.modifyAt .dotted (addKey (!front.isEmpty) key v) front) header

/-- Changes what a header stands for; the change sees what has been there. -/
def modifyHeader (change : Option Node → Option Node) (header : List String) (root : Node) :
    Option Node := do
  let (front, key) ← splitPath header
  let atTable : Node → Option Node
    | .table origin entries => do
        return .table origin (put key (← change (entries.lookup key)) entries)
    | _ => none
  root.modifyAt .implied atTable front

/-- Defines the table of a header, which may so far have been implied at most. -/
def defineTable : List String → Node → Option Node :=
  modifyHeader fun
    | none => some (.table .defined [])
    | some (.table .implied entries) => some (.table .defined entries)
    | some _ => none

/-- Adds a table to the array of a header. -/
def appendTable : List String → Node → Option Node :=
  modifyHeader fun
    | none => some (.tables [.table .defined []])
    | some (.tables items) => some (.tables (.table .defined [] :: items))
    | some _ => none

end Node
end Toml
end CommandShell
