import MessageCard.Toml

/-!
# Building TOML tables

A TOML document is a list of statements: assignments, and headers that say which table the next
assignments go to. Every key may be defined once, and a table may be opened by one header only; so
while a document is built each table knows how it came to be.
-/
namespace MessageCard

/-- How a table came to be. -/
inductive TomlTableKind where
  /-- On the way to a table that a header opened. -/
  | implicit
  /-- On the way to a value with a dotted key. -/
  | dotted
  /-- By a header of its own. -/
  | opened
  deriving DecidableEq

/-- A part of a document that is being built. -/
inductive TomlNode where
  | value (v : Toml)
  | table (kind : TomlTableKind) (entries : List (String × TomlNode))
  /-- The tables of an array, last first. -/
  | tables (items : List (List (String × TomlNode)))

/-- What a line of a document says. -/
inductive TomlStatement where
  | openTable (path : List String)
  | openItem (path : List String)
  | assign (path : List String) (v : Toml)

namespace TomlNode

/-- The entries of a table. -/
abbrev Entries := List (String × TomlNode)

def find? (key : String) : Entries → Option TomlNode
  | [] => none
  | (k, n) :: rest => if k = key then some n else find? key rest

/-- The entries with a key changed, or added at the end. -/
def put (key : String) (n : TomlNode) : Entries → Entries
  | [] => [(key, n)]
  | (k, m) :: rest => if k = key then (k, n) :: rest else (k, m) :: put key n rest

/-- The entries with a value under a dotted key. The tables on the way must not have headers of
their own, and the last of them must have come from dotted keys. -/
def assign : List String → Toml → Entries → Option Entries
  | [], _, _ => none
  | [key], v, entries =>
    match find? key entries with
    | none => some (put key (.value v) entries)
    | some _ => none
  | key :: next :: rest, v, entries =>
    match find? key entries with
    | none => do return put key (.table .dotted (← assign (next :: rest) v [])) entries
    | some (.table kind inner) =>
      if kind = .opened ∨ (rest = [] ∧ kind ≠ .dotted) then none
      else do return put key (.table kind (← assign (next :: rest) v inner)) entries
    | some _ => none

/-- The entries with the last key of a path changed. Tables that are missing on the way come to be,
and the way into an array leads to its last table. -/
def changeAt (change : Option TomlNode → Option TomlNode) :
    List String → Entries → Option Entries
  | [], _ => none
  | [key], entries => do return put key (← change (find? key entries)) entries
  | key :: next :: rest, entries =>
    match find? key entries with
    | none => do
      return put key (.table .implicit (← changeAt change (next :: rest) [])) entries
    | some (.table kind inner) => do
      return put key (.table kind (← changeAt change (next :: rest) inner)) entries
    | some (.tables (last :: before)) => do
      return put key (.tables ((← changeAt change (next :: rest) last) :: before)) entries
    | some _ => none

/-- The entries with a table opened by a header. -/
def openTable (path : List String) (entries : Entries) : Option Entries :=
  changeAt (fun
    | none => some (.table .opened [])
    | some (.table .implicit inner) => some (.table .opened inner)
    | some _ => none) path entries

/-- The entries with one more table in an array of tables. -/
def openItem (path : List String) (entries : Entries) : Option Entries :=
  changeAt (fun
    | none => some (.tables [[]])
    | some (.tables items) => some (.tables ([] :: items))
    | some _ => none) path entries

/-- The entries with a value in the table of a header, or in the document itself. -/
def assignUnder (header path : List String) (v : Toml) (entries : Entries) : Option Entries :=
  if header = [] then assign path v entries
  else changeAt (fun
    | some (.table kind inner) => (assign path v inner).map (.table kind)
    | some (.tables (last :: before)) => (assign path v last).map fun l => .tables (l :: before)
    | _ => none) header entries

mutual

/-- A finished part of a document. -/
def toToml : TomlNode → Toml
  | .value v => v
  | .table _ entries => .table (entriesToToml entries)
  | .tables items => .array (itemsToToml items).reverse

/-- The finished tables of an array. -/
def itemsToToml : List (List (String × TomlNode)) → List Toml
  | [] => []
  | entries :: rest => .table (entriesToToml entries) :: itemsToToml rest

/-- The finished entries of a table. -/
def entriesToToml : List (String × TomlNode) → List (String × Toml)
  | [] => []
  | (key, node) :: rest => (key, node.toToml) :: entriesToToml rest

end

/-- The entries after a statement, and the header that is in force. -/
def follow (state : Entries × List String) : TomlStatement → Option (Entries × List String)
  | .openTable path => do return (← openTable path state.1, path)
  | .openItem path => do return (← openItem path state.1, path)
  | .assign path v => do return (← assignUnder state.2 path v state.1, state.2)

end TomlNode

/-- The document that statements describe, unless they define something twice. -/
def Toml.ofStatements? (statements : List TomlStatement) : Option Toml := do
  let (entries, _) ← statements.foldlM TomlNode.follow ([], [])
  return (TomlNode.table .opened entries).toToml

/-- The inline table that assignments describe. -/
def Toml.ofAssignments? (assignments : List (List String × Toml)) : Option Toml := do
  let entries ← assignments.foldlM (fun entries a => TomlNode.assign a.1 a.2 entries) []
  return (TomlNode.table .opened entries).toToml

end MessageCard
