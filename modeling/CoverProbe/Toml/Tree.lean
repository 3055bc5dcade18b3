import CoverProbe.Toml.Scalar

set_option relaxedAutoImplicit false
set_option autoImplicit false

/-!
# Tables in TOML

The tables of a text while it is read. A table grows by dotted keys and by headers, and what may
still be added to it depends on how it came about.

## Main definitions

* `CoverProbe.Toml.Node`, `CoverProbe.Toml.Table` — tables and the values in them.
* `CoverProbe.Toml.Table.insert?` — a value under a dotted key.
* `CoverProbe.Toml.Table.open?`, `CoverProbe.Toml.Table.append?` — the two kinds of header.
* `CoverProbe.Toml.Table.toDocument` — what a table says.
-/

namespace CoverProbe.Toml

/-- How a table came about. -/
inductive Origin
  /-- It has a header of its own, or is the root. -/
  | header
  /-- It is named on the way to the table of a header. -/
  | passed
  /-- It is named on the way to the value of a dotted key. -/
  | dotted
deriving DecidableEq

/-- What a key of a table holds. -/
inductive Node where
  /-- A value that does not grow. -/
  | value (d : Document)
  | table (origin : Origin) (members : List (String × Node))
  /-- A list of tables, the last first; each has a header of its own. -/
  | tables (newestFirst : List (List (String × Node)))

/-- The members of a table. -/
abbrev Members := List (String × Node)

/-- The members with another node under a name, or with that name added. -/
def setMember (name : String) (node : Node) : Members → Members
  | [] => [(name, node)]
  | (other, old) :: rest =>
    if other = name then (name, node) :: rest else (other, old) :: setMember name node rest

/-- A table with its origin. -/
structure Table where
  origin : Origin
  members : Members

namespace Table

/-- The empty root. -/
def root : Table := ⟨.header, []⟩

/-- The table changed below a path of names. Tables that are not there are made; with `dotted` no
table that has a header is entered, else the last table of a list is. -/
def update? (dotted : Bool) (change : Table → Option Table) : List String → Table → Option Table
  | [], t => change t
  | name :: path, t => do
    let node ←
      match t.members.lookup name with
      | none => do
        let made ← update? dotted change path ⟨if dotted then .dotted else .passed, []⟩
        pure (.table made.origin made.members)
      | some (.value _) => none
      | some (.table origin members) => do
        guard (¬ (dotted ∧ origin = .header))
        let changed ← update? dotted change path ⟨origin, members⟩
        pure (.table changed.origin changed.members)
      | some (.tables []) => none
      | some (.tables (members :: older)) => do
        let changed ← update? dotted change path ⟨.header, members⟩
        pure (.tables (changed.members :: older))
    return { t with members := setMember name node t.members }

/-- The table with a new name for a value. Only a table that dotted keys made grows by a dotted
key. -/
def insertHere? (isDotted : Bool) (name : String) (d : Document) (t : Table) : Option Table := do
  guard (isDotted = decide (t.origin = .dotted))
  guard (t.members.lookup name).isNone
  return { t with members := t.members ++ [(name, .value d)] }

/-- The table with a value under a key. -/
def insert? (key : List String) (d : Document) (t : Table) : Option Table := do
  let name ← key.getLast?
  let path := key.dropLast
  update? true (insertHere? (!path.isEmpty) name d) path t

/-- The table with a member that has a header. Only a table that other headers have passed may still
get one. -/
def openHere? (name : String) (t : Table) : Option Table :=
  match t.members.lookup name with
  | none => some { t with members := t.members ++ [(name, .table .header [])] }
  | some (.table .passed members) =>
    some { t with members := setMember name (.table .header members) t.members }
  | some _ => none

/-- The table after a header. -/
def open? (key : List String) (t : Table) : Option Table := do
  update? false (openHere? (← key.getLast?)) key.dropLast t

/-- The table with one more table in a list. -/
def appendHere? (name : String) (t : Table) : Option Table :=
  match t.members.lookup name with
  | none => some { t with members := t.members ++ [(name, .tables [[]])] }
  | some (.tables found) =>
    some { t with members := setMember name (.tables ([] :: found)) t.members }
  | some _ => none

/-- The table after the header of one more table in a list. -/
def append? (key : List String) (t : Table) : Option Table := do
  update? false (appendHere? (← key.getLast?)) key.dropLast t

end Table

/-! ## Documents -/

mutual

/-- What a node says. -/
def Node.toDocument : Node → Document
  | .value d => d
  | .table _ members => .table (ofMembers members)
  | .tables newestFirst => .list (ofTables newestFirst).reverse

/-- What the members of a table say. -/
def ofMembers : List (String × Node) → List (String × Document)
  | [] => []
  | (name, node) :: rest => (name, node.toDocument) :: ofMembers rest

/-- What the tables of a list say. -/
def ofTables : List (List (String × Node)) → List Document
  | [] => []
  | members :: rest => .table (ofMembers members) :: ofTables rest

end

/-- What a table says. -/
def Table.toDocument (t : Table) : Document :=
  .table (ofMembers t.members)

end CoverProbe.Toml
