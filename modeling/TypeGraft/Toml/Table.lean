import TypeGraft.Json.Basic

/-
  Tables of a configuration file while they are filled.

  How a table came to be decides what may be added to it
  later: a header opens a table once, though tables inside it
  may have been opened before, and a dotted key extends only
  tables that dotted keys have made.

  Key definitions include:
    * `TableOrigin`
    * `TomlEntry`
    * `TomlTable`
    * `TomlTable.assign?`
    * `TomlTable.open?`
    * `TomlTable.within?`
    * `TomlTable.toJson`
-/

namespace TypeGraft

/- How a table came to be. -/
inductive TableOrigin where
  /- By a header of its own. -/
  | declared
  /- On the way to a table with a header. -/
  | passed
  /- On the way to the last part of a dotted key. -/
  | dotted
deriving DecidableEq, Repr

/- What stands under a key. -/
inductive TomlEntry where
  | value (v : Json)
  | table
      (origin : TableOrigin)
      (entries : List (String × TomlEntry))
  | tables (items : List (List (String × TomlEntry)))

/- The keys of a table and what stands under them. -/
abbrev TomlTable := List (String × TomlEntry)

namespace TomlTable

------------------------------------------------------------
-- Entries
------------------------------------------------------------

/- What stands under a key. -/
def find?
    (t : TomlTable)
    (key : String) : Option TomlEntry :=
  List.lookup key t

/- Add a key. -/
def add
    (t : TomlTable)
    (key : String)
    (e : TomlEntry) : TomlTable :=
  t ++ [(key, e)]

/- Change what stands under a key. -/
def replace
    (t : TomlTable)
    (key : String)
    (e : TomlEntry) : TomlTable :=
  t.map (fun p => if p.1 = key then (key, e) else p)

/- Change the last of several tables. -/
def changeLast?
    (f : TomlTable → Option TomlTable)
    (items : List TomlTable) : Option (List TomlTable) :=
  match items.getLast? with
  | none => none
  | some last => (f last).map (fun t => items.dropLast ++ [t])

------------------------------------------------------------
-- Dotted Keys
------------------------------------------------------------

/-
  Put a value under a key behind the parts of a dotted key.
  The key must be new, and the table it goes into must have
  been made by dotted keys, unless there are no parts.
-/
def assign?
    (key : String)
    (v : Json) :
    List String → TomlTable → Option TomlTable
  | [], t =>
      match t.find? key with
      | some _ => none
      | none => some (t.add key (.value v))
  | part :: parts, t =>
      match t.find? part with
      | none =>
          (assign? key v parts []).map
            (fun u => t.add part (.table .dotted u))
      | some (.table .dotted u) =>
          (assign? key v parts u).map
            (fun u => t.replace part (.table .dotted u))
      | some (.table .passed u) =>
          if parts.isEmpty then none
          else
            (assign? key v parts u).map
              (fun u => t.replace part (.table .passed u))
      | some (.table .declared _) => none
      | some (.tables items) =>
          if parts.isEmpty then none
          else
            (changeLast? (assign? key v parts) items).map
              (fun items => t.replace part (.tables items))
      | some (.value _) => none

------------------------------------------------------------
-- Headers
------------------------------------------------------------

/- Open a table that no header has opened before. -/
def openTable?
    (key : String)
    (t : TomlTable) : Option TomlTable :=
  match t.find? key with
  | none => some (t.add key (.table .declared []))
  | some (.table .passed u) =>
      some (t.replace key (.table .declared u))
  | some _ => none

/- Open one more table in a row of tables. -/
def openItem?
    (key : String)
    (t : TomlTable) : Option TomlTable :=
  match t.find? key with
  | none => some (t.add key (.tables [[]]))
  | some (.tables items) =>
      some (t.replace key (.tables (items ++ [[]])))
  | some _ => none

/-
  Follow the parts of a header and open a table at its last
  part; in a row of tables the way leads through the last.
-/
def open?
    (last : String → TomlTable → Option TomlTable) :
    List String → TomlTable → Option TomlTable
  | [], _ => none
  | [key], t => last key t
  | part :: parts, t =>
      match t.find? part with
      | none =>
          (open? last parts []).map
            (fun u => t.add part (.table .passed u))
      | some (.table origin u) =>
          (open? last parts u).map
            (fun u => t.replace part (.table origin u))
      | some (.tables items) =>
          (changeLast? (open? last parts) items).map
            (fun items => t.replace part (.tables items))
      | some (.value _) => none

/- Change the table that a header has opened. -/
def within?
    (f : TomlTable → Option TomlTable) :
    List String → TomlTable → Option TomlTable
  | [], t => f t
  | part :: parts, t =>
      match t.find? part with
      | some (.table origin u) =>
          (within? f parts u).map
            (fun u => t.replace part (.table origin u))
      | some (.tables items) =>
          (changeLast? (within? f parts) items).map
            (fun items => t.replace part (.tables items))
      | _ => none

------------------------------------------------------------
-- Values
------------------------------------------------------------

mutual

/- An entry as a value. -/
def entryJson : TomlEntry → Json
  | .value v => v
  | .table _ entries => .obj (entriesJson entries)
  | .tables items => .arr (itemsJson items)

/- Entries as members. -/
def entriesJson :
    List (String × TomlEntry) → List (String × Json)
  | [] => []
  | (key, e) :: entries =>
      (key, entryJson e) :: entriesJson entries

/- Tables as values. -/
def itemsJson :
    List (List (String × TomlEntry)) → List Json
  | [] => []
  | entries :: items =>
      .obj (entriesJson entries) :: itemsJson items

end

/- A table as an object. -/
def toJson
    (t : TomlTable) : Json :=
  .obj (entriesJson t)

end TomlTable

end TypeGraft
