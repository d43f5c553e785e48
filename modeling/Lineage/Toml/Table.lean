import Lineage.Toml.Value

/-!
# Building tables

A document adds to its tables line by line.  A header opens a table that is not there yet or
was only implied by other headers; a header with doubled brackets adds a table to a list that
only such headers make; a dotted key makes tables of its own, and goes through no table that
was opened or written otherwise.  A key is never given twice, and nothing is ever added to a
value.
-/

namespace Lineage.Toml

/-- The entries of a table. -/
abbrev Entries : Type := List (String × Toml)

/-- The entries with `value` under `key`, in place of what was there. -/
def setEntry (entries : Entries) (key : String) (value : Toml) : Entries :=
  if entries.any (·.1 = key) then
    entries.map fun entry => if entry.1 = key then (key, value) else entry
  else entries ++ [(key, value)]

/-- A table under construction: how it came about, and its entries. -/
structure Table where
  origin : Origin
  entries : Entries

/-- The table as a value. -/
def Table.toToml (t : Table) : Toml := .table t.origin t.entries

namespace Table

/-- The table with `value` under `key`. -/
def set (t : Table) (key : String) (value : Toml) : Table :=
  { t with entries := setEntry t.entries key value }

/-- Change the table at the end of a path of keys, making those on the way that are missing.
A path of a dotted key goes through tables made by headers or keys for the way only; any
other path goes through all tables but those written as values.  Either enters the last
table of a list of tables. -/
def change (dotted : Bool) (update : Table → Option Table) (t : Table) :
    List String → Option Table
  | [] => update t
  | key :: path =>
      match t.entries.lookup key with
      | none => do
          let inner ← change dotted update ⟨if dotted then .dotted else .implied, []⟩ path
          some (t.set key inner.toToml)
      | some (.table origin entries) =>
          if origin = .closed ∨ dotted ∧ origin = .header then none
          else do
            let inner ← change dotted update ⟨origin, entries⟩ path
            some (t.set key inner.toToml)
      | some (.tables items) =>
          match items.getLast? with
          | some (.table origin entries) => do
              let inner ← change dotted update ⟨origin, entries⟩ path
              some (t.set key (.tables (items.dropLast ++ [inner.toToml])))
          | _ => none
      | some _ => none

/-- Add the value of a key that may be dotted, given the keys on the way and the last one. -/
def add (t : Table) (path : List String) (key : String) (value : Toml) : Option Table :=
  t.change true
    (fun inner =>
      if inner.origin = .dotted ↔ path = [] then none
      else if inner.entries.any (·.1 = key) then none
      else some (inner.set key value))
    path

/-- Open the table that a header names, given the keys on the way and the last one. -/
def openTable (t : Table) (path : List String) (key : String) : Option Table :=
  t.change false
    (fun inner =>
      match inner.entries.lookup key with
      | none => some (inner.set key (.table .header []))
      | some (.table .implied entries) => some (inner.set key (.table .header entries))
      | some _ => none)
    path

/-- Add a table to the list that a header with doubled brackets names, given the keys on the
way and the last one. -/
def appendTable (t : Table) (path : List String) (key : String) : Option Table :=
  t.change false
    (fun inner =>
      match inner.entries.lookup key with
      | none => some (inner.set key (.tables [.table .header []]))
      | some (.tables items) => some (inner.set key (.tables (items ++ [.table .header []])))
      | some _ => none)
    path

/-- Add the value of a key to the table that the last header opened. -/
def addWithin (t : Table) (header path : List String) (key : String) (value : Toml) :
    Option Table :=
  t.change false (fun inner => inner.add path key value) header

end Table

end Lineage.Toml
