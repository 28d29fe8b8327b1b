import ArityCheck.SortedMap
import ArityCheck.Toml.Value

/-! A document while it is being read.

A table can be made in three ways: by its header, by the header of a table inside of it, or by a
dotted key. What may be added to it later depends on that. -/

namespace ArityCheck.Toml

inductive Origin where
  /-- The table has a header of its own, or is the top level. -/
  | header
  /-- The table has only been named on the way to another one. -/
  | implied
  | dotted
deriving DecidableEq, Repr

inductive Item where
  | value (v : Value)
  | table (origin : Origin) (entries : List (String × Item))
  /-- Tables under one repeated header, the latest first. -/
  | tables (elements : List (List (String × Item)))

namespace Item

mutual

/-- The value that an item has once the document is read. -/
def toValue : Item → Value
  | .value v => v
  | .table _ entries => .table (entryValues entries)
  | .tables elements => .array (elementValues elements).reverse

def entryValues : List (String × Item) → List (String × Value)
  | [] => []
  | (k, i) :: rest => Entries.insert k i.toValue (entryValues rest)

def elementValues : List (List (String × Item)) → List Value
  | [] => []
  | entries :: rest => .table (entryValues entries) :: elementValues rest

end

end Item

namespace Document

/-- Puts an item under a key, in place of what was there. -/
def set (key : String) (item : Item) : List (String × Item) → List (String × Item)
  | [] => [(key, item)]
  | (k, i) :: rest => if k = key then (key, item) :: rest else (k, i) :: set key item rest

/-- Goes down a path of keys and changes the table at its end. Tables that are missing are made,
as of the origin `made`. Dotted keys do not lead into a table that has a header, and nothing leads
into a value. -/
def change (made : Origin) (edit : Origin → List (String × Item) → Option (List (String × Item))) :
    List String → Origin → List (String × Item) → Option (List (String × Item))
  | [], origin, entries => edit origin entries
  | key :: path, _, entries =>
    match Entries.get? key entries with
    | none => (change made edit path made []).map fun inner => set key (.table made inner) entries
    | some (.value _) | some (.tables []) => none
    | some (.tables (last :: earlier)) =>
      (change made edit path .header last).map fun inner =>
        set key (.tables (inner :: earlier)) entries
    | some (.table origin inner) =>
      if made = .dotted ∧ origin = .header then none
      else (change made edit path origin inner).map fun inner =>
        set key (.table origin inner) entries

/-- Adds a value under a key that is new. A table at the end of dotted keys has to be made of
them. -/
def addValue (path : List String) (key : String) (v : Value) (entries : List (String × Item)) :
    Option (List (String × Item)) :=
  change .dotted (fun origin entries =>
      if (!path.isEmpty && origin != .dotted) || (Entries.get? key entries).isSome then none
      else some (set key (.value v) entries))
    path .header entries

/-- Adds a value to the table under a header. -/
def addUnder (header path : List String) (key : String) (v : Value)
    (entries : List (String × Item)) : Option (List (String × Item)) :=
  change .implied (fun _ entries => addValue path key v entries) header .header entries

/-- Opens the table of a header, which may have been implied before but not opened. -/
def openTable (path : List String) (key : String) (entries : List (String × Item)) :
    Option (List (String × Item)) :=
  change .implied (fun _ entries =>
      match Entries.get? key entries with
      | none => some (set key (.table .header []) entries)
      | some (.table .implied inner) => some (set key (.table .header inner) entries)
      | _ => none)
    path .header entries

/-- Opens another table under a repeated header. -/
def openElement (path : List String) (key : String) (entries : List (String × Item)) :
    Option (List (String × Item)) :=
  change .implied (fun _ entries =>
      match Entries.get? key entries with
      | none => some (set key (.tables [[]]) entries)
      | some (.tables elements) => some (set key (.tables ([] :: elements)) entries)
      | _ => none)
    path .header entries

end Document

end ArityCheck.Toml
