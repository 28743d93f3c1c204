import FilterAssist.Table

/-! TOML values, and how the statements of a document build them up. A table can be
opened by name only once, and how it came to be decides who may add to it. -/

namespace FilterAssist.Toml

inductive Origin where
  | header
  /-- On the way to another header; its own header may still come. -/
  | implied
  /-- On the way to a dotted key; only dotted keys add to it. -/
  | dotted
  | inline
  deriving DecidableEq, Repr

/-- Floats and dates are kept as they are written. -/
inductive Value where
  | string (s : String)
  | integer (n : Int)
  | float (literal : String)
  | bool (b : Bool)
  | datetime (literal : String)
  | array (items : List Value)
  | table (origin : Origin) (entries : List (String × Value))
  /-- Opened by headers in double brackets, one table each. -/
  | tables (items : List (List (String × Value)))
  deriving Repr

abbrev Entries := List (String × Value)

def onLast (f : Entries → Option Entries) (items : List Entries) : Option (List Entries) :=
  items.getLast?.bind fun last => (f last).map fun changed => items.dropLast ++ [changed]

/-- Assign a value to a dotted key. Tables on the way are made, or they must have been
made by keys like this one; a key that is taken is refused. -/
def assign : List String → Value → Entries → Option Entries
  | [], _, _ => none
  | [key], value, entries =>
    match entries.lookup key with
    | none => some (entries ++ [(key, value)])
    | some _ => none
  | key :: next :: rest, value, entries =>
    match entries.lookup key with
    | none =>
      (assign (next :: rest) value []).map fun inner => entries ++ [(key, .table .dotted inner)]
    | some (.table .dotted inner) =>
      (assign (next :: rest) value inner).map fun changed =>
        Table.put key (.table .dotted changed) entries
    | some (.table .implied inner) =>
      if rest.isEmpty then none
      else (assign (next :: rest) value inner).map fun changed =>
        Table.put key (.table .implied changed) entries
    | some (.tables items) =>
      if rest.isEmpty then none
      else (onLast (assign (next :: rest) value) items).map fun changed =>
        Table.put key (.tables changed) entries
    | some _ => none

def openTable : List String → Entries → Option Entries
  | [], _ => none
  | [key], entries =>
    match entries.lookup key with
    | none => some (entries ++ [(key, .table .header [])])
    | some (.table .implied inner) => some (Table.put key (.table .header inner) entries)
    | some _ => none
  | key :: next :: rest, entries =>
    match entries.lookup key with
    | none => (openTable (next :: rest) []).map fun inner => entries ++ [(key, .table .implied inner)]
    | some (.table .inline _) => none
    | some (.table origin inner) =>
      (openTable (next :: rest) inner).map fun changed =>
        Table.put key (.table origin changed) entries
    | some (.tables items) =>
      (onLast (openTable (next :: rest)) items).map fun changed =>
        Table.put key (.tables changed) entries
    | some _ => none

def openItem : List String → Entries → Option Entries
  | [], _ => none
  | [key], entries =>
    match entries.lookup key with
    | none => some (entries ++ [(key, .tables [[]])])
    | some (.tables items) => some (Table.put key (.tables (items ++ [[]])) entries)
    | some _ => none
  | key :: next :: rest, entries =>
    match entries.lookup key with
    | none => (openItem (next :: rest) []).map fun inner => entries ++ [(key, .table .implied inner)]
    | some (.table .inline _) => none
    | some (.table origin inner) =>
      (openItem (next :: rest) inner).map fun changed =>
        Table.put key (.table origin changed) entries
    | some (.tables items) =>
      (onLast (openItem (next :: rest)) items).map fun changed =>
        Table.put key (.tables changed) entries
    | some _ => none

/-- Change the table at a path that is open; of an array of tables the last one. -/
def changeAt (f : Entries → Option Entries) : List String → Entries → Option Entries
  | [], entries => f entries
  | key :: rest, entries =>
    match entries.lookup key with
    | some (.table origin inner) =>
      (changeAt f rest inner).map fun changed => Table.put key (.table origin changed) entries
    | some (.tables items) =>
      (onLast (changeAt f rest) items).map fun changed => Table.put key (.tables changed) entries
    | _ => none

inductive Statement where
  | table (path : List String)
  | item (path : List String)
  | assign (path : List String) (value : Value)
  deriving Repr

structure Draft where
  root : Entries
  current : List String

def Draft.add (d : Draft) : Statement → Option Draft
  | .table path => (openTable path d.root).map (⟨·, path⟩)
  | .item path => (openItem path d.root).map (⟨·, path⟩)
  | .assign path value => (changeAt (Toml.assign path value) d.current d.root).map (⟨·, d.current⟩)

def build? (statements : List Statement) : Option Entries :=
  (statements.foldlM Draft.add ⟨[], []⟩).map Draft.root

end FilterAssist.Toml
