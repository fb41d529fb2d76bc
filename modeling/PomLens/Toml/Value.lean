/-
This file defines the values that a settings file can hold.

A table remembers how it came about, because that decides who may still add to it: a table
named only on the way to another one may be opened once by a header of its own, one made by
a dotted key may be continued by further dotted keys, and one written out in braces is
complete.
-/

namespace PomLens.Toml

/-- How a table came about. -/
inductive Origin
  /-- It was opened by a header. -/
  | header
  /-- It was named on the way to another table. -/
  | implied
  /-- It was named by a dotted key. -/
  | dotted
  /-- It was written out in braces. -/
  | complete
  deriving DecidableEq, Repr

inductive Value
  | string (text : String)
  /-- A word in the form of an integer, and its value if it has one. -/
  | integer (value : Option Int)
  /-- A word in the form of a float, and its value if it has one. -/
  | float (value : Option Float)
  | boolean (value : Bool)
  /-- A date or a time. No setting takes one, so it is not read further. -/
  | moment (text : String)
  /-- A list of values, or the tables opened one by one by doubled headers. -/
  | array (byHeaders : Bool) (items : List Value)
  | table (origin : Origin) (entries : List (String × Value))
  deriving Repr

/-- The entries of a table in the order in which they were written. -/
abbrev Entries := List (String × Value)

/-- The empty table that a header opens. -/
def Value.opened : Value :=
  .table .header []

/-- Replaces the value of a key that is there, or adds the key at the end. -/
def Entries.put (entries : Entries) (key : String) (value : Value) : Entries :=
  match entries with
  | [] => [(key, value)]
  | (other, old) :: rest =>
    if other = key then (key, value) :: rest
    else (other, old) :: Entries.put rest key value

/-! ### Adding to tables -/

/-- Adds a value under a dotted key. The tables on the way must have been named so far only
on the way to something, and the last key must be new. -/
def addDotted (entries : Entries) (key : String) (path : List String) (value : Value) :
    Option Entries :=
  match path with
  | [] => if (entries.lookup key).isSome then none else some (entries.put key value)
  | next :: rest =>
    match entries.lookup key with
    | none => do
      let inner ← addDotted [] next rest value
      some (entries.put key (.table .dotted inner))
    | some (.table origin inner) =>
      if origin = .implied || origin = .dotted then do
        let inner ← addDotted inner next rest value
        some (entries.put key (.table origin inner))
      else none
    | some _ => none

/-- Changes the table under the path of a header by `change`, which is given what stands
there. Missing tables on the way are made, and of an array of tables the last is meant. -/
def changeAt (change : Option Value → Option Value) (entries : Entries) (key : String)
    (path : List String) : Option Entries :=
  match path with
  | [] => do some (entries.put key (← change (entries.lookup key)))
  | next :: rest =>
    match entries.lookup key with
    | none => do some (entries.put key (.table .implied (← changeAt change [] next rest)))
    | some (.table origin inner) =>
      if origin = .complete then none
      else do some (entries.put key (.table origin (← changeAt change inner next rest)))
    | some (.array true items) =>
      match items.reverse with
      | .table origin inner :: before => do
        let last := Value.table origin (← changeAt change inner next rest)
        some (entries.put key (.array true (last :: before).reverse))
      | _ => none
    | some _ => none

/-- Opens a table by a header. One that was only named on the way to another may be opened
once. -/
def openTable : Option Value → Option Value
  | none => some .opened
  | some (.table .implied entries) => some (.table .header entries)
  | some _ => none

/-- Opens a further table of an array by a doubled header. -/
def openItem : Option Value → Option Value
  | none => some (.array true [.opened])
  | some (.array true items) => some (.array true (items ++ [.opened]))
  | some _ => none

/-- Adds a value under a dotted key to the table at hand: the one that the last header
opened. -/
def addTo (key : String) (path : List String) (value : Value) : Option Value → Option Value
  | some (.table origin entries) => do
    some (.table origin (← addDotted entries key path value))
  | some (.array true items) =>
    match items.reverse with
    | .table origin entries :: before => do
      let last := Value.table origin (← addDotted entries key path value)
      some (.array true (last :: before).reverse)
    | _ => none
  | _ => none

end PomLens.Toml
