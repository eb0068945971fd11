import ClassLang.Decimal.Binary64

/-!
# TOML values and tables

The values that a TOML document can hold, and how its lines build up tables. A key is defined once,
and nothing is added to a table that is complete; both rules depend on how the table came to be.
-/

namespace ClassLang.Toml

/-- How a table came to be, which decides what may be added to it. -/
inductive Origin where
  /-- Named by a header of its own. -/
  | header
  /-- Named as a part of a longer header. -/
  | implied
  /-- Made by a dotted key. -/
  | dotted
  /-- Written in braces. -/
  | inlined
deriving DecidableEq, Repr, Inhabited

inductive Value where
  | string (text : String)
  | integer (value : Int)
  | float (value : Binary64)
  | boolean (value : Bool)
  /-- A date, a time of day, or both, as written. -/
  | dateTime (text : String)
  | array (items : List Value)
  | table (origin : Origin) (entries : List (String × Value))
  /-- Tables with one header in double brackets for each. -/
  | tables (items : List (List (String × Value)))
deriving Repr, Inhabited

abbrev Entries := List (String × Value)

/-- Whether a value is an array or a table with nothing in it. -/
def Value.isEmpty : Value → Bool
  | .array [] | .table _ [] | .tables [] => true
  | _ => false

/-! ## Building tables -/

/-- Puts a value in place of the one under a key. -/
def replace (key : String) (v : Value) (es : Entries) : Entries :=
  es.map fun e => if e.1 == key then (key, v) else e

/-- Changes the last of several tables. -/
def modifyLast (f : Entries → Option Entries) : List Entries → Option (List Entries)
  | [] => none
  | [es] => (f es).map fun es => [es]
  | es :: rest => (modifyLast f rest).map (es :: ·)

/-- Changes the table that a value is, or the last of the tables that it is. A table in braces does
not change. -/
def Value.modifyTable (f : Entries → Option Entries) : Value → Option Value
  | .table .inlined _ => none
  | .table origin es => (f es).map (.table origin)
  | .tables items => (modifyLast f items).map .tables
  | _ => none

/-- Whether a dotted key with `count` parts after this value's name may add to it. One that ends in
the table needs a table made by dotted keys; one that goes on may pass through what headers made on
their way. -/
def Value.isOpen (count : Nat) : Value → Bool
  | .table .dotted _ => true
  | .table .implied _ | .tables _ => 1 < count
  | _ => false

/-- Adds a value under a dotted key. Tables on the way are made if they do not exist. -/
def assign : (path : List String) → Value → Entries → Option Entries
  | [], _, _ => none
  | [key], v, es => if (es.lookup key).isSome then none else some (es ++ [(key, v)])
  | key :: path, v, es =>
    match es.lookup key with
    | none => (assign path v []).map fun inner => es ++ [(key, .table .dotted inner)]
    | some old =>
      if old.isOpen path.length then
        (old.modifyTable (assign path v)).map fun new => replace key new es
      else none

/-- Goes to the table that a header's path leads to, makes the tables on the way, and lets `last`
open the entry for the last part. -/
def openAt (last : String → Entries → Option Entries) :
    (path : List String) → Entries → Option Entries
  | [], _ => none
  | [key], es => last key es
  | key :: path, es =>
    match es.lookup key with
    | none => (openAt last path []).map fun inner => es ++ [(key, .table .implied inner)]
    | some old => (old.modifyTable (openAt last path)).map fun new => replace key new es

/-- Opens the table of a header. It must be new, or known only as a part of longer headers. -/
def openTable : (path : List String) → Entries → Option Entries :=
  openAt fun key es =>
    match es.lookup key with
    | none => some (es ++ [(key, .table .header [])])
    | some (.table .implied inner) => some (replace key (.table .header inner) es)
    | _ => none

/-- Opens a further table of a header in double brackets. -/
def openItem : (path : List String) → Entries → Option Entries :=
  openAt fun key es =>
    match es.lookup key with
    | none => some (es ++ [(key, .tables [[]])])
    | some (.tables items) => some (replace key (.tables (items ++ [[]])) es)
    | _ => none

/-- Changes the table that a path leads to. -/
def within : (path : List String) → (Entries → Option Entries) → Entries → Option Entries
  | [], f, es => f es
  | key :: path, f, es =>
    match es.lookup key with
    | some old => (old.modifyTable (within path f)).map fun new => replace key new es
    | none => none

end ClassLang.Toml
