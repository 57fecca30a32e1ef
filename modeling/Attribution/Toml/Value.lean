/-
  Attribution.Toml.Value — TOML values and how tables are filled.

  (1) A document is a table: a list of fields in the order in which they were
  written. Of numbers, dates and booleans only the kind is kept; nothing is made of
  their values here.

  (2) A table remembers how it came to be, since that decides what may still be added
  to it: the table of a header cannot be reopened by a dotted key or a second header,
  one that only stood on the way to a header can be given a header later, and one
  written in braces is closed. Adding fails where a rule of the format is broken.
-/
import Attribution.Text.Basic

namespace Attribution.Toml

inductive Kind where
  | integer
  | float
  | boolean
  | dateTime
  deriving DecidableEq, Repr

inductive Origin where
  /-- It has a header of its own. -/
  | header
  /-- It stood on the way to the table of a header. -/
  | implied
  /-- It stood on the way to a dotted key. -/
  | dotted
  | braces
  deriving DecidableEq, Repr

inductive Value where
  | text (s : Text)
  | plain (k : Kind)
  | array (items : List Value)
  | table (origin : Origin) (fields : List (Text × Value))
  /-- The tables of headers in double brackets, the newest last. -/
  | tables (rows : List (List (Text × Value)))

abbrev Fields := List (Text × Value)

namespace Fields

def get? (fs : Fields) (key : Text) : Option Value := fs.lookup key

def set (fs : Fields) (key : Text) (v : Value) : Fields :=
  fs.map fun f => if f.1 = key then (key, v) else f

def add? (fs : Fields) (key : Text) (v : Value) : Option Fields :=
  match fs.get? key with
  | none => some (fs ++ [(key, v)])
  | some _ => none

/-- Changes the table at the end of a path. Tables that are missing on the way are
    made, as a dotted key or a header makes them. A dotted key goes through no table
    that has a header; nothing goes into a value or a table in braces. -/
def update? (dotted : Bool) (change : Origin → Fields → Option Fields) :
    List Text → Origin → Fields → Option Fields
  | [], origin, fs => change origin fs
  | key :: path, _, fs =>
    let made := if dotted then Origin.dotted else .implied
    match fs.get? key with
    | none => do
      let sub ← update? dotted change path made []
      return fs ++ [(key, .table made sub)]
    | some (.table origin sub) =>
      if origin = .braces || (dotted && origin = .header) then none
      else do
        let sub ← update? dotted change path origin sub
        return fs.set key (.table origin sub)
    | some (.tables rows) => do
      let newest ← rows.getLast?
      let newest ← update? dotted change path .header newest
      return fs.set key (.tables (rows.dropLast ++ [newest]))
    | some _ => none

/-- The fields with the value of a key, which may be dotted. A dotted key may only
    add to a table that dotted keys have made. -/
def insert? (fs : Fields) (path : List Text) (key : Text) (v : Value) : Option Fields :=
  update? true
    (fun origin sub => if path ≠ [] && origin ≠ .dotted then none else sub.add? key v)
    path .header fs

/-- A header `[path.key]`: the table is new, or was implied by a longer header. -/
def open? (fs : Fields) (path : List Text) (key : Text) : Option Fields :=
  update? false
    (fun _ sub => match sub.get? key with
      | none => some (sub ++ [(key, .table .header [])])
      | some (.table .implied old) => some (sub.set key (.table .header old))
      | some _ => none)
    path .header fs

/-- A header `[[path.key]]`: one more table under the key. -/
def openNext? (fs : Fields) (path : List Text) (key : Text) : Option Fields :=
  update? false
    (fun _ sub => match sub.get? key with
      | none => some (sub ++ [(key, .tables [[]])])
      | some (.tables rows) => some (sub.set key (.tables (rows ++ [[]])))
      | some _ => none)
    path .header fs

end Fields

end Attribution.Toml
