/-
  Attribution.Toml.Document — reading a TOML document.

  A document is read line by line: keys with their values go into the table of the
  last header. Arrays and tables in braces may be nested less than `nesting` deep,
  and keys have fewer than `nesting` parts.
-/
import Attribution.Toml.Scalar

namespace Attribution.Toml

open Text

/-- The depth at which arrays and tables in braces are refused. -/
def nesting : Nat := 80

/-! ## Blanks and comments -/

def skipSpaces (s : Text) : Text := s.dropWhile isSpace

def lineEnd? (s : Text) : Option Text :=
  let s := skipSpaces s
  let s := if s.head? = some '#' then s.dropWhile isPrinting else s
  if s.isEmpty then some [] else newline? s

def skipFiller : (comment : Bool) → Text → Text
  | _, [] => []
  | _, '\r' :: '\n' :: s => skipFiller false s
  | comment, c :: s =>
    if c == '\n' then skipFiller false s
    else if comment then if isPrinting c then skipFiller true s else c :: s
    else if isSpace c then skipFiller false s
    else if c == '#' then skipFiller true s
    else c :: s

/-! ## Keys -/

def isBare (c : Char) : Bool := c.isAlphanum || c == '_' || c == '-'

def keyPart? (s : Text) : Option (Text × Text) :=
  match s with
  | '"' :: rest => basicFrom 0 rest
  | '\'' :: rest => literalFrom rest
  | _ =>
    let name := s.takeWhile isBare
    if name.isEmpty then none else some (name, s.drop name.length)

def keyParts? : (fuel : Nat) → Text → Option (List Text × Text)
  | 0, _ => none
  | fuel + 1, s => do
    let (part, s) ← keyPart? (skipSpaces s)
    match skipSpaces s with
    | '.' :: rest => do
      let (parts, rest) ← keyParts? fuel rest
      return (part :: parts, rest)
    | rest => return ([part], rest)

/-- A key: the parts on the way, and the last one. -/
def key? (s : Text) : Option ((List Text × Text) × Text) := do
  let (parts, rest) ← keyParts? (s.length + 1) s
  let last ← parts.getLast?
  if parts.length < nesting then return ((parts.dropLast, last), rest) else none

/-! ## Values -/

def items? (item? : Text → Option (Value × Text)) : (fuel : Nat) → Text → Option (List Value × Text)
  | 0, _ => none
  | fuel + 1, s =>
    match skipFiller false s with
    | ']' :: rest => some ([], rest)
    | s => do
      let (v, s) ← item? s
      match skipFiller false s with
      | ',' :: rest => do
        let (vs, rest) ← items? item? fuel rest
        return (v :: vs, rest)
      | ']' :: rest => return ([v], rest)
      | _ => none

def assignment? (item? : Text → Option (Value × Text)) (s : Text) :
    Option ((List Text × Text) × Value × Text) := do
  let (key, s) ← key? s
  match s with
  | '=' :: s => do
    let (v, s) ← item? (skipSpaces s)
    return (key, v, s)
  | _ => none

/-- The fields of a table in braces from one field on, up to the closing brace. -/
def fields? (item? : Text → Option (Value × Text)) :
    (fuel : Nat) → Fields → Text → Option (Fields × Text)
  | 0, _, _ => none
  | fuel + 1, fs, s => do
    let ((path, key), v, s) ← assignment? item? s
    let fs ← fs.insert? path key v
    match skipSpaces s with
    | ',' :: rest => fields? item? fuel fs rest
    | '\x7d' :: rest => return (fs, rest)
    | _ => none

def braces? (item? : Text → Option (Value × Text)) (s : Text) : Option (Fields × Text) :=
  match skipSpaces s with
  | '\x7d' :: rest => some ([], rest)
  | s => fields? item? (s.length + 1) [] s

/-- A value in which arrays and tables may be nested so deep. -/
def value? : (depth : Nat) → Text → Option (Value × Text)
  | depth + 1, '[' :: s => do
    let (vs, rest) ← items? (value? depth) (s.length + 1) s
    return (.array vs, rest)
  | depth + 1, '\x7b' :: s => do
    let (fs, rest) ← braces? (value? depth) s
    return (.table .braces fs, rest)
  | _, s => scalar? s

/-! ## Lines -/

structure Reading where
  fields : Fields
  /-- The path of the table that keys go into. -/
  place : List Text

def afterHeader? (closing : Text) (s : Text) : Option Text :=
  if closing.isPrefixOf s then lineEnd? (s.drop closing.length) else none

def header? (r : Reading) (s : Text) : Option (Reading × Text) :=
  match s with
  | '[' :: '[' :: s => do
    let ((path, key), s) ← key? s
    let rest ← afterHeader? "]]".toList s
    let fields ← r.fields.openNext? path key
    return (⟨fields, path ++ [key]⟩, rest)
  | '[' :: s => do
    let ((path, key), s) ← key? s
    let rest ← afterHeader? "]".toList s
    let fields ← r.fields.open? path key
    return (⟨fields, path ++ [key]⟩, rest)
  | _ => none

def field? (r : Reading) (s : Text) : Option (Reading × Text) := do
  let ((path, key), v, s) ← assignment? (value? (nesting - 1)) s
  let rest ← lineEnd? s
  let fields ← Fields.update? false (fun _ fs => fs.insert? path key v) r.place .header r.fields
  return ({ r with fields := fields }, rest)

def lines? : (fuel : Nat) → Reading → Text → Option Reading
  | 0, _, _ => none
  | fuel + 1, r, s =>
    match skipSpaces s with
    | [] => some r
    | s => do
      let (r, rest) ← match lineEnd? s with
        | some rest => some (r, rest)
        | none => if s.head? = some '[' then header? r s else field? r s
      lines? fuel r rest

/-- The fields of a document, which may start with a byte order mark. -/
def document? (s : Text) : Option Fields :=
  let s := if s.head? = some '\uFEFF' then s.drop 1 else s
  (lines? (s.length + 1) ⟨[], []⟩ s).map (·.fields)

end Attribution.Toml
