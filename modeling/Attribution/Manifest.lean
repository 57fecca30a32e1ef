/-
  Attribution.Manifest — the report as JSON.

  The fields stand in a fixed order, one to a line, two blanks deeper than what they
  are in. Paths are written as texts, so that a report with a path that is no text
  has no manifest.
-/
import Attribution.Package
import Attribution.Text.Hex

namespace Attribution.Manifest

open Text

/-! ## Strings -/

/-- A character inside a string: quotes, backslashes and control characters are
    escaped, everything else stands for itself. -/
def escape (c : Char) : Text :=
  if c == '"' then ['\\', '"']
  else if c == '\\' then ['\\', '\\']
  else if c == '\n' then ['\\', 'n']
  else if c == '\r' then ['\\', 'r']
  else if c == '\t' then ['\\', 't']
  else if c == '\x08' then ['\\', 'b']
  else if c == '\x0C' then ['\\', 'f']
  else if c.toNat < 0x20 then ['\\', 'u', '0', '0', hexDigit (c.toNat / 16), hexDigit (c.toNat % 16)]
  else [c]

def string (s : Text) : Text := '"' :: s.flatMap escape ++ ['"']

/-! ## Arrays and objects -/

def indent (depth : Nat) : Text := List.replicate (2 * depth) ' '

def block (left right : Char) (depth : Nat) : List Text → Text
  | [] => [left, right]
  | items =>
    left :: '\n' :: List.intercalate ",\n".toList (items.map (indent (depth + 1) ++ ·)) ++
      '\n' :: indent depth ++ [right]

def array (depth : Nat) (items : List Text) : Text := block '[' ']' depth items

def object (depth : Nat) (fields : List (Text × Text)) : Text :=
  block '\x7b' '\x7d' depth (fields.map fun (k, v) => string k ++ ": ".toList ++ v)

/-! ## The report -/

def path? (p : Path) : Option Text := (decode? p).map string

def license : Option Text → Text
  | none => "null".toList
  | some l => string l

def package? (depth : Nat) (p : Package) : Option Text := do
  let path ← path? p.path
  let files ← p.copyrightPaths.mapM path?
  return object depth
    [("name".toList, string p.name),
      ("path".toList, path),
      ("copyright_paths".toList, array (depth + 1) files),
      ("license".toList, license p.license),
      ("risk".toList, string p.risk.tag)]

/-- The manifest of a report; none if a path in it is no text. -/
def render? (r : Report) : Option Text := do
  let output ← path? r.output
  let packages ← r.packages.mapM (package? 2)
  return object 0
    [("output".toList, output),
      ("project_label".toList, string r.projectLabel),
      ("sublicenses".toList, array 1 (r.sublicenses.map string)),
      ("packages".toList, array 1 packages)]

end Attribution.Manifest
