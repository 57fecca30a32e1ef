/-
  Attribution.Scene — what a run finds around it, written down line by line.

  (1) A line is a word and its arguments, with one blank between them. In an argument
  a blank, a line break or a percent sign is written as a percent sign and two
  hexadecimal digits; other bytes may be.

  (2) The lines are read from the first to the last. `directory`, `file` and `link`
  put a node into the tree; `in` enters a directory, from which later paths start;
  `home`, `vcpkg-root` and `colors` set the environment; `show` asks for the content
  of a file after the run.
-/
import Attribution.Run
import Attribution.Text.Hex
import Attribution.Tree.Plant

namespace Attribution

structure Scene where
  tree : Tree
  here : Location
  environment : Environment
  shown : List Path

namespace Scene

open Text

def empty : Scene := ⟨.empty, [], ⟨none, none, none⟩, []⟩

/-! ## (1) Lines -/

def argument? : Text → Option Bytes
  | [] => some []
  | '%' :: a :: b :: s =>
    if isHexDigit a && isHexDigit b then (argument? s).map (UInt8.ofNat (numeral 16 [a, b]) :: ·)
    else none
  | c :: s => if c == '%' then none else (argument? s).map (encode [c] ++ ·)

def words (line : Text) : List Text := splitOn [' '] (dropEndWhile (fun c => c == '\n' || c == '\r') line)

/-! ## (2) Reading -/

def plant (s : Scene) (p : Path) (n : Node) : Scene := { s with tree := s.tree.plant s.here p n }

/-- The scene with what a word says of its arguments. -/
def say? (s : Scene) (word : String) (arguments : List Bytes) : Option Scene :=
  match word, arguments with
  | "directory", [p] => some (s.plant p .directory)
  | "file", [p, content] => some (s.plant p (.file content))
  | "link", [p, target] => some (s.plant p (.link target))
  | "in", [p] => match s.tree.resolve s.here p with
    | .ok l => some { s with here := l }
    | .error _ => none
  | "home", [p] => some { s with environment := { s.environment with home := some p } }
  | "vcpkg-root", [p] => some { s with environment := { s.environment with vcpkgRoot := some p } }
  | "colors", [v] => some { s with environment := { s.environment with forceColor := some v } }
  | "show", [p] => some { s with shown := s.shown ++ [p] }
  | _, _ => none

def read? (s : Scene) (line : Text) : Option Scene :=
  match words line with
  | [] => none
  | word :: rest => (rest.mapM argument?).bind (s.say? (String.ofList word))

def run (s : Scene) (args : List Bytes) : Outcome :=
  Attribution.run s.tree s.here s.environment args

/-- The contents that were asked for, after a run; a file that cannot be read has
    none. -/
def contents (s : Scene) (o : Outcome) : Bytes :=
  s.shown.flatMap fun p => match o.tree.readBytes s.here p with
    | .ok content => content
    | .error _ => []

end Scene

end Attribution
