/-
  Attribution.Tree.Walk — package directories and the files in them.

  (1) The package directories are the children of a directory that lead to a
  directory, through links too, in the byte order of their names.

  (2) The files of one name beneath a directory are met by going down through real
  directories only, from the directory that the path leads to. The order is that
  of the names on the way down, compared one after the other; a directory comes
  before what it holds. A link counts if it leads to a file.

  Trees have directories, files and links without permissions, and reading them does
  not fault. So a walk fails only where it cannot start, or where a path gets too long.
-/
import Attribution.Tree.Resolve

namespace Attribution

structure WalkFailure where
  place : Path
  cause : Cause

namespace Tree

/-! ## (1) Package directories -/

def sortedNames (t : Tree) (dir : Location) : List Bytes :=
  (t.names dir).mergeSort fun a b => decide (a ≤ b)

/-- The directories directly in a directory; `none` if the path does not lead to
    one. -/
def subdirectories? (t : Tree) (here : Location) (root : Path) : Option (List Path) :=
  match t.resolve here root with
  | .ok l =>
    if t.node? l = some .directory then
      some (((t.sortedNames l).map root.join).filter (t.isDirectory here))
    else none
  | .error _ => none

/-! ## (2) Files of one name -/

def sortedBeneath (t : Tree) (dir : Location) : List (Location × Node) :=
  (t.beneath dir).mergeSort fun a b => decide (a.1 ≤ b.1)

def pathFrom (root : Path) (names : Location) : Path := names.foldl Path.join root

/-- A node is a file, or a link whose path leads to one. -/
def countsAsFile (t : Tree) (here : Location) (p : Path) : Node → Bool
  | .file _ => true
  | .link _ => t.isFile here p
  | .directory => false

/-- The paths of the files of one name at and beneath a path. A directory whose
    path is too long to be opened makes the walk fail. -/
def findFiles (t : Tree) (here : Location) (root : Path) (name : Bytes) :
    Except WalkFailure (List Path) :=
  match t.resolve here root with
  | .error c => .error ⟨root, c⟩
  | .ok l =>
    let found := (t.sortedBeneath l).map fun e => (e.1, pathFrom root e.1, e.2)
    match found.find? fun (_, p, n) => n = .directory && pathLimit ≤ p.length with
    | some (_, p, _) => .error ⟨p, .nameTooLong⟩
    | none =>
      let itself := if root.name?.getD root = name ∧ t.isFile here root then [root] else []
      let below := found.filter fun (names, p, n) => names.getLast? == some name && t.countsAsFile here p n
      .ok (itself ++ below.map fun (_, p, _) => p)

end Tree

end Attribution
