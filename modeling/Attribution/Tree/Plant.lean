/-
  Attribution.Tree.Plant — putting nodes into a tree by path, and taking them out.

  (1) A node is put at a path together with the directories above it that are not
  there yet. A name that is taken keeps what it has, except that a file gets the new
  content.

  (2) What a path itself names is taken out with all beneath it; a link at the end is
  taken out, not what it leads to.
-/
import Attribution.Tree.Resolve

namespace Attribution

namespace Path

def above (before : Path) : Path → List Path
  | [] => []
  | b :: p =>
    if b = slash ∧ before ≠ [] then before :: above (before ++ [b]) p
    else above (before ++ [b]) p

def splitLast : Path → Path × Bytes
  | [] => ([], [])
  | b :: p =>
    let (dir, name) := splitLast p
    if dir = [] ∧ b ≠ slash then ([], b :: name) else (b :: dir, name)

end Path

namespace Tree

/-- Where the last piece of a path stands or would stand, links at it not followed. -/
def placeOf (t : Tree) (here : Location) (p : Path) : Option (Location × Bytes) :=
  let (dir, name) := p.splitLast
  if dir = [] then some (here, name)
  else match t.resolve here dir with
    | .ok l => some (l, name)
    | .error _ => none

/-! ## (1) Putting in -/

def makeDirectory (t : Tree) (here : Location) (p : Path) : Tree :=
  match t.spot false here p with
  | .ok (.vacant dir name) => t.add dir name .directory
  | _ => t

def plant (t : Tree) (here : Location) (p : Path) (n : Node) : Tree :=
  let t := (Path.above [] p).foldl (makeDirectory · here ·) t
  match n with
  | .directory => t.makeDirectory here p
  | .file content => match t.write here p content with
    | .ok t' => t'
    | .error _ => t
  | .link _ => match t.placeOf here p with
    | some (dir, name) => t.add dir name n
    | none => t

/-! ## (2) Taking out -/

def uproot (t : Tree) (here : Location) (p : Path) : Tree :=
  match t.placeOf here p with
  | some (dir, name) => t.remove (if name = [] then dir else dir ++ [name])
  | none => t

end Tree

end Attribution
