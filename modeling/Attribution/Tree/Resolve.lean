/-
  Attribution.Tree.Resolve — where a path leads.

  (1) A path is followed from the root or the current directory, one step after the
  other. Each step starts in a directory; a link is replaced by the steps of its
  target, at most `linkLimit` times on one path; `..` goes to the parent of the
  directory that was reached, not of the path that led there. A path that lacks
  only its last name leads to a vacant place, which a new file can take.

  (2) Reading, asking and writing all resolve the path first. A file that is opened
  for writing is created if its place is vacant, also at the end of a dangling
  link.
-/
import Attribution.Tree.Basic

namespace Attribution

inductive Cause where
  | notFound
  | notADirectory
  | isADirectory
  | nameTooLong
  | tooManyLinks
  | notUtf8
  | nulInPath
  deriving DecidableEq, Repr

def Cause.message : Cause → Text
  | .notFound => "No such file or directory (os error 2)".toList
  | .notADirectory => "Not a directory (os error 20)".toList
  | .isADirectory => "Is a directory (os error 21)".toList
  | .nameTooLong => "File name too long (os error 36)".toList
  | .tooManyLinks => "Too many levels of symbolic links (os error 40)".toList
  | .notUtf8 => "stream did not contain valid UTF-8".toList
  | .nulInPath => "file name contained an unexpected NUL byte".toList

/-! ## (1) Following a path -/

inductive Spot where
  | occupied (l : Location)
  /-- A name that is free in a directory. -/
  | vacant (dir : Location) (name : Bytes)
  deriving DecidableEq

def linkLimit : Nat := 40

/-- Paths of this many bytes are refused. -/
def pathLimit : Nat := 4096

/-- The steps of a path. An empty step, which only the end of a path can have,
    stands for a trailing slash and stays where it is. -/
def Path.steps (p : Path) : List Bytes :=
  (pieces p).dropLast.filter (· ≠ []) ++ (pieces p).getLast?.toList

def Path.start (here : Location) (p : Path) : Location := if isAbsolute p then [] else here

namespace Tree

/-- Follows steps up to the next link, which is left to `jump`. With `creating`,
    a last name with a slash behind it is refused: it could only be a directory. -/
def advance (t : Tree) (creating : Bool) (jump : Location → List Bytes → Except Cause Spot) :
    Location → List Bytes → Except Cause Spot
  | here, [] => .ok (.occupied here)
  | here, step :: rest =>
    if t.node? here ≠ some .directory then .error .notADirectory
    else if step = [] ∨ step = Path.here then advance t creating jump here rest
    else if step = Path.up then advance t creating jump here.dropLast rest
    else if creating ∧ rest = [[]] then .error .isADirectory
    else if nameLimit < step.length then .error .nameTooLong
    else match t.node? (here ++ [step]) with
      | none => if rest = [] then .ok (.vacant here step) else .error .notFound
      | some (.link target) => jump (target.start here) (target.steps ++ rest)
      | some _ => advance t creating jump (here ++ [step]) rest

def follow (t : Tree) (creating : Bool) : Nat → Location → List Bytes → Except Cause Spot
  | 0 => advance t creating fun _ _ => .error .tooManyLinks
  | links + 1 => advance t creating (follow t creating links)

def spot (t : Tree) (creating : Bool) (here : Location) (p : Path) : Except Cause Spot :=
  if 0 ∈ p then .error .nulInPath
  else if p = [] then .error .notFound
  else if pathLimit ≤ p.length then .error .nameTooLong
  else follow t creating linkLimit (p.start here) p.steps

def resolve (t : Tree) (here : Location) (p : Path) : Except Cause Location :=
  match spot t false here p with
  | .ok (.occupied l) => .ok l
  | .ok (.vacant _ _) => .error .notFound
  | .error c => .error c

/-! ## (2) Reading, asking and writing -/

def target? (t : Tree) (here : Location) (p : Path) : Option Node :=
  match resolve t here p with
  | .ok l => t.node? l
  | .error _ => none

def pathExists (t : Tree) (here : Location) (p : Path) : Bool := (target? t here p).isSome

def isDirectory (t : Tree) (here : Location) (p : Path) : Bool :=
  target? t here p == some .directory

def isFile (t : Tree) (here : Location) (p : Path) : Bool :=
  match target? t here p with
  | some (.file _) => true
  | _ => false

def readBytes (t : Tree) (here : Location) (p : Path) : Except Cause Bytes :=
  match resolve t here p with
  | .error c => .error c
  | .ok l => match t.node? l with
    | some (.file content) => .ok content
    | some .directory => .error .isADirectory
    | _ => .error .notFound

def readText (t : Tree) (here : Location) (p : Path) : Except Cause Text :=
  match readBytes t here p with
  | .error c => .error c
  | .ok content => match Text.decode? content with
    | some s => .ok s
    | none => .error .notUtf8

/-- The path of a location, with no link, `.` or `..` in it. -/
def canonicalPath (l : Location) : Path :=
  if l = [] then [Path.slash] else l.flatMap (Path.slash :: ·)

/-- The canonical form of a path, or the path itself if it leads nowhere. -/
def canonical (t : Tree) (here : Location) (p : Path) : Path :=
  match resolve t here p with
  | .ok l => canonicalPath l
  | .error _ => p

/-- Makes the content of a file the given bytes; creates the file if its place is
    vacant. -/
def write (t : Tree) (here : Location) (p : Path) (content : Bytes) : Except Cause Tree :=
  match spot t true here p with
  | .error c => .error c
  | .ok (.vacant dir name) => .ok (t.add dir name (.file content))
  | .ok (.occupied l) => match t.node? l with
    | some (.file _) => .ok (t.setContent l content)
    | _ => .error .isADirectory

end Tree

end Attribution
