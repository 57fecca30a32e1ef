/-
  Attribution.Failure — why a run fails.

  A failure says what was being done; the causes beneath it go from there to the
  refusal of the system.
-/
import Attribution.Tree.Walk

namespace Attribution

inductive Failure where
  | unreadable (p : Path) (cause : Cause)
  | noCacheRoot (root : Path)
  | unwalkable (dir : Path) (walk : WalkFailure)
  | unwritable (p : Path) (cause : Cause)
  | configUnreadable (p : Path) (cause : Cause)
  | configInvalid (p : Path)
  /-- A path in the manifest is no text. -/
  | pathNotText

namespace Failure

def context : Failure → Text
  | unreadable p _ => "failed to read ".toList ++ p.shown
  | noCacheRoot root => "dependency cache root ".toList ++ root.shown ++ " is not a directory".toList
  | unwalkable dir _ => "failed to walk ".toList ++ dir.shown
  | unwritable p _ => "failed to write ".toList ++ p.shown
  | configUnreadable p _ => "failed to read config ".toList ++ p.shown
  | configInvalid p => "invalid config ".toList ++ p.shown
  | pathNotText => "path contains invalid UTF-8 characters".toList

def cause? : Failure → Option Cause
  | unreadable _ c | unwritable _ c | configUnreadable _ c => some c
  | unwalkable _ w => some w.cause
  | noCacheRoot _ | configInvalid _ | pathNotText => none

def causes : Failure → List Text
  | unwalkable _ w =>
    ["IO error for operation on ".toList ++ w.place.shown ++ ": ".toList ++ w.cause.message, w.cause.message]
  | f => f.cause?.toList.map Cause.message

def line (f : Failure) : Text := List.intercalate ": ".toList (f.context :: f.causes)

/-- A cause behind what it starts with; its further lines stand below its first. -/
def indented (start c : Text) : Text :=
  start ++ List.intercalate ('\n' :: List.replicate start.length ' ') (Text.splitOn ['\n'] c) ++ ['\n']

/-- The causes below each other, numbered if there are several. -/
def listed : List Text → Text
  | [] => []
  | [c] => indented "    ".toList c
  | cs => cs.zipIdx.flatMap fun (c, i) => indented (Text.padLeft 5 (Text.ofNat i) ++ ": ".toList) c

def report (f : Failure) : Text :=
  "Error: ".toList ++ f.context ++ "\n".toList ++
    (if f.causes.isEmpty then [] else "\nCaused by:\n".toList ++ listed f.causes)

end Failure

end Attribution
