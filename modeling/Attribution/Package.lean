/-
  Attribution.Package — what is known of the packages of a project.

  A package is a directory below the cache root with the copyright files found in
  it. It is bundled if there are any. A report tells what a run has bundled.
-/
import Attribution.Path
import Attribution.Risk

namespace Attribution

structure Package where
  name : Text
  path : Path
  copyrightPaths : List Path
  license : Option Text
  risk : Risk
  deriving DecidableEq

namespace Package

def isBundled (p : Package) : Bool := !p.copyrightPaths.isEmpty

/-- The name of the package in a directory: the last name of the path, or the whole
    path if it has none. -/
def nameOf (dir : Path) : Text := Path.shown (dir.name?.getD dir)

end Package

structure Report where
  output : Path
  projectLabel : Text
  sublicenses : List Text
  packages : List Package
  deriving DecidableEq

namespace Report

def bundled (r : Report) : List Package := r.packages.filter Package.isBundled

def missing (r : Report) : List Package := r.packages.filter fun p => !p.isBundled

def fileCount (r : Report) : Nat := (r.packages.flatMap (·.copyrightPaths)).length

end Report

end Attribution
