/-
  Attribution.Settings — what a run is set to do.

  (1) The settings and their defaults, and how paths in them are resolved against a
  project directory: every path is joined to it, nothing else changes.

  (2) Where the cache root is looked for when none is set: in the project, then
  where the environment says. If neither is a directory, the one in the project is
  taken, so that it is the one reported as missing.
-/
import Attribution.Gathering

namespace Attribution

structure Settings where
  label : Text
  license : Path
  /-- `none`: to be looked for. -/
  cacheRoot : Option Path
  copyrightFile : Text
  output : Path
  sublicenses : List Sublicense
  deriving DecidableEq

structure Environment where
  home : Option Path
  vcpkgRoot : Option Path
  /-- The value that asks for colours where they would be off. -/
  forceColor : Option Bytes

namespace Settings

/-! ## (1) Settings -/

def default : Settings where
  label := "AFV Native".toList
  license := Path.ofString "COPYING.md"
  cacheRoot := none
  copyrightFile := "copyright".toList
  output := Path.ofString "ALL_LICENSES.txt"
  sublicenses := []

def resolve (s : Settings) (project : Path) : Settings :=
  { s with
    license := project.join s.license
    output := project.join s.output
    cacheRoot := s.cacheRoot.map project.join
    sublicenses := s.sublicenses.map fun x => { x with path := project.join x.path } }

/-! ## (2) The cache root -/

/-- The directory in which the package manager keeps packages, seen from the
    project. -/
def localCache (project : Path) : Path :=
  (project.join (Path.ofString "vcpkg")).join (Path.ofString "packages")

def findCacheRoot (t : Tree) (here : Location) (env : Environment) (project : Path) : Path :=
  if t.isDirectory here (localCache project) then localCache project
  else match env.vcpkgRoot.map (·.join (Path.ofString "packages")) with
    | some shared => if t.isDirectory here shared then shared else localCache project
    | none => localCache project

end Settings

end Attribution
