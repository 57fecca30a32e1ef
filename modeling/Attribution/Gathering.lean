/-
  Attribution.Gathering — bringing the license texts together.

  (1) The project's license comes first, then the sub-licenses in their order, then
  the packages below the cache root in the order of their names. All is read before
  anything is written. What has been gathered, noticed and counted so far is kept
  also when a step fails. The packages are counted on a bar that is attached to the
  gathering, from where it stands.

  (2) The bundle is written only after everything has been gathered, so that a
  failure leaves the tree as it was.
-/
import Attribution.Bundle
import Attribution.Detection
import Attribution.Failure
import Attribution.Package
import Attribution.Terminal.Style

namespace Attribution

/-- A project within the project, whose license follows the project's own. -/
structure Sublicense where
  label : Text
  path : Path
  deriving DecidableEq

structure Order where
  label : Text
  license : Path
  sublicenses : List Sublicense
  cacheRoot : Path
  /-- The name of the files that hold the license of a package. -/
  copyrightFile : Text

inductive Notice where
  | sublicense (label : Text)
  | package (name : Text) (files : Nat)
  deriving DecidableEq

structure Progress where
  /-- How many packages there are, once they have been listed. -/
  length : Option Nat
  /-- How many packages are done. -/
  position : Nat
  /-- The package begun last. -/
  message : Text
  finished : Bool
  deriving DecidableEq

structure Gathering where
  bundle : Bundle
  packages : List Package
  notices : List Notice
  progress : Progress

namespace Notice

def status (color : Bool) (files : Nat) : Text :=
  if files = 0 then Style.yellow.paint color "No license found!".toList
  else Style.green.paint color ("Found ".toList ++ Text.ofNat files ++ " licenses".toList)

def message (color : Bool) : Notice → Text
  | sublicense label => "Getting license for: ".toList ++ Style.bold.paint color label
  | package name files =>
    "Getting license for: ".toList ++ Style.bold.paint color name ++ " ".toList ++ status color files

def arrow (color : Bool) (t : Text) : Text :=
  "  ".toList ++ Style.cyan.paint color "→".toList ++ " ".toList ++ t ++ "\n".toList

def line (color : Bool) (n : Notice) : Text := arrow color (n.message color)

end Notice

def Package.notice (p : Package) : Notice := .package p.name p.copyrightPaths.length

namespace Progress

def fresh (length : Option Nat) : Progress := ⟨length, 0, [], false⟩

/-- The end of gathering: everything that there is counts as done. -/
def finish (p : Progress) : Progress := { p with position := p.length.getD p.position, finished := true }

end Progress

namespace Gathering

def start (bar : Progress) : Gathering := ⟨.empty, [], [], bar⟩

def note (g : Gathering) (n : Notice) : Gathering := { g with notices := g.notices ++ [n] }

def push (g : Gathering) (label text : Text) : Gathering := { g with bundle := g.bundle.push label text }

def begin (g : Gathering) (name : Text) : Gathering :=
  { g with progress := { g.progress with message := name } }

def complete (g : Gathering) (p : Package) (texts : List Text) : Gathering :=
  { bundle := if p.isBundled then g.bundle.pushAll p.name texts else g.bundle
    packages := g.packages ++ [p]
    notices := g.notices ++ [p.notice]
    progress := { g.progress with position := g.progress.position + 1 } }

def told (color : Bool) (g : Gathering) : Text := g.notices.flatMap (Notice.line color)

end Gathering

/-! ## (1) Reading -/

/-- A gathering up to where it stopped, and the failure it stopped at. -/
abbrev Gathered := Gathering × Option Failure

namespace Tree

def readLicense (t : Tree) (here : Location) (p : Path) : Except Failure Text :=
  (t.readText here p).mapError (.unreadable p)

def readLicenses (t : Tree) (here : Location) : List Path → Except Failure (List Text)
  | [] => .ok []
  | p :: ps => do
    let s ← t.readLicense here p
    let rest ← readLicenses t here ps
    return s :: rest

def readPackage (t : Tree) (here : Location) (copyrightFile : Text) (dir : Path) :
    Except Failure (Package × List Text) := do
  let paths ← (t.findFiles here dir (Text.encode copyrightFile)).mapError (.unwalkable dir)
  let texts ← t.readLicenses here paths
  let license := Detection.combine (texts.filterMap Detection.license)
  let risk := match license with
    | some e => Expression.risk e
    | none => .unknown
  return (⟨Package.nameOf dir, dir, paths, license, risk⟩, texts)

def gatherSublicenses (t : Tree) (here : Location) : List Sublicense → Gathering → Gathered
  | [], g => (g, none)
  | s :: rest, g =>
    let g := g.note (.sublicense s.label)
    match t.readLicense here s.path with
    | .error f => (g, some f)
    | .ok text => gatherSublicenses t here rest (g.push s.label text)

def gatherPackages (t : Tree) (here : Location) (copyrightFile : Text) :
    List Path → Gathering → Gathered
  | [], g => (g, none)
  | dir :: rest, g =>
    let g := g.begin (Package.nameOf dir)
    match t.readPackage here copyrightFile dir with
    | .error f => (g, some f)
    | .ok (p, texts) => gatherPackages t here copyrightFile rest (g.complete p texts)

/-- Gathers everything into a bundle. The bar goes on from where it stands; without one, the
    progress is counted on one that is not shown. -/
def gather (t : Tree) (here : Location) (o : Order) (bar : Progress := .fresh none) : Gathered :=
  match t.readLicense here o.license with
  | .error f => (.start bar, some f)
  | .ok text =>
    match t.gatherSublicenses here o.sublicenses ((Gathering.start bar).push o.label text) with
    | (g, some f) => (g, some f)
    | (g, none) => match t.subdirectories? here o.cacheRoot with
      | none => (g, some (.noCacheRoot o.cacheRoot))
      | some dirs =>
        t.gatherPackages here o.copyrightFile dirs
          { g with progress := { g.progress with length := some dirs.length } }

/-! ## (2) Writing -/

def collect (t : Tree) (here : Location) (o : Order) (output : Path) (bar : Progress := .fresh none) :
    Tree × Gathered :=
  let (g, failure) := t.gather here o bar
  let done := { g with progress := g.progress.finish }
  match failure with
  | some f => (t, done, some f)
  | none => match t.write here output (Text.encode g.bundle.render) with
    | .error c => (t, done, some (.unwritable output c))
    | .ok t' => (t', done, none)

end Tree

end Attribution
