/-
  Attribution.Run — one run of the program.

  A run reads the command line, then the settings, and gathers and writes the bundle;
  last it reports. What the command line says wins over the settings file, and paths
  are resolved after that. The run ends with a failure, with a package missing where
  that counts as one, or well. The tree it leaves is part of its outcome.
-/
import Attribution.CommandLine.Help
import Attribution.Manifest
import Attribution.Settings.File
import Attribution.Terminal.Summary

namespace Attribution

open CommandLine (UsageError)

inductive Ending where
  | done
  /-- A package has no copyright file, and that was not to be. -/
  | missing
  | usage (e : UsageError)
  | failed (f : Failure)

def Ending.status : Ending → Nat
  | .done => 0
  | .missing => 1
  | .usage _ => 2
  | .failed _ => 1

structure Outcome where
  tree : Tree
  stdout : Text
  stderr : Text
  ending : Ending

namespace Run

/-- Colours are on if they are forced, by any text but `0`. -/
def color (env : Environment) : Bool :=
  match env.forceColor.bind Text.decode? with
  | some s => s != ['0']
  | none => false

def override (s : Settings) (o : Options) : Settings :=
  { s with
    license := o.license.getD s.license
    cacheRoot := o.cacheRoot <|> s.cacheRoot
    output := o.output.getD s.output }

def order (t : Tree) (here : Location) (env : Environment) (project : Path) (s : Settings) : Order where
  label := s.label
  license := s.license
  sublicenses := s.sublicenses
  cacheRoot := s.cacheRoot.getD (Settings.findCacheRoot t here env project)
  copyrightFile := s.copyrightFile

def told (color : Bool) (o : Order) (g : Gathering) : Text :=
  Notice.arrow color ("Scanning ".toList ++ Style.bold.paint color o.cacheRoot.shown) ++
    g.told color

/-- The bar of a run: one of length zero, or in a quiet run one that is not shown. -/
def bar (quiet : Bool) : Progress := .fresh (if quiet then none else some 0)

def report (s : Settings) (g : Gathering) : Report where
  output := s.output
  projectLabel := s.label
  sublicenses := s.sublicenses.map (·.label)
  packages := g.packages

/-- The report in the format asked for; none if it cannot be written so. -/
def printed? (color : Bool) (o : Options) (project : Path) (r : Report) : Option Text :=
  match o.report with
  | .terminal => some (Summary.render color o.verbose o.quiet project r)
  | .json => (Manifest.render? r).map (· ++ ['\n'])

def withSettings (t : Tree) (here : Location) (env : Environment) (o : Options) (project : Path)
    (found : Settings) : Outcome :=
  let settings := (override found o).resolve project
  let order := order t here env project settings
  let (t', g, failure) := t.collect here order settings.output (bar o.quiet)
  let stderr := if o.quiet then [] else told (color env) order g
  match failure with
  | some f => ⟨t', [], stderr ++ f.report, .failed f⟩
  | none =>
    let r := report settings g
    match printed? (color env) o project r with
    | none => ⟨t', [], stderr ++ Failure.pathNotText.report, .failed .pathNotText⟩
    | some out => ⟨t', out, stderr, if o.strict && !r.missing.isEmpty then .missing else .done⟩

def withOptions (t : Tree) (here : Location) (env : Environment) (o : Options) : Outcome :=
  let project := t.canonical here o.path
  match Settings.load t here env project o.config with
  | .error f => ⟨t, [], f.report, .failed f⟩
  | .ok found => withSettings t here env o project found

end Run

def run (t : Tree) (here : Location) (env : Environment) (args : List Bytes) : Outcome :=
  match CommandLine.parse args with
  | .ok o => Run.withOptions t here env o
  | .error .help => ⟨t, CommandLine.helpText, [], .done⟩
  | .error .version => ⟨t, CommandLine.versionText, [], .done⟩
  | .error (.wrong e) => ⟨t, [], e.report, .usage e⟩

end Attribution
