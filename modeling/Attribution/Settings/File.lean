/-
  Attribution.Settings.File — settings in files.

  (1) A settings file is a TOML document. Every key is optional and falls back to its
  default by itself; keys that are not known are ignored. A group of settings may
  also be written as an array, in which the settings stand in a fixed order.

  (2) The file named on the command line is taken, else the one in the project, else
  the one in the home directory. One that is there but cannot be used is an error;
  no other is tried in its place.
-/
import Attribution.Settings
import Attribution.Toml.Document

namespace Attribution.Settings

open Toml (Value Fields)

/-! ## (1) Settings of a document -/

def text? : Option Value → Option (Option Text)
  | none => some none
  | some (.text s) => some (some s)
  | some _ => none

/-- The setting of a group with a key, or in a place if the group is an array. A date
    is a group without settings. -/
def setting? (group : Option Value) (key : Text) (place : Nat) : Option (Option Text) :=
  match group with
  | none => some none
  | some (.table _ fs) => text? (Fields.get? fs key)
  | some (.array vs) => text? vs[place]?
  | some (.tables rows) => text? (rows[place]?.map (Value.table .header))
  | some (.plain .dateTime) => some none
  | some _ => none

def sublicense? (v : Value) : Option Sublicense := do
  let label ← (← setting? (some v) "label".toList 0)
  let path ← (← setting? (some v) "path".toList 1)
  return ⟨label, Text.encode path⟩

def sublicenses? : Option Value → Option (List Sublicense)
  | none => some []
  | some (.array vs) => vs.mapM sublicense?
  | some (.tables rows) => rows.mapM fun fs => sublicense? (.table .header fs)
  | some _ => none

def ofFields? (fs : Fields) : Option Settings := do
  let label ← setting? (fs.get? "project".toList) "label".toList 0
  let license ← setting? (fs.get? "project".toList) "license".toList 1
  let cacheRoot ← setting? (fs.get? "dependencies".toList) "cache_root".toList 0
  let copyrightFile ← setting? (fs.get? "dependencies".toList) "copyright_file".toList 1
  let output ← setting? (fs.get? "output".toList) "path".toList 0
  let sublicenses ← sublicenses? (fs.get? "sublicense".toList)
  return {
    label := label.getD default.label
    license := (license.map Text.encode).getD default.license
    cacheRoot := cacheRoot.map Text.encode
    copyrightFile := copyrightFile.getD default.copyrightFile
    output := (output.map Text.encode).getD default.output
    sublicenses := sublicenses }

/-! ## (2) Which file -/

def read (t : Tree) (here : Location) (p : Path) : Except Failure Settings :=
  match t.readText here p with
  | .error c => .error (.configUnreadable p c)
  | .ok s => match (Toml.document? s).bind ofFields? with
    | some settings => .ok settings
    | none => .error (.configInvalid p)

def fileName : Path := Path.ofString "config.toml"

def projectFile (project : Path) : Path := (project.join (Path.ofString ".license-bundler")).join fileName

def homeFile (home : Path) : Path :=
  ((home.join (Path.ofString ".config")).join (Path.ofString "license-bundler")).join fileName

/-- The home directory, unless its name is empty. -/
def home? (env : Environment) : Option Path := env.home.filter (· ≠ [])

def load (t : Tree) (here : Location) (env : Environment) (project : Path) (named : Option Path) :
    Except Failure Settings :=
  match named with
  | some p => read t here p
  | none =>
    if t.pathExists here (projectFile project) then read t here (projectFile project)
    else match home? env with
      | some home =>
        if t.pathExists here (homeFile home) then read t here (homeFile home) else .ok default
      | none => .ok default

end Attribution.Settings
