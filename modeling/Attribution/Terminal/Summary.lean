/-
  Attribution.Terminal.Summary — the report as it is read on a terminal.

  A box tells what was counted, a first table lists the packages without a
  copyright file, and a second one, if asked for, all others. What stands in the box
  is padded by characters, before it is styled; a longer row pushes the border out.
-/
import Attribution.Package
import Attribution.Terminal.Style
import Attribution.Terminal.Table

namespace Attribution.Summary

open Text

def programName : Text := "license-bundler".toList

def version : Text := "0.1.0".toList

/-! ## Counts -/

def missingCount (r : Report) : Nat := r.packages.length - r.bundled.length

/-- Taking them off never goes below zero, and leaves the packages without a copyright file. -/
theorem missingCount_eq (r : Report) :
    r.bundled.length ≤ r.packages.length ∧ missingCount r = r.missing.length := by
  have hsplit := List.length_eq_countP_add_countP Package.isBundled (l := r.packages)
  have hmissing : r.packages.countP (fun p => decide (¬p.isBundled = true)) = r.missing.length := by
    simp only [Report.missing, ← List.countP_eq_length_filter, Bool.not_eq_true, Bool.decide_eq_false]
  have hbundled : r.packages.countP Package.isBundled = r.bundled.length := List.countP_eq_length_filter
  rw [missingCount]
  omega

/-! ## Risks -/

/-- The classes in the order of their titles. -/
def classes : List Risk := [.permissive, .proprietary, .strongCopyleft, .unknown, .weakCopyleft]

/-- The classes of the bundled packages with their counts: the greater count first,
    of equal counts the smaller title. -/
def rankedRisks (r : Report) : List (Risk × Nat) :=
  ((classes.map fun c => (c, r.bundled.countP fun p => p.risk = c)).filter fun x => 0 < x.2).mergeSort
    fun a b => decide (b.2 ≤ a.2)

def topRisks (r : Report) : Text :=
  match (rankedRisks r).take 2 with
  | [] => []
  | top =>
    let shown := top.map fun (c, n) => c.title ++ " (".toList ++ ofNat n ++ ")".toList
    '[' :: List.intercalate ", ".toList shown ++ [']']

/-! ## The box -/

def border (left right : Char) : Text := ' ' :: left :: List.replicate 52 '─' ++ [right]

def row (t : Text) : Text := " │  ".toList ++ padRight 48 t ++ " │".toList

def signRow (sign t : Text) : Text :=
  " │  ".toList ++ sign ++ "  ".toList ++ padRight 45 t ++ " │".toList

def headRow (color : Bool) : Text :=
  " │  ".toList ++ Style.bold.paint color (padRight 48 "SUMMARY".toList) ++ " │".toList

def box (color : Bool) (r : Report) : List Text :=
  [border '┌' '┐',
    headRow color,
    row ("Project license    : ".toList ++ r.projectLabel),
    row ("Sub-licenses       : ".toList ++ ofNat r.sublicenses.length),
    row ("Packages scanned   : ".toList ++ ofNat r.packages.length),
    signRow (Style.green.paint color "✓".toList)
      ("Bundled         : ".toList ++ padLeft 4 (ofNat r.bundled.length) ++ "  ".toList ++ topRisks r),
    signRow (Style.yellow.paint color "⚠".toList)
      ("No license      : ".toList ++ padLeft 4 (ofNat (missingCount r))),
    row ("Copyright files    : ".toList ++ ofNat r.fileCount),
    border '└' '┘']

/-! ## Tables -/

def missingTable (r : Report) : Table :=
  { header := ["Name".toList, "Path".toList]
    alignments := [.left, .left]
    rows := r.missing.map fun p => [p.name, p.path.shown] }

def bundledTable (r : Report) : Table :=
  { header := ["Name".toList, "Files".toList, "License".toList, "Risk".toList]
    alignments := [.left, .right, .left, .left]
    rows := r.bundled.map fun p =>
      [p.name, ofNat p.copyrightPaths.length, p.license.getD "unrecognized".toList, p.risk.title] }

def listing (sign headline : Text) (t : Table) : Text :=
  " ".toList ++ sign ++ " ".toList ++ headline ++ "\n\n".toList ++ t.render ++ "\n\n".toList

/-! ## The report -/

def brief (color : Bool) (r : Report) : Text :=
  "Packages: ".toList ++ ofNat r.packages.length ++
    "  Bundled: ".toList ++ Style.green.paint color (ofNat r.bundled.length) ++
    "  Missing: ".toList ++ Style.yellow.paint color (ofNat (missingCount r)) ++
    "  -> ".toList ++ r.output.shown ++ "\n".toList

def full (color verbose : Bool) (project : Path) (r : Report) : Text :=
  "\n ".toList ++ Style.bold.paint color programName ++ " v".toList ++ version ++ "\n".toList ++
    " Project: ".toList ++ project.shown ++ "\n\n".toList ++
    (box color r).flatMap (· ++ ['\n']) ++
    " Written to ".toList ++ Style.bold.paint color r.output.shown ++ "\n\n".toList ++
    (if 0 < missingCount r then
      listing (Style.boldYellow.paint color "[WARN]".toList)
        "Packages without a copyright file:".toList (missingTable r)
      else []) ++
    (if verbose && 0 < r.bundled.length then
      listing (Style.boldGreen.paint color "[OK]".toList) "Bundled packages:".toList (bundledTable r)
      else [])

def render (color verbose quiet : Bool) (project : Path) (r : Report) : Text :=
  if quiet then brief color r else full color verbose project r

end Attribution.Summary
