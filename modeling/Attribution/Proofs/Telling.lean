/-
  Attribution.Proofs.Telling — how much a run tells changes nothing else.

  (1) What is gathered, noticed and written does not depend on the bar that the progress is
  counted on (`collect_alike`).

  (2) Two outcomes are alike if they differ only in the summary and in whether the notices
  stand before the failure, each as its command line has it (`Outcome.Alike`).

  (3) So runs whose command lines are the same without the flags for how much is told are
  alike, however they end (`run_mute`).
-/
import Attribution.Run
import Attribution.Proofs.Failing
import Attribution.Proofs.Muting

namespace Attribution

open Attribution.Path (ofString)

/-! ## (1) Bars -/

structure Gathering.Alike (g g' : Gathering) : Prop where
  bundle : g.bundle = g'.bundle
  packages : g.packages = g'.packages
  notices : g.notices = g'.notices

namespace Tree

variable (t : Tree) (here : Location) {g g' : Gathering}

theorem gatherSublicenses_alike (ss : List Sublicense) (h : g.Alike g') :
    (t.gatherSublicenses here ss g).1.Alike (t.gatherSublicenses here ss g').1 ∧
      (t.gatherSublicenses here ss g).2 = (t.gatherSublicenses here ss g').2 := by
  induction ss generalizing g g' with
  | nil => exact ⟨h, rfl⟩
  | cons s ss ih =>
    have hnoted : (g.note (.sublicense s.label)).Alike (g'.note (.sublicense s.label)) :=
      ⟨h.bundle, h.packages, congrArg (· ++ _) h.notices⟩
    rw [gatherSublicenses, gatherSublicenses]
    cases t.readLicense here s.path with
    | error f => exact ⟨hnoted, rfl⟩
    | ok text => exact ih ⟨congrArg (·.push s.label text) hnoted.bundle, hnoted.packages, hnoted.notices⟩

theorem gatherPackages_alike (file : Text) (dirs : List Path) (h : g.Alike g') :
    (t.gatherPackages here file dirs g).1.Alike (t.gatherPackages here file dirs g').1 ∧
      (t.gatherPackages here file dirs g).2 = (t.gatherPackages here file dirs g').2 := by
  induction dirs generalizing g g' with
  | nil => exact ⟨h, rfl⟩
  | cons dir dirs ih =>
    rw [gatherPackages, gatherPackages]
    cases t.readPackage here file dir with
    | error f => exact ⟨⟨h.bundle, h.packages, h.notices⟩, rfl⟩
    | ok x =>
      refine ih ⟨?_, congrArg (· ++ _) h.packages, congrArg (· ++ _) h.notices⟩
      exact congrArg (fun b : Bundle => if x.1.isBundled then b.pushAll x.1.name x.2 else b) h.bundle

theorem gather_alike (o : Order) (bar bar' : Progress) :
    (t.gather here o bar).1.Alike (t.gather here o bar').1 ∧
      (t.gather here o bar).2 = (t.gather here o bar').2 := by
  rw [gather, gather]
  cases t.readLicense here o.license with
  | error f => exact ⟨⟨rfl, rfl, rfl⟩, rfl⟩
  | ok text =>
    have hstart : ((Gathering.start bar).push o.label text).Alike ((Gathering.start bar').push o.label text) :=
      ⟨rfl, rfl, rfl⟩
    have hsub := t.gatherSublicenses_alike here o.sublicenses hstart
    revert hsub
    simp only
    rcases t.gatherSublicenses here o.sublicenses ((Gathering.start bar).push o.label text) with ⟨g, failure⟩
    rcases t.gatherSublicenses here o.sublicenses ((Gathering.start bar').push o.label text) with ⟨g', failure'⟩
    rintro ⟨halike : g.Alike g', rfl : failure = failure'⟩
    cases failure with
    | some f => exact ⟨halike, rfl⟩
    | none =>
      simp only
      cases t.subdirectories? here o.cacheRoot with
      | none => exact ⟨halike, rfl⟩
      | some dirs =>
        exact t.gatherPackages_alike here o.copyrightFile dirs ⟨halike.bundle, halike.packages, halike.notices⟩

theorem collect_alike (o : Order) (output : Path) (bar bar' : Progress) :
    (t.collect here o output bar).1 = (t.collect here o output bar').1 ∧
      (t.collect here o output bar).2.1.Alike (t.collect here o output bar').2.1 ∧
      (t.collect here o output bar).2.2 = (t.collect here o output bar').2.2 := by
  have hgather := t.gather_alike here o bar bar'
  revert hgather
  rw [collect, collect]
  rcases t.gather here o bar with ⟨g, failure⟩
  rcases t.gather here o bar' with ⟨g', failure'⟩
  rintro ⟨halike : g.Alike g', rfl : failure = failure'⟩
  cases failure with
  | some f => exact ⟨rfl, ⟨halike.bundle, halike.packages, halike.notices⟩, rfl⟩
  | none =>
    -- the same text is written, so it can be written or not for both
    simp only [halike.bundle]
    cases t.write here output (Text.encode g'.bundle.render) with
    | error c => exact ⟨rfl, ⟨rfl, halike.packages, halike.notices⟩, rfl⟩
    | ok t' => exact ⟨rfl, ⟨rfl, halike.packages, halike.notices⟩, rfl⟩

end Tree

/-! ## (2) Outcomes -/

def Ending.told : Ending → Text
  | .usage e => e.report
  | .failed f => f.report
  | .done | .missing => []

/-- Outcomes that differ in nothing but what two command lines say about how much is told: in
    the summary, and in whether the notices stand before what is said of the end. -/
structure Outcome.Alike (o o' : Options) (x x' : Outcome) : Prop where
  tree : x.tree = x'.tree
  ending : x.ending = x'.ending
  manifest : o.report = .json → x.stdout = x'.stdout
  summary : o.report = .terminal → x.stdout = x'.stdout ∨ ∃ color project r,
    x.stdout = Summary.render color o.verbose o.quiet project r ∧
      x'.stdout = Summary.render color o'.verbose o'.quiet project r
  notices : ∃ notices, x.stderr = (if o.quiet then [] else notices) ++ x.ending.told ∧
    x'.stderr = (if o'.quiet then [] else notices) ++ x'.ending.told

/-! ## (3) Runs -/

namespace Run

variable (t : Tree) (here : Location) (env : Environment)

/-- The notices come first, if they are told; then what is said of the end. -/
theorem withSettings_stderr (o : Options) (project : Path) (found : Settings) :
    let s := (override found o).resolve project
    (withSettings t here env o project found).stderr =
      (if o.quiet then [] else
        told (color env) (order t here env project s)
          (t.collect here (order t here env project s) s.output (bar o.quiet)).2.1) ++
      (withSettings t here env o project found).ending.told := by
  intro s
  simp only [withSettings]
  obtain ⟨t', g, failure⟩ := t.collect here (order t here env project s) s.output (bar o.quiet)
  cases failure with
  | some f => rfl
  | none =>
    cases printed? (color env) o project (report s g) with
    | none => rfl
    | some out =>
      have hended : (if o.strict && !(report s g).missing.isEmpty then Ending.missing else .done).told = [] := by
        split <;> rfl
      exact ((congrArg _ hended).trans (List.append_nil _)).symm

/-- Gathering and writing do not depend on how much is told, nor does the manifest. -/
theorem withSettings_same (o : Options) (verbose quiet : Bool) (project : Path) (found : Settings) :
    let x := withSettings t here env o project found
    let x' := withSettings t here env { o with verbose, quiet } project found
    x.tree = x'.tree ∧ x.ending = x'.ending ∧ (o.report = .json → x.stdout = x'.stdout) ∧
      (o.report = .terminal → x.stdout = x'.stdout ∨ ∃ r,
        x.stdout = Summary.render (color env) o.verbose o.quiet project r ∧
          x'.stdout = Summary.render (color env) verbose quiet project r) := by
  simp only [withSettings]
  rw [show override found { o with verbose, quiet } = override found o from rfl]
  generalize (override found o).resolve project = s
  have hcollect := t.collect_alike here (order t here env project s) s.output (bar o.quiet) (bar quiet)
  revert hcollect
  rcases t.collect here (order t here env project s) s.output (bar o.quiet) with ⟨t', g, failure⟩
  rcases t.collect here (order t here env project s) s.output (bar quiet) with ⟨t'', g', failure'⟩
  rintro ⟨rfl : t' = t'', halike : g.Alike g', rfl : failure = failure'⟩
  rw [show report s g' = report s g by rw [report, report, halike.packages]]
  cases failure with
  | some f => exact ⟨rfl, rfl, fun _ => rfl, fun _ => .inl rfl⟩
  | none =>
    simp only [printed?]
    cases o.report with
    | terminal =>
      refine ⟨rfl, rfl, ?_, fun _ => .inr ⟨report s g, rfl, rfl⟩⟩
      intro hjson
      cases hjson
    | json =>
      have hterminal : Format.json ≠ .terminal := by decide
      cases (Manifest.render? (report s g)).map (· ++ ['\n']) with
      | none => exact ⟨rfl, rfl, fun _ => rfl, fun h => absurd h hterminal⟩
      | some out => exact ⟨rfl, rfl, fun _ => rfl, fun h => absurd h hterminal⟩

theorem withSettings_alike (o : Options) (verbose quiet : Bool) (project : Path) (found : Settings) :
    Outcome.Alike o { o with verbose, quiet } (withSettings t here env o project found)
      (withSettings t here env { o with verbose, quiet } project found) := by
  obtain ⟨htree, hending, hmanifest, hsummary⟩ := withSettings_same t here env o verbose quiet project found
  let s := (override found o).resolve project
  have hcollect := t.collect_alike here (order t here env project s) s.output (bar o.quiet) (bar quiet)
  have htold : told (color env) (order t here env project s)
        (t.collect here (order t here env project s) s.output (bar o.quiet)).2.1 =
      told (color env) (order t here env project s)
        (t.collect here (order t here env project s) s.output (bar quiet)).2.1 := by
    rw [told, told, Gathering.told, Gathering.told, hcollect.2.1.notices]
  refine ⟨htree, hending, hmanifest, fun hterminal => ?_, _, ?_,
    withSettings_stderr t here env { o with verbose, quiet } project found⟩
  case refine_2 =>
    rw [withSettings_stderr t here env o project found, htold]
    rfl
  exact (hsummary hterminal).imp_right fun ⟨r, h⟩ => ⟨color env, project, r, h⟩

theorem withOptions_alike (o : Options) (verbose quiet : Bool) :
    Outcome.Alike o { o with verbose, quiet } (withOptions t here env o)
      (withOptions t here env { o with verbose, quiet }) := by
  unfold withOptions
  simp only
  cases Settings.load t here env (t.canonical here o.path) o.config with
  | error f =>
    refine ⟨rfl, rfl, fun _ => rfl, fun _ => .inl rfl, [], ?_, ?_⟩
    · rw [ite_self, List.nil_append]
      rfl
    · rw [ite_self, List.nil_append]
      rfl
  | ok found => exact withSettings_alike t here env o verbose quiet _ found

/-- Runs whose command lines are the same without the flags for how much is told end alike,
    so with the same status, and leave the same tree. -/
theorem run_mute {args args' : List Bytes} {o o' : Options} (hparse : CommandLine.parse args = .ok o)
    (hparse' : CommandLine.parse args' = .ok o') (hsame : CommandLine.mute args = CommandLine.mute args') :
    Outcome.Alike o o' (run t here env args) (run t here env args') := by
  have ho' := CommandLine.options_eq hparse hparse' hsame
  unfold run
  rw [hparse, hparse', ho']
  exact withOptions_alike t here env o o'.verbose o'.quiet

/-! ### A quiet run and one that tells all -/

def quietArgs : List Bytes := [ofString "--report", ofString "json", ofString "-qo", ofString "notice"]

def verboseArgs : List Bytes :=
  [ofString "--verbose", ofString "--report", ofString "json", ofString "-o", ofString "notice"]

def noticeOptions : Options := { Options.default with report := .json, output := some (ofString "notice") }

theorem run_mute_attic : CommandLine.parse quietArgs = .ok { noticeOptions with quiet := true } ∧
    CommandLine.parse verboseArgs = .ok { noticeOptions with verbose := true } ∧
    CommandLine.mute quietArgs = CommandLine.mute verboseArgs ∧
    (run attic [] bareEnvironment quietArgs).tree = (run attic [] bareEnvironment verboseArgs).tree ∧
    (run attic [] bareEnvironment quietArgs).stdout = (run attic [] bareEnvironment verboseArgs).stdout := by
  have hquiet : CommandLine.parse quietArgs = .ok { noticeOptions with quiet := true } := rfl
  have hverbose : CommandLine.parse verboseArgs = .ok { noticeOptions with verbose := true } := rfl
  have hsame : CommandLine.mute quietArgs = CommandLine.mute verboseArgs := rfl
  have halike := run_mute attic [] bareEnvironment hquiet hverbose hsame
  exact ⟨hquiet, hverbose, hsame, halike.tree, halike.manifest rfl⟩

end Run

end Attribution
