/-
  Attribution.Proofs.Failing — what a run that fails leaves behind.

  (1) A report has no manifest iff a path in it is no text (`render?_eq_none_iff`).

  (2) Whatever fails up to the writing of the bundle fails for another reason
  (`gather_ne_pathNotText`, `load_ne_pathNotText`), and it leaves the tree as it was
  (`collect_eq_error`).

  (3) A run that gets to its report has written the bundle (`Reporting.written`), and
  the manifest is all that can still fail. So a run that fails leaves the tree as it was,
  unless its manifest fails: then the bundle is in the output file (`run_failed`,
  `output_lost`).
-/
import Attribution.Run
import Attribution.Proofs.Writing
import Mathlib.Data.List.Basic

namespace Attribution

open Text

/-! ## (1) Reports without a manifest -/

def Report.paths (r : Report) : List Path :=
  r.output :: r.packages.flatMap fun p => p.path :: p.copyrightPaths

theorem mapM_eq_none_iff {α β : Type} {f : α → Option β} {xs : List α} : xs.mapM f = none ↔ ∃ x ∈ xs, f x = none := by
  induction xs with
  | nil => simp
  | cons x xs ih =>
    rw [List.mapM_cons, List.exists_mem_cons_iff, ← ih]
    cases f x <;> cases xs.mapM f <;> simp

namespace Manifest

theorem path?_eq_none_iff {p : Path} : path? p = none ↔ decode? p = none := Option.map_eq_none_iff

theorem package?_eq_none_iff {depth : Nat} {p : Package} :
    package? depth p = none ↔ ∃ q ∈ p.path :: p.copyrightPaths, decode? q = none := by
  rw [List.exists_mem_cons_iff, ← path?_eq_none_iff, package?]
  simp only [← path?_eq_none_iff, ← mapM_eq_none_iff]
  cases path? p.path <;> cases p.copyrightPaths.mapM path? <;> simp

theorem render?_eq_none_iff {r : Report} : render? r = none ↔ ∃ p ∈ r.paths, decode? p = none := by
  have hpackages : (∃ p ∈ r.packages.flatMap fun p => p.path :: p.copyrightPaths, decode? p = none) ↔
      r.packages.mapM (package? 2) = none := by
    simp only [mapM_eq_none_iff, package?_eq_none_iff, List.mem_flatMap]
    constructor
    · rintro ⟨q, ⟨p, hp, hq⟩, hnone⟩
      exact ⟨p, hp, q, hq, hnone⟩
    · rintro ⟨p, hp, q, hq, hnone⟩
      exact ⟨q, ⟨p, hp, hq⟩, hnone⟩
  rw [Report.paths, List.exists_mem_cons_iff, hpackages, ← path?_eq_none_iff, render?]
  cases path? r.output <;> cases r.packages.mapM (package? 2) <;> simp

end Manifest

/-! ## (2) Failures before the report -/

section Steps

variable {ε ε' α β : Type} {x : Except ε α} {e : ε}

theorem bind_ne_error {f : α → Except ε β} (hx : x ≠ .error e) (hf : ∀ a, f a ≠ .error e) : x >>= f ≠ .error e := by
  cases x with
  | error e' => exact fun h => hx (congrArg Except.error (Except.error.inj h))
  | ok a => exact hf a

theorem mapError_ne_error {f : ε → ε'} {e' : ε'} (hf : ∀ e, f e ≠ e') : x.mapError f ≠ .error e' := by
  cases x with
  | error e => exact fun h => hf e (Except.error.inj h)
  | ok a => exact nofun

end Steps

namespace Tree

variable (t : Tree) (here : Location)

theorem readLicense_ne_pathNotText (p : Path) : t.readLicense here p ≠ .error .pathNotText :=
  mapError_ne_error nofun

theorem readLicenses_ne_pathNotText (ps : List Path) : t.readLicenses here ps ≠ .error .pathNotText := by
  induction ps with
  | nil => exact nofun
  | cons p ps ih => exact bind_ne_error (t.readLicense_ne_pathNotText here p) fun _ => bind_ne_error ih nofun

theorem readPackage_ne_pathNotText (name : Text) (dir : Path) : t.readPackage here name dir ≠ .error .pathNotText :=
  bind_ne_error (mapError_ne_error nofun) fun paths => bind_ne_error (t.readLicenses_ne_pathNotText here paths) nofun

theorem gatherSublicenses_ne_pathNotText (ss : List Sublicense) (g : Gathering) :
    (t.gatherSublicenses here ss g).2 ≠ some .pathNotText := by
  induction ss generalizing g with
  | nil => exact nofun
  | cons s ss ih =>
    rw [gatherSublicenses]
    cases h : t.readLicense here s.path with
    | error f =>
      rintro ⟨⟩
      exact t.readLicense_ne_pathNotText here _ h
    | ok text => exact ih _

theorem gatherPackages_ne_pathNotText (name : Text) (dirs : List Path) (g : Gathering) :
    (t.gatherPackages here name dirs g).2 ≠ some .pathNotText := by
  induction dirs generalizing g with
  | nil => exact nofun
  | cons dir dirs ih =>
    rw [gatherPackages]
    cases h : t.readPackage here name dir with
    | error f =>
      rintro ⟨⟩
      exact t.readPackage_ne_pathNotText here _ _ h
    | ok x => exact ih _

theorem gather_ne_pathNotText (o : Order) (bar : Progress) : (t.gather here o bar).2 ≠ some .pathNotText := by
  rw [gather]
  cases h : t.readLicense here o.license with
  | error f =>
    rintro ⟨⟩
    exact t.readLicense_ne_pathNotText here _ h
  | ok text =>
    simp only
    have hsub := t.gatherSublicenses_ne_pathNotText here o.sublicenses ((Gathering.start bar).push o.label text)
    rcases hs : t.gatherSublicenses here o.sublicenses ((Gathering.start bar).push o.label text) with ⟨g, _ | f⟩
    case some =>
      rw [hs] at hsub
      exact hsub
    simp only
    cases t.subdirectories? here o.cacheRoot with
    | none => exact fun e => nomatch e
    | some dirs => exact t.gatherPackages_ne_pathNotText here _ _ _

variable {t here}

/-- Gathering and writing leave the tree as it was if they fail. -/
theorem collect_eq_error {t' : Tree} {o : Order} {output : Path} {bar : Progress} {g : Gathering} {f : Failure}
    (h : t.collect here o output bar = (t', g, some f)) : t' = t ∧ f ≠ .pathNotText := by
  have hgather := t.gather_ne_pathNotText here o bar
  rw [collect] at h
  rcases hg : t.gather here o bar with ⟨g₁, _ | f₁⟩
  · rw [hg] at h
    simp only at h
    cases hw : t.write here output (encode g₁.bundle.render) with
    | ok t₁ =>
      rw [hw] at h
      cases h
    | error c =>
      rw [hw] at h
      cases h
      exact ⟨rfl, by simp⟩
  · rw [hg] at h hgather
    cases h
    exact ⟨rfl, fun h => hgather (congrArg some h)⟩

/-- What is written is all that has been gathered. -/
theorem collect_eq_ok {t' : Tree} {o : Order} {output : Path} {bar : Progress} {g : Gathering}
    (h : t.collect here o output bar = (t', g, none)) :
    ∃ g₁, t.gather here o bar = (g₁, none) ∧ g = { g₁ with progress := g₁.progress.finish } ∧
      t.write here output (encode g₁.bundle.render) = .ok t' := by
  rw [collect] at h
  rcases hg : t.gather here o bar with ⟨g₁, _ | f₁⟩
  case some =>
    rw [hg] at h
    cases h
  rw [hg] at h
  simp only at h
  cases hw : t.write here output (encode g₁.bundle.render) with
  | error c =>
    rw [hw] at h
    cases h
  | ok t₁ =>
    rw [hw] at h
    cases h
    exact ⟨g₁, rfl, rfl, hw⟩

end Tree

theorem Settings.read_ne_pathNotText (t : Tree) (here : Location) (p : Path) :
    Settings.read t here p ≠ .error .pathNotText := by
  rw [Settings.read]
  split
  · exact nofun
  · split <;> exact nofun

theorem Settings.load_ne_pathNotText (t : Tree) (here : Location) (env : Environment) (project : Path)
    (named : Option Path) : Settings.load t here env project named ≠ .error .pathNotText := by
  have hread := Settings.read_ne_pathNotText t here
  cases named with
  | some p => exact hread p
  | none =>
    simp only [Settings.load]
    split
    · exact hread _
    · split
      · split
        · exact hread _
        · exact nofun
      · exact nofun

/-! ## (3) Runs that fail -/

namespace Run

/-- A run gets to its report: the words are read, the settings found, and the bundle gathered
    and written. -/
structure Reporting (t : Tree) (here : Location) (env : Environment) (args : List Bytes) (o : Options)
    (s : Settings) (g : Gathering) (t' : Tree) : Prop where
  parse : CommandLine.parse args = .ok o
  settings : ∃ found, Settings.load t here env (t.canonical here o.path) o.config = .ok found ∧
    s = (override found o).resolve (t.canonical here o.path)
  collect : t.collect here (order t here env (t.canonical here o.path) s) s.output (bar o.quiet) = (t', g, none)

variable {t t' : Tree} {here : Location} {env : Environment} {args : List Bytes} {o : Options} {s : Settings}
  {g : Gathering} {f : Failure}

/-- The bundle is written by the time of the report. -/
theorem Reporting.written (h : Reporting t here env args o s g t') :
    ∃ l, t.Written t' here s.output (encode g.bundle.render) l := by
  obtain ⟨g₁, -, rfl, hwrite⟩ := Tree.collect_eq_ok h.collect
  exact Tree.write_eq_ok hwrite

def Unprintable (o : Options) (r : Report) : Prop := o.report = .json ∧ ∃ p ∈ r.paths, decode? p = none

theorem printed?_eq_none_iff (color : Bool) (o : Options) (project : Path) (r : Report) :
    printed? color o project r = none ↔ Unprintable o r := by
  rw [printed?, Unprintable]
  cases o.report with
  | terminal => simp
  | json => simp [Manifest.render?_eq_none_iff]

/-- A run that gets to its report fails iff the report is unprintable, and leaves the bundle in
    any case. -/
theorem Reporting.run_eq (h : Reporting t here env args o s g t') : (run t here env args).tree = t' ∧
    ((run t here env args).ending = .failed f ↔ f = .pathNotText ∧ Unprintable o (report s g)) := by
  obtain ⟨found, hload, rfl⟩ := h.settings
  rw [run, h.parse, ← printed?_eq_none_iff (color env) o (t.canonical here o.path)]
  simp only [withOptions, hload, withSettings, h.collect]
  cases printed? (color env) o (t.canonical here o.path) (report _ g) with
  | none =>
    refine ⟨rfl, fun e => ?_, ?_⟩
    · cases e
      exact ⟨rfl, rfl⟩
    · rintro ⟨rfl, -⟩
      rfl
  | some out =>
    refine ⟨rfl, fun e => ?_, nofun⟩
    simp only at e
    split at e <;> cases e

/-- A run that fails leaves the tree as it was, unless it gets to its report. -/
theorem reporting_of_failed (h : (run t here env args).ending = .failed f) :
    (f ≠ .pathNotText ∧ (run t here env args).tree = t) ∨
      ∃ o s g, Reporting t here env args o s g (run t here env args).tree := by
  cases hparse : CommandLine.parse args with
  | error stop =>
    rw [run, hparse] at h
    cases stop <;> cases h
  | ok o =>
    cases hload : Settings.load t here env (t.canonical here o.path) o.config with
    | error f' =>
      left
      rw [run, hparse] at h ⊢
      simp only [withOptions, hload] at h ⊢
      cases h
      exact ⟨fun e => Settings.load_ne_pathNotText _ _ _ _ _ (e ▸ hload), trivial⟩
    | ok found =>
      rcases hcollect : t.collect here (order t here env (t.canonical here o.path)
        ((override found o).resolve (t.canonical here o.path)))
        ((override found o).resolve (t.canonical here o.path)).output (bar o.quiet) with ⟨t', g, _ | f'⟩
      · have hreporting : Reporting t here env args o _ g t' := ⟨hparse, ⟨found, hload, rfl⟩, hcollect⟩
        rw [(hreporting.run_eq (f := f)).1]
        exact .inr ⟨o, _, g, hreporting⟩
      · left
        obtain ⟨rfl, hne⟩ := Tree.collect_eq_error hcollect
        rw [run, hparse] at h ⊢
        simp only [withOptions, hload, withSettings, hcollect] at h ⊢
        cases h
        exact ⟨hne, trivial⟩

/-- A run that fails leaves the tree as it was, unless what fails is its manifest. That fails iff
    the run gets to its report and the report is unprintable, and then the bundle is in the output
    file. -/
theorem run_failed (h : (run t here env args).ending = .failed f) :
    (f ≠ .pathNotText → (run t here env args).tree = t) ∧
      (f = .pathNotText ↔ ∃ o s g l, Reporting t here env args o s g (run t here env args).tree ∧
        Unprintable o (report s g) ∧
        t.Written (run t here env args).tree here s.output (encode g.bundle.render) l) := by
  rcases reporting_of_failed h with ⟨hne, hsame⟩ | ⟨o, s, g, hreporting⟩
  · refine ⟨fun _ => hsame, fun hf => absurd hf hne, ?_⟩
    rintro ⟨o, s, g, -, hreporting, -, -⟩
    exact (hreporting.run_eq.2.mp h).1
  · obtain ⟨hf, hunprintable⟩ := hreporting.run_eq.2.mp h
    obtain ⟨l, hwritten⟩ := hreporting.written
    exact ⟨fun hne => absurd hf hne, fun _ => ⟨o, s, g, l, hreporting, hunprintable, hwritten⟩, fun _ => hf⟩

/-! ### A run that fails late -/

open Attribution.Path (ofString)

/-- A project without packages, and a file whose name is no text. -/
def attic : Tree where
  entries := [([ofString "COPYING.md"], .file (ofString "ours")), ([[0xFF]], .file (ofString "before")),
    ([ofString "vcpkg"], .directory), ([ofString "vcpkg", ofString "packages"], .directory)]
  wellFormed := ⟨by decide, by decide, by decide, by decide⟩

def bareEnvironment : Environment := ⟨none, none, none⟩

def lateArgs : List Bytes := [ofString "--report", ofString "json", ofString "--quiet", ofString "--output", [0xFF]]

def lateOptions : Options := { Options.default with report := .json, quiet := true, output := some [0xFF] }

def lateSettings : Settings := (override .default lateOptions).resolve (attic.canonical [] lateOptions.path)

theorem subdirectories?_attic : attic.subdirectories? [] (ofString "/vcpkg/packages") = some [] := by
  have hnames : attic.names [ofString "vcpkg", ofString "packages"] = [] := by decide
  have hsorted : attic.sortedNames [ofString "vcpkg", ofString "packages"] = [] := by
    rw [Tree.sortedNames, hnames, List.mergeSort_nil]
  rw [Tree.subdirectories?,
    show attic.resolve [] (ofString "/vcpkg/packages") = .ok [ofString "vcpkg", ofString "packages"] from rfl]
  simp only [hsorted]
  rfl

theorem gather_attic :
    ∃ g, attic.gather [] (order attic [] bareEnvironment (attic.canonical [] lateOptions.path) lateSettings)
      (bar lateOptions.quiet) = (g, none) ∧
      g.bundle = ⟨[⟨"AFV Native".toList, ["ours".toList]⟩]⟩ := by
  rw [show order attic [] bareEnvironment (attic.canonical [] lateOptions.path) lateSettings =
    ⟨"AFV Native".toList, ofString "/COPYING.md", [], ofString "/vcpkg/packages", "copyright".toList⟩ from rfl,
    Tree.gather, show attic.readLicense [] (ofString "/COPYING.md") = .ok "ours".toList from rfl]
  simp only [Tree.gatherSublicenses, subdirectories?_attic, Tree.gatherPackages]
  exact ⟨_, rfl, rfl⟩

theorem reporting_attic : ∃ g, Reporting attic [] bareEnvironment lateArgs lateOptions lateSettings g
    (attic.setContent [[0xFF]] (ofString "AFV Native\n\nours\n\n")) := by
  obtain ⟨g, hg, hbundle⟩ := gather_attic
  refine ⟨{ g with progress := g.progress.finish }, rfl, ⟨_, rfl, rfl⟩, ?_⟩
  rw [Tree.collect, hg]
  simp only [hbundle]
  rfl

theorem ending_attic : (run attic [] bareEnvironment lateArgs).ending = .failed .pathNotText := by
  obtain ⟨g, hg⟩ := reporting_attic
  exact hg.run_eq.2.mpr ⟨rfl, rfl, lateSettings.output, List.mem_cons_self, rfl⟩

theorem run_failed_attic : (run attic [] bareEnvironment lateArgs).ending = .failed .pathNotText ∧
    ∃ o s g l, Reporting attic [] bareEnvironment lateArgs o s g (run attic [] bareEnvironment lateArgs).tree ∧
      Unprintable o (report s g) ∧
      attic.Written (run attic [] bareEnvironment lateArgs).tree [] s.output (encode g.bundle.render) l :=
  ⟨ending_attic, (run_failed ending_attic).2.mp rfl⟩

/-- A run that fails has written over its output file. -/
theorem output_lost : (run attic [] bareEnvironment lateArgs).ending = .failed .pathNotText ∧
    attic.readBytes [] [0xFF] = .ok (ofString "before") ∧
    (run attic [] bareEnvironment lateArgs).tree.readBytes [] [0xFF] = .ok (ofString "AFV Native\n\nours\n\n") := by
  obtain ⟨g, hg⟩ := reporting_attic
  refine ⟨ending_attic, rfl, ?_⟩
  rw [(hg.run_eq (f := .pathNotText)).1]
  rfl

end Run

end Attribution
