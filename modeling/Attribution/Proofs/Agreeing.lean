/-
  Attribution.Proofs.Agreeing — the views of what was bundled.

  (1) Each directory that is gone through gives one package, and one section if files of
  the name are beneath it (`Yields`). So the sections are those of the bundled packages in
  their order (`Yields.sections`), the packages that are bundled and those that are not are
  as many as the directories (`Yields.length_add`), the texts are as many as the files
  (`Yields.length_texts`), and there are fewer sections than directories iff some package
  is not bundled (`Yields.length_lt_iff`).

  (2) Gathering does this, behind the sections of the project and of the sub-licenses
  (`gatherPackages_yields`, `gather_yields`).

  (3) A full report ends with a table of the packages that are not bundled, and one of the
  others if asked for; a table without rows is left out (`full_eq`).

  (4) So what a run counts, lists and ends by are the packages that it has written sections
  for (`run_views`). A brief report has no tables (`no_table_when_quiet`).
-/
import Attribution.Proofs.Failing
import Attribution.Proofs.Inventory

namespace Attribution

open Text

namespace Tree

/-! ## (1) Directories, packages and sections -/

structure Describes (t : Tree) (here : Location) (file : Text) (dir : Path) (p : Package) : Prop where
  path : p.path = dir
  name : p.name = Package.nameOf dir
  found : t.findFiles here dir (encode file) = .ok p.copyrightPaths

/-- The packages and the sections that directories give, directory by directory. -/
inductive Yields (t : Tree) (here : Location) (file : Text) : List Path → List Package → List Section → Prop
  | none : Yields t here file [] [] []
  | bundled {dir : Path} {p : Package} {texts : List Text} {dirs : List Path} {ps : List Package} {ss : List Section} :
      t.Describes here file dir p → p.isBundled = true → t.readLicenses here p.copyrightPaths = .ok texts →
      Yields t here file dirs ps ss → Yields t here file (dir :: dirs) (p :: ps) (⟨p.name, texts⟩ :: ss)
  | missing {dir : Path} {p : Package} {dirs : List Path} {ps : List Package} {ss : List Section} :
      t.Describes here file dir p → p.isBundled = false → Yields t here file dirs ps ss →
      Yields t here file (dir :: dirs) (p :: ps) ss

variable {t : Tree} {here : Location} {file : Text} {dirs : List Path} {ps : List Package} {ss : List Section}

theorem length_readLicenses {paths : List Path} {texts : List Text} (h : t.readLicenses here paths = .ok texts) :
    texts.length = paths.length := by
  obtain ⟨files, rfl, rfl, -⟩ := readLicenses_eq_ok h
  rw [List.length_map, List.length_map]

/-- A section has the name of its package and the texts of its files. -/
theorem Yields.sections (h : t.Yields here file dirs ps ss) :
    List.Forall₂ (fun p s => s.label = p.name ∧ t.readLicenses here p.copyrightPaths = .ok s.texts)
      (ps.filter Package.isBundled) ss := by
  induction h with
  | none => exact .nil
  | bundled _ hbundled htexts _ ih =>
    rw [List.filter_cons_of_pos hbundled]
    exact .cons ⟨rfl, htexts⟩ ih
  | missing _ hmissing _ ih =>
    rw [List.filter_cons_of_neg (by simp [hmissing])]
    exact ih

theorem Yields.describes (h : t.Yields here file dirs ps ss) : List.Forall₂ (t.Describes here file) dirs ps := by
  induction h with
  | none => exact .nil
  | bundled hp _ _ _ ih => exact .cons hp ih
  | missing hp _ _ ih => exact .cons hp ih

theorem Yields.length_add (h : t.Yields here file dirs ps ss) :
    (ps.filter Package.isBundled).length + (ps.filter fun p => !p.isBundled).length = dirs.length := by
  rw [h.describes.length_eq, List.length_eq_length_filter_add (l := ps) Package.isBundled]

theorem Yields.length_texts (h : t.Yields here file dirs ps ss) :
    (ss.flatMap Section.texts).length = (ps.flatMap Package.copyrightPaths).length := by
  induction h with
  | none => rfl
  | bundled _ _ htexts _ ih =>
    rw [List.flatMap_cons, List.flatMap_cons, List.length_append, List.length_append, ih, length_readLicenses htexts]
  | @missing _ p _ _ _ _ hmissing _ ih =>
    have hnone : p.copyrightPaths = [] := by simpa [Package.isBundled] using hmissing
    rw [List.flatMap_cons, hnone, List.nil_append, ih]

theorem Yields.length_lt_iff (h : t.Yields here file dirs ps ss) :
    ss.length < dirs.length ↔ (ps.filter fun p => !p.isBundled) ≠ [] := by
  have hsections := h.sections.length_eq
  have hadd := h.length_add
  rw [← List.length_pos_iff]
  omega

/-! ## (2) Gathering -/

/-- Each package that is done is one more, and its section goes behind those before it. -/
theorem gatherPackages_yields {g g' : Gathering} (h : t.gatherPackages here file dirs g = (g', none)) :
    ∃ ps ss, t.Yields here file dirs ps ss ∧ g'.packages = g.packages ++ ps ∧
      g'.bundle.sections = g.bundle.sections ++ ss := by
  -- The directories that are left start from what the first one has added.
  induction dirs generalizing g with
  | nil =>
    cases h
    exact ⟨[], [], .none, (List.append_nil _).symm, (List.append_nil _).symm⟩
  | cons dir dirs ih =>
    obtain ⟨x, hx, h⟩ := gatherPackages_cons_eq_iff.mp h
    obtain ⟨paths, hpaths, htexts, hp⟩ := readPackage_eq_ok hx
    obtain ⟨ps, ss, hyields, hpackages, hsections⟩ := ih h
    have hdescribes : t.Describes here file dir x.1 := by
      rw [hp]
      exact ⟨rfl, rfl, hpaths⟩
    have htexts : t.readLicenses here x.1.copyrightPaths = .ok x.2 := by
      rw [hp]
      exact htexts
    have hdone : g'.packages = g.packages ++ x.1 :: ps := by
      rw [hpackages]
      exact List.append_assoc _ [x.1] ps
    by_cases hbundled : x.1.isBundled = true
    · refine ⟨x.1 :: ps, ⟨x.1.name, x.2⟩ :: ss, .bundled hdescribes hbundled htexts hyields, hdone, ?_⟩
      rw [hsections, Gathering.complete, if_pos hbundled]
      exact List.append_assoc _ [_] ss
    · refine ⟨x.1 :: ps, ss, .missing hdescribes (Bool.not_eq_true _ ▸ hbundled) hyields, hdone, ?_⟩
      rw [hsections, Gathering.complete, if_neg hbundled]
      rfl

structure Presents (t : Tree) (here : Location) (x : Sublicense) (s : Section) : Prop where
  label : s.label = x.label
  texts : ∃ text, t.readLicense here x.path = .ok text ∧ s.texts = [text]

theorem gatherSublicenses_presents {xs : List Sublicense} {g g' : Gathering}
    (h : t.gatherSublicenses here xs g = (g', none)) :
    ∃ ss, List.Forall₂ (t.Presents here) xs ss ∧ g'.packages = g.packages ∧
      g'.bundle.sections = g.bundle.sections ++ ss := by
  induction xs generalizing g with
  | nil =>
    cases h
    exact ⟨[], .nil, rfl, (List.append_nil _).symm⟩
  | cons x xs ih =>
    obtain ⟨text, htext, h⟩ := gatherSublicenses_cons_eq_iff.mp h
    obtain ⟨ss, hpresents, hpackages, hsections⟩ := ih h
    refine ⟨⟨x.label, [text]⟩ :: ss, .cons ⟨rfl, text, htext, rfl⟩ hpresents, hpackages, ?_⟩
    rw [hsections]
    exact List.append_assoc _ [_] ss

def leading (o : Order) : List Sublicense := ⟨o.label, o.license⟩ :: o.sublicenses

theorem gather_yields {o : Order} {bar : Progress} {g : Gathering} (h : t.gather here o bar = (g, none)) :
    ∃ dirs first own, t.subdirectories? here o.cacheRoot = some dirs ∧
      t.Yields here o.copyrightFile dirs g.packages own ∧ g.bundle.sections = first ++ own ∧
      List.Forall₂ (t.Presents here) (leading o) first := by
  obtain ⟨text, g₁, dirs, htext, hsub, hdirs, h⟩ := gather_eq_iff.mp h
  obtain ⟨ss, hpresents, hnone, hfirst⟩ := gatherSublicenses_presents hsub
  obtain ⟨ps, own, hyields, hpackages, hsections⟩ := gatherPackages_yields h
  have hps : g.packages = ps := by
    rw [hpackages]
    exact congrArg (· ++ ps) hnone
  refine ⟨dirs, ⟨o.label, [text]⟩ :: ss, own, hdirs, hps ▸ hyields, ?_, .cons ⟨rfl, text, htext, rfl⟩ hpresents⟩
  rw [hsections]
  exact congrArg (· ++ own) hfirst

end Tree

/-! ## (3) Reports -/

namespace Summary

def above (color : Bool) (project : Path) (r : Report) : Text :=
  "\n ".toList ++ Style.bold.paint color programName ++ " v".toList ++ version ++ "\n".toList ++
    " Project: ".toList ++ project.shown ++ "\n\n".toList ++
    (box color r).flatMap (· ++ ['\n']) ++
    " Written to ".toList ++ Style.bold.paint color r.output.shown ++ "\n\n".toList

/-- A headline with a table of the rows; nothing if there are no rows. -/
def Lists (sign headline : Text) (header : List Text) (alignments : List Alignment) (rows : List (List Text))
    (out : Text) : Prop :=
  (rows = [] ∧ out = []) ∨ (rows ≠ [] ∧ out = listing sign headline ⟨header, alignments, rows⟩)

def Warns (color : Bool) (ps : List Package) (out : Text) : Prop :=
  Lists (Style.boldYellow.paint color "[WARN]".toList) "Packages without a copyright file:".toList
    ["Name".toList, "Path".toList] [.left, .left] (ps.map fun p => [p.name, p.path.shown]) out

def Details (color : Bool) (ps : List Package) (out : Text) : Prop :=
  Lists (Style.boldGreen.paint color "[OK]".toList) "Bundled packages:".toList
    ["Name".toList, "Files".toList, "License".toList, "Risk".toList] [.left, .right, .left, .left]
    (ps.map fun p =>
      [p.name, ofNat p.copyrightPaths.length, p.license.getD "unrecognized".toList, p.risk.title]) out

theorem full_eq (color verbose : Bool) (project : Path) (r : Report) :
    ∃ warning details, full color verbose project r = above color project r ++ warning ++ details ∧
      Warns color r.missing warning ∧ Details color (if verbose then r.bundled else []) details := by
  refine ⟨_, _, rfl, ?_, ?_⟩
  · rw [(missingCount_eq r).2]
    cases hmissing : r.missing with
    | nil => exact .inl ⟨rfl, rfl⟩
    | cons p ps => exact .inr ⟨List.cons_ne_nil _ _, by simp [missingTable, hmissing]⟩
  · cases verbose with
    | false => exact .inl ⟨rfl, rfl⟩
    | true =>
      cases hbundled : r.bundled with
      | nil => exact .inl ⟨by simp, by simp⟩
      | cons p ps => exact .inr ⟨by simp, by simp [bundledTable, hbundled]⟩

end Summary

/-! ## (4) The views of a run -/

namespace Run

variable {t t' : Tree} {here : Location} {env : Environment} {args : List Bytes} {o : Options} {s : Settings}
  {g : Gathering}

/-- A report that can be printed is, and then packages that are not bundled count as strictness says. -/
theorem Reporting.printed (h : Reporting t here env args o s g t') {out : Text}
    (hout : printed? (color env) o (t.canonical here o.path) (report s g) = some out) :
    (run t here env args).stdout = out ∧
      (run t here env args).ending = if o.strict && !(report s g).missing.isEmpty then .missing else .done := by
  obtain ⟨found, hload, rfl⟩ := h.settings
  rw [run, h.parse]
  simp only [withOptions, hload, withSettings, h.collect, hout]
  exact ⟨trivial, trivial⟩

/-- What a run has bundled, as the bundle, the report, the output and the status tell it. The
    directories are those that packages are looked for in; the first sections are those of the
    project and of the sub-licenses, and the packages' own come behind them. -/
structure Views (t t' : Tree) (here : Location) (env : Environment) (args : List Bytes) (o : Options) (s : Settings)
    (g : Gathering) (dirs : List Path) (first own : List Section) : Prop where
  listed : t.subdirectories? here (order t here env (t.canonical here o.path) s).cacheRoot = some dirs
  packages : List.Forall₂ (t.Describes here s.copyrightFile) dirs (report s g).packages
  scanned : (report s g).packages.length = dirs.length
  counts : (report s g).bundled.length + (report s g).missing.length = dirs.length
  /-- What the report subtracts is never more than what it is taken from. -/
  subtracted : (report s g).bundled.length ≤ (report s g).packages.length ∧
    Summary.missingCount (report s g) = (report s g).missing.length
  written : ∃ l, t.Written t' here s.output (encode g.bundle.render) l
  sections : g.bundle.sections = first ++ own
  leading : List.Forall₂ (t.Presents here) (Tree.leading (order t here env (t.canonical here o.path) s)) first
  bundled : List.Forall₂ (fun p x => x.label = p.name ∧ t.readLicenses here p.copyrightPaths = .ok x.texts)
    (report s g).bundled own
  texts : (own.flatMap Section.texts).length = (report s g).fileCount
  printed : o.report = .terminal → o.quiet = false → ∃ warning details,
    (run t here env args).stdout =
      Summary.above (color env) (t.canonical here o.path) (report s g) ++ warning ++ details ∧
    Summary.Warns (color env) (report s g).missing warning ∧
    Summary.Details (color env) (if o.verbose then (report s g).bundled else []) details
  brief : o.report = .terminal → o.quiet = true →
    (run t here env args).stdout = Summary.brief (color env) (report s g)
  status : o.report = .terminal →
    ((run t here env args).ending.status = 1 ↔ o.strict = true ∧ own.length < dirs.length)

/-- The views of what a run has bundled agree. -/
theorem run_views (h : Reporting t here env args o s g t') :
    ∃ dirs first own, Views t t' here env args o s g dirs first own := by
  obtain ⟨g₁, hgather, hg, -⟩ := Tree.collect_eq_ok h.collect
  obtain ⟨dirs, first, own, hdirs, hyields, hsections, hfirst⟩ := Tree.gather_yields hgather
  have hyields : t.Yields here s.copyrightFile dirs (report s g).packages own := by
    rw [hg]
    exact hyields
  have hsections : g.bundle.sections = first ++ own := by
    rw [hg]
    exact hsections
  have hterminal : o.report = .terminal → (run t here env args).stdout =
        Summary.render (color env) o.verbose o.quiet (t.canonical here o.path) (report s g) ∧
      (run t here env args).ending = if o.strict && !(report s g).missing.isEmpty then .missing else .done :=
    fun hformat => h.printed (by rw [printed?, hformat])
  refine ⟨dirs, first, own, ?_⟩
  exact {
    listed := hdirs
    packages := hyields.describes
    scanned := hyields.describes.length_eq.symm
    counts := hyields.length_add
    subtracted := Summary.missingCount_eq _
    written := h.written
    sections := hsections
    leading := hfirst
    bundled := hyields.sections
    texts := hyields.length_texts
    printed := fun hformat hquiet => by
      rw [(hterminal hformat).1, Summary.render, hquiet]
      exact Summary.full_eq _ _ _ _
    brief := fun hformat hquiet => by
      rw [(hterminal hformat).1, Summary.render, hquiet]
      rfl
    status := fun hformat => by
      -- strictness asks for a package that is not bundled, and each of those is a section less
      rw [(hterminal hformat).2, hyields.length_lt_iff, ← Report.missing]
      cases o.strict <;> cases (report s g).missing <;> simp [Ending.status] }

/-! ### A project with two packages -/

open Attribution.Path (ofString)

/-- A project with a package that has a copyright file, and one that has none. -/
def yard : Tree where
  entries := [([ofString "COPYING.md"], .file (ofString "ours")), ([ofString "vcpkg"], .directory),
    ([ofString "vcpkg", ofString "packages"], .directory),
    ([ofString "vcpkg", ofString "packages", ofString "tool"], .directory),
    ([ofString "vcpkg", ofString "packages", ofString "zlib"], .directory),
    ([ofString "vcpkg", ofString "packages", ofString "zlib", ofString "copyright"], .file (ofString "theirs"))]
  wellFormed := ⟨by decide, by decide, by decide, by decide⟩

def yardSettings : Settings := Settings.default.resolve (yard.canonical [] Path.here)

theorem subdirectories?_yard : yard.subdirectories? [] (ofString "/vcpkg/packages") =
    some [ofString "/vcpkg/packages/tool", ofString "/vcpkg/packages/zlib"] :=
  Tree.subdirectories?_of_ordered [ofString "vcpkg", ofString "packages"] [ofString "tool", ofString "zlib"] rfl rfl
    (by decide) (by decide) (by decide)

theorem readPackage_tool : ∃ x, yard.readPackage [] "copyright".toList (ofString "/vcpkg/packages/tool") = .ok x ∧
    x.1.copyrightPaths = [] := by
  rw [Tree.readPackage,
    Tree.findFiles_of_empty [ofString "vcpkg", ofString "packages", ofString "tool"] _ rfl rfl (by decide)]
  exact ⟨_, rfl, rfl⟩

theorem readPackage_zlib : ∃ x, yard.readPackage [] "copyright".toList (ofString "/vcpkg/packages/zlib") = .ok x ∧
    x.1.copyrightPaths = [ofString "/vcpkg/packages/zlib/copyright"] := by
  have hfind : yard.findFiles [] (ofString "/vcpkg/packages/zlib") (encode "copyright".toList) =
      .ok [ofString "/vcpkg/packages/zlib/copyright"] := by
    apply Tree.findFiles_of_single [ofString "vcpkg", ofString "packages", ofString "zlib"] rfl rfl
    show _ = [([ofString "copyright"], Node.file (ofString "theirs"))]
    decide
  rw [Tree.readPackage, hfind]
  exact ⟨_, rfl, rfl⟩

theorem collect_yard (bar : Progress) : ∃ t' g p p',
    yard.collect [] (order yard [] bareEnvironment (yard.canonical [] Path.here) yardSettings) yardSettings.output bar =
      (t', g, none) ∧ g.packages = [p, p'] ∧ p.copyrightPaths = [] ∧
      p'.copyrightPaths = [ofString "/vcpkg/packages/zlib/copyright"] := by
  obtain ⟨x, hx, hpaths⟩ := readPackage_tool
  obtain ⟨y, hy, hpaths'⟩ := readPackage_zlib
  rw [show order yard [] bareEnvironment (yard.canonical [] Path.here) yardSettings =
    ⟨"AFV Native".toList, ofString "/COPYING.md", [], ofString "/vcpkg/packages", "copyright".toList⟩ from rfl]
  obtain ⟨g, hg, hpackages⟩ : ∃ g, yard.gather [] ⟨"AFV Native".toList, ofString "/COPYING.md", [],
      ofString "/vcpkg/packages", "copyright".toList⟩ bar = (g, none) ∧ g.packages = [x.1, y.1] := by
    rw [Tree.gather, show yard.readLicense [] (ofString "/COPYING.md") = .ok "ours".toList from rfl]
    simp only [Tree.gatherSublicenses, subdirectories?_yard, Tree.gatherPackages, hx, hy]
    exact ⟨_, rfl, rfl⟩
  rw [Tree.collect, hg]
  exact ⟨_, _, x.1, y.1, rfl, hpackages, hpaths, hpaths'⟩

/-- Words that say neither where anything is nor how to report get to a report of the two packages. -/
theorem reporting_yard (strict verbose quiet : Bool)
    (h : CommandLine.parse args = .ok { Options.default with strict, verbose, quiet }) :
    ∃ t' g p p', Reporting yard [] bareEnvironment args { Options.default with strict, verbose, quiet }
      yardSettings g t' ∧ (report yardSettings g).packages = [p, p'] ∧ (report yardSettings g).bundled = [p'] ∧
      (report yardSettings g).missing = [p] := by
  have hload : Settings.load yard [] bareEnvironment (yard.canonical [] Path.here) none = .ok .default := rfl
  obtain ⟨t', g, p, p', hcollect, hpackages, hp, hp'⟩ := collect_yard (bar quiet)
  refine ⟨t', g, p, p', ⟨h, ⟨.default, hload, rfl⟩, hcollect⟩, hpackages, ?_, ?_⟩
  · simp [report, Report.bundled, hpackages, Package.isBundled, hp, hp']
  · simp [report, Report.missing, hpackages, Package.isBundled, hp, hp']

def strictArgs : List Bytes := [ofString "--strict", ofString "--verbose"]

theorem run_views_yard : ∃ t' g, Reporting yard [] bareEnvironment strictArgs
      { Options.default with strict := true, verbose := true } yardSettings g t' ∧
    (∃ dirs first own, Views yard t' [] bareEnvironment strictArgs
      { Options.default with strict := true, verbose := true } yardSettings g dirs first own) ∧
    (run yard [] bareEnvironment strictArgs).ending.status = 1 := by
  obtain ⟨t', g, p, p', hreporting, -, -, hmissing⟩ :=
    @reporting_yard strictArgs true true false rfl
  obtain ⟨dirs, first, own, hviews⟩ := run_views hreporting
  refine ⟨t', g, hreporting, ⟨dirs, first, own, hviews⟩, (hviews.status rfl).mpr ⟨rfl, ?_⟩⟩
  have hcounts := hviews.counts
  rw [hmissing, List.length_singleton] at hcounts
  have hown := hviews.bundled.length_eq
  omega

def briefArgs : List Bytes := [ofString "--quiet"]

/-- A brief report warns of no package, though one is not bundled. -/
theorem no_table_when_quiet : ∃ t' g, Reporting yard [] bareEnvironment briefArgs
      { Options.default with quiet := true } yardSettings g t' ∧
    (report yardSettings g).missing ≠ [] ∧
    (run yard [] bareEnvironment briefArgs).stdout =
      "Packages: 2  Bundled: 1  Missing: 1  -> /ALL_LICENSES.txt\n".toList ∧
    ¬ ∃ warning, Summary.Warns (color bareEnvironment) (report yardSettings g).missing warning ∧
      warning <:+: (run yard [] bareEnvironment briefArgs).stdout := by
  obtain ⟨t', g, p, p', hreporting, hpackages, hbundled, hmissing⟩ :=
    @reporting_yard briefArgs false false true rfl
  have hstdout : (run yard [] bareEnvironment briefArgs).stdout =
      "Packages: 2  Bundled: 1  Missing: 1  -> /ALL_LICENSES.txt\n".toList := by
    rw [(hreporting.printed rfl).1, Summary.render, if_pos rfl]
    show "Packages: ".toList ++ ofNat (report yardSettings g).packages.length ++
      "  Bundled: ".toList ++ ofNat (report yardSettings g).bundled.length ++
      "  Missing: ".toList ++ ofNat (Summary.missingCount (report yardSettings g)) ++
      "  -> ".toList ++ Path.shown (ofString "/ALL_LICENSES.txt") ++ "\n".toList = _
    rw [(Summary.missingCount_eq _).2, hpackages, hbundled, hmissing, List.length_cons, List.length_singleton,
      List.length_singleton]
    decide
  refine ⟨t', g, hreporting, by simp [hmissing], hstdout, ?_⟩
  rintro ⟨warning, ⟨hrows, -⟩ | ⟨-, rfl⟩, hin⟩
  · simp [hmissing] at hrows
  · -- a warning has a bracket, and the line has none
    have hbracket : '[' ∈ "Packages: 2  Bundled: 1  Missing: 1  -> /ALL_LICENSES.txt\n".toList := by
      rw [← hstdout]
      exact hin.subset (by simp [Summary.listing, Style.paint, show color bareEnvironment = false from rfl])
    revert hbracket
    decide

end Run

end Attribution
