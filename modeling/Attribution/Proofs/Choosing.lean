/-
  Attribution.Proofs.Choosing — by which settings a run goes.

  (1) The settings come from one file: the one that is named, else the first candidate
  that is there; without one, they are the defaults (`Settings.Chosen`). If that file
  cannot be read or says nothing valid, there are no settings (`Settings.Given`). There is
  one choice and one outcome of it, so loading can come to nothing else (`load_eq`).

  (2) The words of the command line win over the settings, and every path is then seen from
  the project; the cache root is looked for only where neither says one
  (`Run.Planned`). What a run does after that is to gather and write what was planned
  (`Run.Bundles`).

  (3) So a run bundles what the chosen file plans for it, or fails before anything is
  written (`Run.GoesBy`), and the content of no other file counts for its settings
  (`run_bundles`).
-/
import Attribution.Run
import Attribution.Proofs.Walking
import Attribution.Proofs.Writing

namespace Attribution

open Attribution.Path (ofString)

/-! ## (1) Which file -/

namespace Settings

def candidates (project home : Path) : List Path :=
  [project.join (ofString ".license-bundler/config.toml"), home.join (ofString ".config/license-bundler/config.toml")]

/-- The file that settings come from: the one that is named, else the first of the
    candidates that is there, if there is any. -/
inductive Chosen (t : Tree) (here : Location) (candidates : List Path) : Option Path → Option Path → Prop
  | named (p : Path) : Chosen t here candidates (some p) (some p)
  | first {before after : List Path} {p : Path} : candidates = before ++ p :: after →
      (∀ q ∈ before, t.pathExists here q = false) → t.pathExists here p = true →
      Chosen t here candidates none (some p)
  | nowhere : (∀ q ∈ candidates, t.pathExists here q = false) → Chosen t here candidates none none

inductive Given (t : Tree) (here : Location) : Option Path → Except Failure Settings → Prop
  | default : Given t here none (.ok default)
  | file {p : Path} {s : Text} {found : Settings} : t.readText here p = .ok s →
      (Toml.document? s).bind ofFields? = some found → Given t here (some p) (.ok found)
  | unreadable {p : Path} {c : Cause} : t.readText here p = .error c →
      Given t here (some p) (.error (.configUnreadable p c))
  | invalid {p : Path} {s : Text} : t.readText here p = .ok s → (Toml.document? s).bind ofFields? = none →
      Given t here (some p) (.error (.configInvalid p))

variable {t : Tree} {here : Location} {env : Environment} {project home : Path}

theorem projectFile_eq (project : Path) :
    projectFile project = project.join (ofString ".license-bundler/config.toml") := by
  unfold projectFile
  rw [← Path.join_join]
  rfl

theorem homeFile_eq (home : Path) : homeFile home = home.join (ofString ".config/license-bundler/config.toml") := by
  unfold homeFile
  rw [← Path.join_join, ← Path.join_join]
  rfl

theorem given_read (t : Tree) (here : Location) (p : Path) : Given t here (some p) (read t here p) := by
  unfold read
  rcases hs : t.readText here p with c | s
  · exact .unreadable hs
  · simp only
    cases hfound : (Toml.document? s).bind ofFields? with
    | none => exact .invalid hs hfound
    | some found => exact .file hs hfound

theorem ne_nil_of_isDirectory {p : Path} (h : t.isDirectory here p = true) : p ≠ [] := by
  obtain ⟨l, hl⟩ := Tree.exists_resolve_of_isDirectory h
  exact (Tree.spot_eq_ok_iff.mp (Tree.resolve_eq_ok_iff.mp hl)).1.2.1

/-- Loading takes the settings of the chosen file. -/
theorem load_chosen (named : Option Path) (hhome : env.home = some home) (hdir : t.isDirectory here home = true) :
    ∃ source, Chosen t here (candidates project home) named source ∧
      Given t here source (load t here env project named) := by
  cases named with
  | some p => exact ⟨some p, .named p, given_read t here p⟩
  | none =>
    have hhome? : home? env = some home := by
      unfold home?
      rw [hhome]
      exact Option.filter_some_pos (by simpa using ne_nil_of_isDirectory hdir)
    unfold load
    simp only [hhome?, projectFile_eq, homeFile_eq]
    split
    · next hproject =>
      have hsplit : candidates project home = [] ++ _ :: [_] := rfl
      exact ⟨_, .first hsplit nofun hproject, given_read _ _ _⟩
    · next hproject =>
      rw [Bool.not_eq_true] at hproject
      split
      · next hthere =>
        have hsplit : candidates project home = [_] ++ _ :: [] := rfl
        exact ⟨_, .first hsplit (by simpa using hproject) hthere, given_read _ _ _⟩
      · next hthere =>
        rw [Bool.not_eq_true] at hthere
        exact ⟨none, .nowhere (by simpa [candidates] using ⟨hproject, hthere⟩), .default⟩

/-! ### There is one choice -/

theorem Chosen.eq {candidates : List Path} {named source : Option Path}
    (h : Chosen t here candidates named source) : source = (named <|> candidates.find? (t.pathExists here)) := by
  cases h with
  | named p => rfl
  | @first before after p hsplit hbefore hthere =>
    refine (List.find?_eq_some_iff_append.mpr ⟨hthere, before, after, hsplit, fun q hq => ?_⟩).symm
    rw [hbefore q hq]
    rfl
  | nowhere hnone =>
    refine (List.find?_eq_none.mpr fun q hq => ?_).symm
    rw [hnone q hq]
    exact Bool.false_ne_true

theorem Given.eq {source : Option Path} {given : Except Failure Settings} (h : Given t here source given) :
    given = (source.map (read t here)).getD (.ok Settings.default) := by
  cases h with
  | default => rfl
  | file hs hfound => simp [read, hs, hfound]
  | unreadable hc => simp [read, hc]
  | invalid hs hnone => simp [read, hs, hnone]

theorem load_eq {named source : Option Path} {given : Except Failure Settings} (hhome : env.home = some home)
    (hdir : t.isDirectory here home = true) (hchosen : Chosen t here (candidates project home) named source)
    (hgiven : Given t here source given) : load t here env project named = given := by
  obtain ⟨source', hchosen', hgiven'⟩ := load_chosen named hhome hdir
  rw [hgiven'.eq, hgiven.eq, hchosen'.eq, hchosen.eq]

/-! ### Other files -/

section Refilled

variable {l : Location} {old : Bytes} (content : Bytes) (hl : t.node? l = some (.file old))

include hl

/-- A path leads to what it led to before, or to the file with its other content. -/
theorem target?_setContent (p : Path) : (t.setContent l content).target? here p = t.target? here p ∨
    t.target? here p = some (.file old) ∧ (t.setContent l content).target? here p = some (.file content) := by
  unfold Tree.target?
  rw [Tree.resolve_alike (Tree.alike_setContent content hl)]
  rcases t.resolve here p with c | k
  · exact .inl rfl
  · simp only [Tree.node?_setContent content hl]
    by_cases hk : k = l
    · subst hk
      exact .inr ⟨hl, if_pos rfl⟩
    · exact .inl (if_neg hk)

theorem pathExists_setContent (p : Path) : (t.setContent l content).pathExists here p = t.pathExists here p := by
  unfold Tree.pathExists
  rcases target?_setContent content hl p with h | ⟨hold, hnew⟩
  · rw [h]
  · rw [hold, hnew]
    rfl

theorem isDirectory_setContent (p : Path) : (t.setContent l content).isDirectory here p = t.isDirectory here p := by
  unfold Tree.isDirectory
  rcases target?_setContent content hl p with h | ⟨hold, hnew⟩
  · rw [h]
  · rw [hold, hnew]
    simp

theorem readText_setContent {p : Path} (hp : t.resolve here p ≠ .ok l) :
    (t.setContent l content).readText here p = t.readText here p := by
  unfold Tree.readText Tree.readBytes
  rw [Tree.resolve_alike (Tree.alike_setContent content hl)]
  rcases hk : t.resolve here p with c | k
  · rfl
  · have hne : k ≠ l := by
      rintro rfl
      exact hp hk
    simp only [Tree.node?_setContent content hl, if_neg hne]

theorem canonical_setContent (p : Path) : (t.setContent l content).canonical here p = t.canonical here p := by
  unfold Tree.canonical
  rw [Tree.resolve_alike (Tree.alike_setContent content hl)]

theorem Chosen.setContent {candidates : List Path} {named source : Option Path}
    (h : Chosen t here candidates named source) : Chosen (t.setContent l content) here candidates named source := by
  cases h with
  | named p => exact .named p
  | first hsplit hbefore hthere =>
    refine .first hsplit (fun q hq => ?_) ?_
    · rw [pathExists_setContent content hl, hbefore q hq]
    · rw [pathExists_setContent content hl, hthere]
  | nowhere hnone =>
    refine .nowhere fun q hq => ?_
    rw [pathExists_setContent content hl, hnone q hq]

theorem Given.setContent {source : Option Path} {given : Except Failure Settings} (h : Given t here source given)
    (hother : ∀ p, source = some p → t.resolve here p ≠ .ok l) : Given (t.setContent l content) here source given := by
  cases h with
  | default => exact .default
  | file hs hfound => exact .file (by rw [readText_setContent content hl (hother _ rfl), hs]) hfound
  | unreadable hc => exact .unreadable (by rw [readText_setContent content hl (hother _ rfl), hc])
  | invalid hs hnone => exact .invalid (by rw [readText_setContent content hl (hother _ rfl), hs]) hnone

end Refilled

end Settings

/-! ## (2) What is planned -/

namespace Run

variable {t : Tree} {here : Location} {env : Environment} {project : Path} {o : Options}

inductive CacheRoot (t : Tree) (here : Location) (env : Environment) (project : Path) :
    Option Path → Option Path → Path → Prop
  | said (root : Path) (setting : Option Path) : CacheRoot t here env project (some root) setting (project.join root)
  | set (root : Path) : CacheRoot t here env project none (some root) (project.join root)
  | inProject : t.isDirectory here (project.join (ofString "vcpkg/packages")) = true →
      CacheRoot t here env project none none (project.join (ofString "vcpkg/packages"))
  | shared {root : Path} : t.isDirectory here (project.join (ofString "vcpkg/packages")) = false →
      env.vcpkgRoot = some root → t.isDirectory here (root.join (ofString "packages")) = true →
      CacheRoot t here env project none none (root.join (ofString "packages"))
  | missing : t.isDirectory here (project.join (ofString "vcpkg/packages")) = false →
      (∀ root, env.vcpkgRoot = some root → t.isDirectory here (root.join (ofString "packages")) = false) →
      CacheRoot t here env project none none (project.join (ofString "vcpkg/packages"))

structure Planned (t : Tree) (here : Location) (env : Environment) (o : Options) (project : Path)
    (found : Settings) (order : Order) (output : Path) : Prop where
  label : order.label = found.label
  license : order.license = project.join (o.license.getD found.license)
  sublicenses : order.sublicenses = found.sublicenses.map fun s => ⟨s.label, project.join s.path⟩
  cacheRoot : CacheRoot t here env project o.cacheRoot found.cacheRoot order.cacheRoot
  copyrightFile : order.copyrightFile = found.copyrightFile
  output : output = project.join (o.output.getD found.output)

/-- A run gathers an order and writes to a path: it leaves the tree that this leaves, it fails if
    this fails, and otherwise it reports this. -/
structure Bundles (t : Tree) (here : Location) (env : Environment) (o : Options) (project : Path)
    (order : Order) (output : Path) (x : Outcome) : Prop where
  tree : x.tree = (t.collect here order output (bar o.quiet)).1
  failed : ∀ f, (t.collect here order output (bar o.quiet)).2.2 = some f → x.ending = .failed f
  reported : (t.collect here order output (bar o.quiet)).2.2 = none → x.stdout = (printed? (color env) o project
    ⟨output, order.label, order.sublicenses.map (·.label), (t.collect here order output (bar o.quiet)).2.1.packages⟩).getD []

theorem localCache_eq (project : Path) : Settings.localCache project = project.join (ofString "vcpkg/packages") := by
  unfold Settings.localCache
  rw [← Path.join_join]
  rfl

theorem cacheRoot_findCacheRoot (t : Tree) (here : Location) (env : Environment) (project : Path) :
    CacheRoot t here env project none none (Settings.findCacheRoot t here env project) := by
  unfold Settings.findCacheRoot
  rw [localCache_eq]
  split
  · next hlocal => exact .inProject hlocal
  · next hlocal =>
    rw [Bool.not_eq_true] at hlocal
    cases henv : env.vcpkgRoot with
    | none => exact .missing hlocal (by simp [henv])
    | some root =>
      simp only [Option.map_some]
      split
      · next hshared => exact .shared hlocal henv hshared
      · next hshared =>
        rw [Bool.not_eq_true] at hshared
        refine .missing hlocal fun root' hroot' => ?_
        rw [henv] at hroot'
        cases hroot'
        exact hshared

/-- Settings whose paths are resolved give the plan. -/
theorem planned_order (t : Tree) (here : Location) (env : Environment) (o : Options) (project : Path)
    (found : Settings) :
    Planned t here env o project found (order t here env project ((override found o).resolve project))
      ((override found o).resolve project).output := by
  refine ⟨rfl, rfl, rfl, ?_, rfl, rfl⟩
  show CacheRoot t here env project o.cacheRoot found.cacheRoot
    (((o.cacheRoot <|> found.cacheRoot).map project.join).getD (Settings.findCacheRoot t here env project))
  rcases o.cacheRoot with _ | root
  · rcases found.cacheRoot with _ | root
    · exact cacheRoot_findCacheRoot t here env project
    · exact .set root
  · exact .said root _

theorem bundles_withSettings (t : Tree) (here : Location) (env : Environment) (o : Options) (project : Path)
    (found : Settings) :
    Bundles t here env o project (order t here env project ((override found o).resolve project))
      ((override found o).resolve project).output (withSettings t here env o project found) := by
  rcases h : t.collect here (order t here env project ((override found o).resolve project))
    ((override found o).resolve project).output (bar o.quiet) with ⟨t', g, _ | f⟩
  · let r := report ((override found o).resolve project) g
    refine ⟨?_, by rw [h]; exact nofun, fun _ => ?_⟩
    · rw [h]
      simp only [withSettings, h]
      cases printed? (color env) o project r <;> rfl
    · rw [h]
      simp only [withSettings, h]
      show _ = (printed? (color env) o project r).getD []
      cases printed? (color env) o project r <;> rfl
  · refine ⟨?_, fun f' hf' => ?_, by rw [h]; exact nofun⟩
    · simp only [withSettings, h]
    · rw [h] at hf'
      cases hf'
      simp only [withSettings, h]

/-! ## (3) Runs -/

/-- A run goes by what is given: without settings it fails, and leaves the tree as it was; with
    settings it gathers and writes what they and the command line plan. -/
def GoesBy (t : Tree) (here : Location) (env : Environment) (o : Options) :
    Except Failure Settings → Outcome → Prop
  | .error f, x => x = ⟨t, [], f.report, .failed f⟩
  | .ok found, x => ∃ order output, Planned t here env o (t.canonical here o.path) found order output ∧
    Bundles t here env o (t.canonical here o.path) order output x

theorem goesBy_run {args : List Bytes} {given : Except Failure Settings} (hparse : CommandLine.parse args = .ok o)
    (hload : Settings.load t here env (t.canonical here o.path) o.config = given) :
    GoesBy t here env o given (run t here env args) := by
  unfold run
  rw [hparse]
  simp only [withOptions, hload]
  cases given with
  | error f => rfl
  | ok found => exact ⟨_, _, planned_order _ _ _ _ _ _, bundles_withSettings _ _ _ _ _ _⟩

/-- A run goes by the settings of the chosen file, or fails if that gives none. Whatever the
    content of any other file, it goes by the same settings. -/
theorem run_bundles {args : List Bytes} {home : Path} (hparse : CommandLine.parse args = .ok o)
    (hhome : env.home = some home) (hdir : t.isDirectory here home = true) :
    ∃ source given,
      Settings.Chosen t here (Settings.candidates (t.canonical here o.path) home) o.config source ∧
      Settings.Given t here source given ∧
      GoesBy t here env o given (run t here env args) ∧
      ∀ l old content, t.node? l = some (.file old) → (∀ p, source = some p → t.resolve here p ≠ .ok l) →
        GoesBy (t.setContent l content) here env o given (run (t.setContent l content) here env args) := by
  obtain ⟨source, hchosen, hgiven⟩ := Settings.load_chosen o.config hhome hdir
  refine ⟨source, _, hchosen, hgiven, goesBy_run hparse rfl, ?_⟩
  intro l old content hl hother
  apply goesBy_run hparse
  rw [Settings.canonical_setContent content hl]
  have hdir' := (Settings.isDirectory_setContent content hl home).trans hdir
  exact Settings.load_eq hhome hdir' (hchosen.setContent content hl) (hgiven.setContent content hl hother)

/-! ### A file that gives no settings, and one that gives some -/

/-- A project whose settings file is broken off, and a home directory with good settings. -/
def workshop : Tree where
  entries := [([ofString ".license-bundler"], .directory),
    ([ofString ".license-bundler", ofString "config.toml"], .file (ofString "[project")),
    ([ofString "home"], .directory), ([ofString "home", ofString ".config"], .directory),
    ([ofString "home", ofString ".config", ofString "license-bundler"], .directory),
    ([ofString "home", ofString ".config", ofString "license-bundler", ofString "config.toml"],
      .file (ofString "[project]\nlabel = \"Home\"\n"))]
  wellFormed := ⟨by decide, by decide, by decide, by decide⟩

def workshopEnvironment : Environment := ⟨some (ofString "/home"), none, none⟩

/-- A project with settings of its own, and a home directory with others. -/
def smithy : Tree where
  entries := [([ofString "LICENSE"], .file (ofString "ours")), ([ofString ".license-bundler"], .directory),
    ([ofString ".license-bundler", ofString "config.toml"],
      .file (ofString "[project]\nlabel = \"Forge\"\nlicense = \"LICENSE\"\n")),
    ([ofString "home"], .directory), ([ofString "home", ofString ".config"], .directory),
    ([ofString "home", ofString ".config", ofString "license-bundler"], .directory),
    ([ofString "home", ofString ".config", ofString "license-bundler", ofString "config.toml"],
      .file (ofString "[project]\nlabel = \"Home\"\n")),
    ([ofString "vcpkg"], .directory), ([ofString "vcpkg", ofString "packages"], .directory)]
  wellFormed := ⟨by decide, by decide, by decide, by decide⟩

def smithySettings : Settings := { Settings.default with label := "Forge".toList, license := ofString "LICENSE" }

def smithyOrder : Order := ⟨"Forge".toList, ofString "/LICENSE", [], ofString "/vcpkg/packages", "copyright".toList⟩

theorem read_smithy : Settings.read smithy [] (ofString "/.license-bundler/config.toml") = .ok smithySettings := rfl

theorem collect_smithy (bar : Progress) :
    (smithy.collect [] smithyOrder (ofString "/ALL_LICENSES.txt") bar).1.readText [] (ofString "/ALL_LICENSES.txt") =
      .ok "Forge\n\nours\n\n".toList := by
  have hdirs : smithy.subdirectories? [] (ofString "/vcpkg/packages") = some [] :=
    Tree.subdirectories?_of_ordered [ofString "vcpkg", ofString "packages"] [] rfl rfl (by decide) .nil nofun
  obtain ⟨g, hg, hbundle⟩ : ∃ g, smithy.gather [] smithyOrder bar = (g, none) ∧
      g.bundle = Bundle.empty.push "Forge".toList "ours".toList := by
    rw [Tree.gather, show smithy.readLicense [] smithyOrder.license = .ok "ours".toList from rfl]
    simp only [smithyOrder, Tree.gatherSublicenses, hdirs, Tree.gatherPackages]
    exact ⟨_, rfl, rfl⟩
  rw [Tree.collect, hg]
  simp only [hbundle]
  rfl

/-- What a run plans is the order of the settings in the project. -/
theorem planned_smithy {order : Order} {output : Path}
    (h : Planned smithy [] workshopEnvironment .default (ofString "/") smithySettings order output) :
    order = smithyOrder ∧ output = ofString "/ALL_LICENSES.txt" := by
  obtain ⟨label, license, sublicenses, cacheRoot, copyrightFile⟩ := order
  have hroot : cacheRoot = ofString "/vcpkg/packages" := by
    have hlocal : smithy.isDirectory [] (Path.join (ofString "/") (ofString "vcpkg/packages")) = true := rfl
    cases h.cacheRoot with
    | inProject => rfl
    | shared hnot => exact absurd (hlocal.symm.trans hnot) (by decide)
    | missing hnot => exact absurd (hlocal.symm.trans hnot) (by decide)
  refine ⟨?_, h.output⟩
  rw [show label = _ from h.label, show license = _ from h.license, show sublicenses = _ from h.sublicenses, hroot,
    show copyrightFile = _ from h.copyrightFile]
  rfl

/-- The settings in the home directory do not stand in for those of the project: neither where
    those are broken off, nor where they are used. -/
theorem run_bundles_workshop : CommandLine.parse [] = .ok Options.default ∧
    workshopEnvironment.home = some (ofString "/home") ∧ workshop.isDirectory [] (ofString "/home") = true ∧
    (run workshop [] workshopEnvironment []).tree = workshop ∧
    (run workshop [] workshopEnvironment []).ending = .failed (.configInvalid (ofString "/.license-bundler/config.toml")) ∧
    smithy.isDirectory [] (ofString "/home") = true ∧
    (run smithy [] workshopEnvironment []).tree.readText [] (ofString "/ALL_LICENSES.txt") =
      .ok "Forge\n\nours\n\n".toList := by
  obtain ⟨source, given, hchosen, hgiven, hrun, -⟩ :=
    @run_bundles workshop [] workshopEnvironment .default [] (ofString "/home") rfl rfl rfl
  have hsource : source = some (ofString "/.license-bundler/config.toml") := hchosen.eq.trans rfl
  have hfailed : given = .error (.configInvalid (ofString "/.license-bundler/config.toml")) := by
    rw [hgiven.eq, hsource]
    rfl
  rw [hfailed] at hrun
  obtain ⟨source', given', hchosen', hgiven', hrun', -⟩ :=
    @run_bundles smithy [] workshopEnvironment .default [] (ofString "/home") rfl rfl rfl
  have hsource' : source' = some (ofString "/.license-bundler/config.toml") := hchosen'.eq.trans rfl
  have hfound : given' = .ok smithySettings := by
    rw [hgiven'.eq, hsource']
    exact read_smithy
  rw [hfound] at hrun'
  obtain ⟨order, output, hplanned, hbundles⟩ := hrun'
  obtain ⟨rfl, rfl⟩ := planned_smithy hplanned
  refine ⟨rfl, rfl, rfl, ?_, ?_, rfl, ?_⟩
  · rw [show run workshop [] workshopEnvironment [] = _ from hrun]
  · rw [show run workshop [] workshopEnvironment [] = _ from hrun]
  · rw [hbundles.tree]
    exact collect_smithy _

end Run

end Attribution
