/-
  Attribution.Proofs.Standing — the directory that a run is started in.

  (1) An absolute path leads to the same place from every directory
  (`spot_of_isAbsolute`), so what is there is read, asked about and written alike.

  (2) What is joined to an absolute path is absolute (`isAbsolute_join_left`), and with it
  the paths of the packages and of the files in them. So an order whose paths are absolute
  is gathered alike from every directory (`gather_of_anchored`).

  (3) In a project at an absolute path, every path that the settings or the command line
  say is absolute before it is followed (`anchored_order`). So a run comes out the same
  from every directory if the paths that are not seen from the project are absolute: the
  project's own, that of a named settings file, and those in the environment
  (`run_standing`).
-/
import Attribution.Run
import Attribution.Proofs.Failing

namespace Attribution

open Attribution.Path (ofString)

namespace Path

theorem isAbsolute_join_left {base : Path} (h : isAbsolute base = true) (p : Path) :
    isAbsolute (base.join p) = true := by
  rw [isAbsolute_join, h, Bool.true_or]

end Path

namespace Tree

/-! ## (1) Absolute paths -/

section Absolute

variable {p : Path} (h : p.isAbsolute = true) (t : Tree) (here here' : Location)

include h

theorem spot_of_isAbsolute (creating : Bool) : t.spot creating here p = t.spot creating here' p := by
  have hstart : p.start here = p.start here' := by rw [Path.start, Path.start, if_pos h, if_pos h]
  unfold spot
  rw [hstart]

theorem resolve_of_isAbsolute : t.resolve here p = t.resolve here' p := by
  unfold resolve
  rw [spot_of_isAbsolute h t here here']

theorem target?_of_isAbsolute : t.target? here p = t.target? here' p := by
  unfold target?
  rw [resolve_of_isAbsolute h t here here']

theorem pathExists_of_isAbsolute : t.pathExists here p = t.pathExists here' p := by
  unfold pathExists
  rw [target?_of_isAbsolute h t here here']

theorem isDirectory_of_isAbsolute : t.isDirectory here p = t.isDirectory here' p := by
  unfold isDirectory
  rw [target?_of_isAbsolute h t here here']

theorem isFile_of_isAbsolute : t.isFile here p = t.isFile here' p := by
  unfold isFile
  rw [target?_of_isAbsolute h t here here']

theorem readText_of_isAbsolute : t.readText here p = t.readText here' p := by
  unfold readText readBytes
  rw [resolve_of_isAbsolute h t here here']

theorem write_of_isAbsolute (content : Bytes) : t.write here p content = t.write here' p content := by
  unfold write
  rw [spot_of_isAbsolute h t here here']

theorem canonical_of_isAbsolute : t.canonical here p = t.canonical here' p := by
  unfold canonical
  rw [resolve_of_isAbsolute h t here here']

theorem isAbsolute_canonical : (t.canonical here p).isAbsolute = true := by
  unfold canonical
  split
  · next l _ =>
    cases l with
    | nil => rfl
    | cons n l => rfl
  · exact h

/-! ## (2) Gathering -/

theorem isAbsolute_pathFrom (names : Location) : (pathFrom p names).isAbsolute = true := by
  unfold pathFrom
  induction names generalizing p with
  | nil => exact h
  | cons n names ih => exact ih (Path.isAbsolute_join_left h n)

theorem countsAsFile_of_isAbsolute (n : Node) : t.countsAsFile here p n = t.countsAsFile here' p n := by
  cases n with
  | directory => rfl
  | file content => rfl
  | link target => exact isFile_of_isAbsolute h t here here'

theorem findFiles_of_isAbsolute (name : Bytes) : t.findFiles here p name = t.findFiles here' p name := by
  have hcounts : ∀ l, ∀ e ∈ (t.sortedBeneath l).map fun e => (e.1, pathFrom p e.1, e.2),
      t.countsAsFile here e.2.1 e.2.2 = t.countsAsFile here' e.2.1 e.2.2 := by
    intro l x hx
    obtain ⟨e, -, rfl⟩ := List.mem_map.mp hx
    exact countsAsFile_of_isAbsolute (isAbsolute_pathFrom h e.1) t here here' e.2
  unfold findFiles
  rw [resolve_of_isAbsolute h t here here']
  simp only [isFile_of_isAbsolute h t here here']
  cases t.resolve here' p with
  | error c => rfl
  | ok l =>
    simp only
    rw [List.filter_congr fun e he => congrArg (_ && ·) (hcounts l e he)]

theorem isAbsolute_of_mem_findFiles {name : Bytes} {found : List Path} (hfound : t.findFiles here p name = .ok found) :
    ∀ q ∈ found, q.isAbsolute = true := by
  unfold findFiles at hfound
  split at hfound
  · cases hfound
  · simp only at hfound
    split at hfound
    · cases hfound
    · rw [← Except.ok.inj hfound]
      intro q hq
      rcases List.mem_append.mp hq with hq | hq
      · split at hq
        · rw [List.mem_singleton.mp hq]
          exact h
        · cases hq
      · obtain ⟨x, hx, rfl⟩ := List.mem_map.mp hq
        obtain ⟨e, -, rfl⟩ := List.mem_map.mp (List.mem_filter.mp hx).1
        exact isAbsolute_pathFrom h e.1

theorem readLicense_of_isAbsolute : t.readLicense here p = t.readLicense here' p := by
  unfold readLicense
  rw [readText_of_isAbsolute h t here here']

theorem subdirectories?_of_isAbsolute : t.subdirectories? here p = t.subdirectories? here' p := by
  have hchildren : ∀ names : List Bytes,
      (names.map p.join).filter (t.isDirectory here) = (names.map p.join).filter (t.isDirectory here') := by
    intro names
    refine List.filter_congr fun q hq => ?_
    obtain ⟨n, -, rfl⟩ := List.mem_map.mp hq
    exact isDirectory_of_isAbsolute (Path.isAbsolute_join_left h n) t here here'
  unfold subdirectories?
  rw [resolve_of_isAbsolute h t here here']
  simp only [hchildren]

theorem isAbsolute_of_mem_subdirectories? {dirs : List Path} (hdirs : t.subdirectories? here p = some dirs) :
    ∀ d ∈ dirs, d.isAbsolute = true := by
  unfold subdirectories? at hdirs
  split at hdirs
  · split at hdirs
    · rw [← Option.some.inj hdirs]
      intro d hd
      obtain ⟨n, -, rfl⟩ := List.mem_map.mp (List.mem_filter.mp hd).1
      exact Path.isAbsolute_join_left h n
    · cases hdirs
  · cases hdirs

end Absolute

variable (t : Tree) (here here' : Location)

theorem readLicenses_of_isAbsolute {ps : List Path} (h : ∀ p ∈ ps, p.isAbsolute = true) :
    t.readLicenses here ps = t.readLicenses here' ps := by
  induction ps with
  | nil => rfl
  | cons p ps ih =>
    obtain ⟨hp, h⟩ := List.forall_mem_cons.mp h
    rw [readLicenses, readLicenses, readLicense_of_isAbsolute hp t here here', ih h]

theorem readPackage_of_isAbsolute {dir : Path} (h : dir.isAbsolute = true) (name : Text) :
    t.readPackage here name dir = t.readPackage here' name dir := by
  unfold readPackage
  rw [findFiles_of_isAbsolute h t here here']
  cases hfound : t.findFiles here' dir (Text.encode name) with
  | error w => rfl
  | ok found =>
    have hread := readLicenses_of_isAbsolute t here here' (isAbsolute_of_mem_findFiles h t here' hfound)
    simp only [Except.mapError, bind, Except.bind, hread]

theorem gatherSublicenses_of_isAbsolute {ss : List Sublicense} (h : ∀ s ∈ ss, s.path.isAbsolute = true)
    (g : Gathering) : t.gatherSublicenses here ss g = t.gatherSublicenses here' ss g := by
  induction ss generalizing g with
  | nil => rfl
  | cons s ss ih =>
    obtain ⟨hs, h⟩ := List.forall_mem_cons.mp h
    simp only [gatherSublicenses, readLicense_of_isAbsolute hs t here here', ih h]

theorem gatherPackages_of_isAbsolute {dirs : List Path} (h : ∀ d ∈ dirs, d.isAbsolute = true) (name : Text)
    (g : Gathering) : t.gatherPackages here name dirs g = t.gatherPackages here' name dirs g := by
  induction dirs generalizing g with
  | nil => rfl
  | cons dir dirs ih =>
    obtain ⟨hdir, h⟩ := List.forall_mem_cons.mp h
    simp only [gatherPackages, readPackage_of_isAbsolute t here here' hdir, ih h]

end Tree

structure Order.Anchored (o : Order) : Prop where
  license : o.license.isAbsolute = true
  sublicenses : ∀ s ∈ o.sublicenses, s.path.isAbsolute = true
  cacheRoot : o.cacheRoot.isAbsolute = true

namespace Tree

variable (t : Tree) (here here' : Location)

theorem gather_of_anchored {o : Order} (h : o.Anchored) (bar : Progress) :
    t.gather here o bar = t.gather here' o bar := by
  unfold gather
  rw [subdirectories?_of_isAbsolute h.cacheRoot t here here']
  simp only [readLicense_of_isAbsolute h.license t here here',
    gatherSublicenses_of_isAbsolute t here here' h.sublicenses]
  cases hdirs : t.subdirectories? here' o.cacheRoot with
  | none => rfl
  | some dirs =>
    have habsolute := isAbsolute_of_mem_subdirectories? h.cacheRoot t here' hdirs
    simp only [gatherPackages_of_isAbsolute t here here' habsolute]

theorem collect_of_anchored {o : Order} {output : Path} (h : o.Anchored) (hout : output.isAbsolute = true)
    (bar : Progress) :
    t.collect here o output bar = t.collect here' o output bar := by
  unfold collect
  simp only [gather_of_anchored t here here' h bar, write_of_isAbsolute hout t here here']

end Tree

/-! ## (3) Runs -/

namespace Run

/-- The paths that are not seen from the project are absolute. -/
structure Anchored (env : Environment) (o : Options) : Prop where
  project : o.path.isAbsolute = true
  config : ∀ p, o.config = some p → p.isAbsolute = true
  vcpkgRoot : ∀ p, env.vcpkgRoot = some p → p.isAbsolute = true
  home : ∀ p, env.home = some p → p.isAbsolute = true

variable (t : Tree) (here here' : Location) {env : Environment} {o : Options} {project : Path}

theorem settings_read_of_isAbsolute {p : Path} (h : p.isAbsolute = true) :
    Settings.read t here p = Settings.read t here' p := by
  unfold Settings.read
  rw [Tree.readText_of_isAbsolute h t here here']

theorem load_of_anchored (h : Anchored env o) (hproject : project.isAbsolute = true) :
    Settings.load t here env project o.config = Settings.load t here' env project o.config := by
  have hfile : (Settings.projectFile project).isAbsolute = true :=
    Path.isAbsolute_join_left (Path.isAbsolute_join_left hproject _) _
  unfold Settings.load
  cases hconfig : o.config with
  | some p => exact settings_read_of_isAbsolute t here here' (h.config p hconfig)
  | none =>
    simp only [Tree.pathExists_of_isAbsolute hfile t here here', settings_read_of_isAbsolute t here here' hfile]
    cases hhome : Settings.home? env with
    | none => rfl
    | some home =>
      have habsolute := h.home home (Option.eq_some_of_filter_eq_some hhome)
      have hfile : (Settings.homeFile home).isAbsolute = true :=
        Path.isAbsolute_join_left (Path.isAbsolute_join_left (Path.isAbsolute_join_left habsolute _) _) _
      simp only [Tree.pathExists_of_isAbsolute hfile t here here', settings_read_of_isAbsolute t here here' hfile]

theorem isAbsolute_localCache (hproject : project.isAbsolute = true) :
    (Settings.localCache project).isAbsolute = true :=
  Path.isAbsolute_join_left (Path.isAbsolute_join_left hproject _) _

theorem findCacheRoot_of_anchored (h : Anchored env o) (hproject : project.isAbsolute = true) :
    Settings.findCacheRoot t here env project = Settings.findCacheRoot t here' env project ∧
      (Settings.findCacheRoot t here env project).isAbsolute = true := by
  have hlocal := isAbsolute_localCache hproject
  unfold Settings.findCacheRoot
  rw [Tree.isDirectory_of_isAbsolute hlocal t here here']
  cases hroot : env.vcpkgRoot with
  | none =>
    refine ⟨rfl, ?_⟩
    split
    · exact hlocal
    · exact hlocal
  | some root =>
    have hshared := Path.isAbsolute_join_left (h.vcpkgRoot root hroot) (ofString "packages")
    simp only [Option.map_some, Tree.isDirectory_of_isAbsolute hshared t here here']
    refine ⟨trivial, ?_⟩
    split
    · exact hlocal
    · split
      · exact hshared
      · exact hlocal

/-- What settings seen from an absolute path order is absolute. -/
theorem anchored_order (h : Anchored env o) (hproject : project.isAbsolute = true) (s : Settings) :
    (order t here env project (s.resolve project)).Anchored := by
  refine ⟨Path.isAbsolute_join_left hproject _, ?sublicenses, ?cacheRoot⟩
  case sublicenses =>
    intro x hx
    obtain ⟨y, -, rfl⟩ := List.mem_map.mp hx
    exact Path.isAbsolute_join_left hproject _
  case cacheRoot =>
    show ((s.cacheRoot.map project.join).getD (Settings.findCacheRoot t here env project)).isAbsolute = true
    cases s.cacheRoot with
    | none => exact (findCacheRoot_of_anchored t here here h hproject).2
    | some root => exact Path.isAbsolute_join_left hproject root

theorem withSettings_of_anchored (h : Anchored env o) (hproject : project.isAbsolute = true) (found : Settings) :
    withSettings t here env o project found = withSettings t here' env o project found := by
  have horder : order t here env project ((override found o).resolve project) =
      order t here' env project ((override found o).resolve project) := by
    unfold order
    rw [(findCacheRoot_of_anchored t here here' h hproject).1]
  have hcollect := Tree.collect_of_anchored t here here' (anchored_order t here' h hproject (override found o))
    (Path.isAbsolute_join_left hproject (override found o).output)
  unfold withSettings
  simp only [horder]
  rw [show ((override found o).resolve project).output = project.join (override found o).output from rfl, hcollect]

/-- If the paths that are not seen from the project are absolute, a run comes out the same from
    every directory: it ends alike, prints alike and leaves the same tree. -/
theorem run_standing {args : List Bytes} (h : ∀ o, CommandLine.parse args = .ok o → Anchored env o) :
    run t here env args = run t here' env args := by
  unfold run
  cases hparse : CommandLine.parse args with
  | error stop =>
    cases stop with
    | help => rfl
    | version => rfl
    | wrong e => rfl
  | ok o =>
    have hanchored := h o hparse
    have hproject := Tree.isAbsolute_canonical hanchored.project t here'
    simp only [withOptions, Tree.canonical_of_isAbsolute hanchored.project t here here',
      load_of_anchored t here here' hanchored hproject, withSettings_of_anchored t here here' hanchored hproject]

/-! ### A run from two directories -/

def awayArgs : List Bytes := [ofString "--output", ofString "vcpkg/notice", ofString "/"]

def awayOptions : Options := { Options.default with path := ofString "/", output := some (ofString "vcpkg/notice") }

def awayEnvironment : Environment := ⟨some (ofString "/home"), some (ofString "/vcpkg"), none⟩

/-- The output path is relative, and is not seen from the directory of the run. -/
theorem run_standing_attic : CommandLine.parse awayArgs = .ok awayOptions ∧ Anchored awayEnvironment awayOptions ∧
    run attic [] awayEnvironment awayArgs = run attic [ofString "vcpkg"] awayEnvironment awayArgs := by
  have hparse : CommandLine.parse awayArgs = .ok awayOptions := rfl
  have hanchored : Anchored awayEnvironment awayOptions := by
    refine ⟨rfl, nofun, ?_, ?_⟩
    · intro p hp
      cases hp
      rfl
    · intro p hp
      cases hp
      rfl
  refine ⟨hparse, hanchored, run_standing attic [] [ofString "vcpkg"] ?_⟩
  intro o ho
  rw [hparse] at ho
  cases ho
  exact hanchored

end Run

end Attribution
