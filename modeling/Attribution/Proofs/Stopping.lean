/-
  Attribution.Proofs.Stopping — where gathering stops, and why.

  (1) What a path leads to, a name behind it leads on from there (`resolve_join`). So the
  files that a walk finds can all be read, as long as the system takes their paths
  (`exists_readBytes_of_found`).

  (2) Gathering is a list of errands, done in order: the license of the project, those of
  the sub-licenses, the cache root, then the files of each package (`errands`). Each
  step stops at the first errand that fails (`gatherSublicenses_snd`,
  `gatherPackages_snd`).

  (3) Nothing else can stop it: gathering fails with the failure of the first errand that
  fails, and not at all if none does (`gather_failure`).
-/
import Attribution.Gathering
import Attribution.Proofs.Encoding
import Attribution.Proofs.Leading
import Attribution.Proofs.Walking

namespace Attribution

open Attribution.Path (ofString)

namespace Tree

variable {t : Tree} {here : Location}

/-! ## (1) Files that are found can be read -/

/-- Further steps go on from where the first ones lead. -/
theorem Leads.trans {links : Nat} {steps more : List Bytes} {l : Location} {s s' : Spot}
    (h : Leads t false links here steps s) (hs : s = .occupied l) (hmore : ∀ k, Leads t false k l more s') :
    Leads t false links here (steps ++ more) s' := by
  induction h with
  | done =>
    cases hs
    exact hmore _
  | stay hd hstep _ ih => exact .stay hd hstep (ih hs)
  | up hd _ ih => exact .up hd (ih hs)
  | vacant => cases hs
  | into hd hstep _ hn hl _ ih => exact .into hd hstep (by simp) hn hl (ih hs)
  | jump hd hstep _ hn _ ih => exact .jump hd hstep (by simp) hn (List.append_assoc _ _ more ▸ ih hs)

/-- An empty step at the end, which a trailing slash leaves, needs a directory and leads no
    further. -/
theorem Leads.of_trailing {links : Nat} {steps first : List Bytes} {s : Spot} (h : Leads t false links here steps s)
    (hsteps : steps = first ++ [[]]) : Leads t false links here first s := by
  induction h generalizing first with
  | done => simp at hsteps
  | @stay links here step rest s hd hstep hrest ih =>
    cases first with
    | nil =>
      obtain ⟨rfl, rfl⟩ := List.cons.inj hsteps
      cases hrest
      exact .done
    | cons f first =>
      obtain ⟨rfl, rfl⟩ := List.cons.inj hsteps
      exact .stay hd hstep (ih rfl)
  | @up links here rest s hd _ ih =>
    cases first with
    | nil => simp [Path.up] at hsteps
    | cons f first =>
      obtain ⟨rfl, rfl⟩ := List.cons.inj hsteps
      exact .up hd (ih rfl)
  | vacant hd hstep hn =>
    cases first with
    | nil => exact absurd (List.cons.inj hsteps).1 hstep.ne_nil
    | cons f first => simp at hsteps
  | @into links here step rest s n hd hstep _ hn hl _ ih =>
    cases first with
    | nil => exact absurd (List.cons.inj hsteps).1 hstep.ne_nil
    | cons f first =>
      obtain ⟨rfl, rfl⟩ := List.cons.inj hsteps
      exact .into hd hstep (by simp) hn hl (ih rfl)
  | @jump links here step rest s target hd hstep _ hn _ ih =>
    cases first with
    | nil => exact absurd (List.cons.inj hsteps).1 hstep.ne_nil
    | cons f first =>
      obtain ⟨rfl, rfl⟩ := List.cons.inj hsteps
      exact .jump hd hstep (by simp) hn (ih (List.append_assoc _ _ _).symm)

def stemSteps (root : Path) : List Bytes := (Path.stem root).filter (· ≠ [])

theorem steps_join (root : Path) {n : Bytes} (h : Path.slash ∉ n) : Path.steps (root.join n) = stemSteps root ++ [n] := by
  rw [Path.steps, Path.pieces_join root h, List.dropLast_concat, List.getLast?_concat]
  rfl

/-- A path has the steps that stay in front of a name, and an empty one at the end if a slash
    is there. -/
theorem steps_eq {root : Path} (h : root ≠ []) :
    root.steps = stemSteps root ∨ root.steps = stemSteps root ++ [[]] := by
  obtain ⟨r, b, rfl⟩ : ∃ r b, root = r ++ [b] := ⟨_, _, (List.dropLast_append_getLast h).symm⟩
  by_cases hb : b = Path.slash
  · right
    have hpieces : Path.pieces (r ++ [Path.slash]) = Path.pieces r ++ [[]] := Path.pieces_append_slash r []
    rw [hb, stemSteps, Path.stem_append_slash, Path.steps, hpieces, List.dropLast_concat, List.getLast?_concat]
    rfl
  · rw [stemSteps, Path.stem_append_of_ne r hb, Path.steps]
    have hsplit := List.dropLast_append_getLast (Path.pieces_ne_nil (r ++ [b]))
    generalize (Path.pieces (r ++ [b])).getLast _ = last at hsplit
    generalize (Path.pieces (r ++ [b])).dropLast = first at hsplit
    rw [← hsplit, List.getLast?_concat, List.filter_append]
    by_cases hlast : last = []
    · exact Or.inr (by simp [hlast])
    · exact Or.inl (by simp [hlast])

theorem proceeds_of_isName {n : Bytes} (h : IsName n) : Proceeds n :=
  ⟨h.1, h.2.1, h.2.2.1, h.2.2.2.2.2⟩

theorem length_le_join (root : Path) {n : Bytes} (h : Path.slash ∉ n) : root.length ≤ (root.join n).length := by
  rw [Path.join_of_not_isAbsolute (Path.isAbsolute_of_no_slash h), List.length_append, List.length_append]
  omega

/-- What a path leads to, a name behind it leads on from there, unless to a link or too far for
    the system. -/
theorem resolve_join {root : Path} {l : Location} {n : Bytes} {node : Node} (hl : t.resolve here root = .ok l)
    (hn : t.node? (l ++ [n]) = some node) (hnode : ∀ target, node ≠ .link target)
    (hlen : (root.join n).length < pathLimit) : t.resolve here (root.join n) = .ok (l ++ [n]) := by
  obtain ⟨⟨h0, hne, -⟩, hleads⟩ := spot_eq_ok_iff.mp (resolve_eq_ok_iff.mp hl)
  have hname : IsName n := isName_of_node? (by rw [hn]; simp)
  obtain ⟨hn0, -, -, hslash, hnul, -⟩ := id hname
  have hjoin := Path.join_of_not_isAbsolute (Path.isAbsolute_of_no_slash hslash) root
  have hstart : (root.join n).start here = root.start here := by
    rw [Path.start, Path.start, hjoin, List.append_assoc, Path.isAbsolute_append hne]
  have hfirst : Leads t false linkLimit (root.start here) (stemSteps root) (.occupied l) := by
    rcases steps_eq hne with h | h
    · rwa [h] at hleads
    · exact hleads.of_trailing h
  refine resolve_eq_ok_iff.mpr (spot_eq_ok_iff.mpr ⟨⟨?_, ?_, hlen⟩, ?_⟩)
  · rw [hjoin, Path.separator]
    have hzero : (0 : UInt8) ≠ Path.slash := by decide
    split <;> simp [h0, hnul, hzero]
  · rw [hjoin]
    simp [hne]
  · rw [hstart, steps_join root hslash]
    exact hfirst.trans rfl fun k =>
      .into (directory_parent hn) (proceeds_of_isName hname) (by simp) hn hnode .done

theorem resolve_pathFrom {dir : Path} {l : Location} {ns : List Bytes} {node : Node} (hl : t.resolve here dir = .ok l)
    (hn : t.node? (l ++ ns) = some node) (hnode : ∀ target, node ≠ .link target)
    (hlen : (pathFrom dir ns).length < pathLimit) : t.resolve here (pathFrom dir ns) = .ok (l ++ ns) := by
  induction ns using List.reverseRecOn generalizing node with
  | nil => simpa [pathFrom] using hl
  | append_singleton ns n ih =>
    rw [← List.append_assoc] at hn ⊢
    rw [pathFrom_concat] at hlen ⊢
    have hslash : Path.slash ∉ n := (isName_of_node? (by rw [hn]; simp)).2.2.2.1
    have hle := length_le_join (pathFrom dir ns) hslash
    exact resolve_join (ih (directory_parent hn) (by simp) (by omega)) hn hnode hlen

/-- The system takes the paths of all nodes beneath a directory. -/
def WithinReach (t : Tree) (here : Location) (dir : Path) : Prop :=
  ∀ l ns, t.resolve here dir = .ok l → t.node? (l ++ ns) ≠ none → (pathFrom dir ns).length < pathLimit

/-- A walk within reach ends well, and what it finds can be read. -/
theorem exists_readBytes_of_found {dir : Path} (name : Bytes) (hdir : t.isDirectory here dir = true)
    (hreach : t.WithinReach here dir) :
    ∃ paths, t.findFiles here dir name = .ok paths ∧ ∀ p ∈ paths, ∃ b, t.readBytes here p = .ok b := by
  obtain ⟨l, hl⟩ := exists_resolve_of_isDirectory hdir
  have hnone : ∀ ns, ¬ t.OutOfReach l dir ns := by
    intro ns hout
    have := hreach l ns hl (by simp [(descends_iff.mp hout.directory).2])
    have := hout.tooLong
    omega
  obtain ⟨ways, hways, hok⟩ := findFiles_eq_ok_of_reach name hdir hl hnone
  refine ⟨_, hok, fun p hp => ?_⟩
  obtain ⟨ns, hns, rfl⟩ := List.mem_map.mp hp
  obtain ⟨-, node, hdown, hfile⟩ := (hways.exact ns).mp hns
  have hnode := (descends_iff.mp hdown).2
  obtain ⟨k, content, hk, hcontent⟩ : ∃ k content, t.resolve here (pathFrom dir ns) = .ok k ∧
      t.node? k = some (.file content) := by
    rcases hfile with ⟨content, rfl⟩ | ⟨-, h⟩
    · exact ⟨_, content, resolve_pathFrom hl hnode (by simp) (hreach l ns hl (by simp [hnode])), hnode⟩
    · exact h
  refine ⟨content, ?_⟩
  rw [readBytes, hk]
  simp only [hcontent]

/-! ## (2) Errands -/

inductive Errand where
  /-- Read the text at a path. -/
  | read (p : Path)
  /-- List the package directories in the cache root. -/
  | list (root : Path)

def Errand.failure? (t : Tree) (here : Location) : Errand → Option Failure
  | read p => match t.readText here p with
    | .ok _ => none
    | .error c => some (.unreadable p c)
  | list root => if t.isDirectory here root then none else some (.noCacheRoot root)

def filesOf (t : Tree) (here : Location) (name : Text) (dir : Path) : List Path :=
  match t.findFiles here dir (Text.encode name) with
  | .ok paths => paths
  | .error _ => []

def packageErrands (t : Tree) (here : Location) (o : Order) (names : List Bytes) : List Errand :=
  names.flatMap fun n => (t.filesOf here o.copyrightFile (o.cacheRoot.join n)).map .read

/-- All errands of an order: the project, the sub-licenses in their order, the cache root, then
    the packages in the order of their names and the files of each as they are found. -/
def errands (t : Tree) (here : Location) (o : Order) (names : List Bytes) : List Errand :=
  .read o.license :: (o.sublicenses.map (fun s => .read s.path) ++ .list o.cacheRoot :: t.packageErrands here o names)

theorem failure?_read_eq {p : Path} : (Errand.read p).failure? t here =
    match t.readLicense here p with
    | .ok _ => none
    | .error f => some f := by
  rw [Errand.failure?, readLicense]
  cases t.readText here p <;> rfl

theorem gatherSublicenses_snd (ss : List Sublicense) (g : Gathering) : (t.gatherSublicenses here ss g).2 =
    (ss.map fun s => Errand.read s.path).findSome? (Errand.failure? t here) := by
  induction ss generalizing g with
  | nil => rfl
  | cons s ss ih =>
    rw [gatherSublicenses, List.map_cons, List.findSome?_cons, failure?_read_eq]
    cases t.readLicense here s.path with
    | error f => rfl
    | ok text => exact ih _

theorem readLicenses_eq_error (ps : List Path) :
    (match t.readLicenses here ps with
      | .ok _ => none
      | .error f => some f) = (ps.map Errand.read).findSome? (Errand.failure? t here) := by
  induction ps with
  | nil => rfl
  | cons p ps ih =>
    rw [List.map_cons, List.findSome?_cons, failure?_read_eq, ← ih, readLicenses]
    cases t.readLicense here p with
    | error f => rfl
    | ok s => cases t.readLicenses here ps <;> rfl

/-- A package stops at the first of its files that is no text. -/
theorem readPackage_eq_error {name : Text} {dir : Path} {paths : List Path}
    (hfind : t.findFiles here dir (Text.encode name) = .ok paths) :
    (match t.readPackage here name dir with
      | .ok _ => none
      | .error f => some f) = ((t.filesOf here name dir).map Errand.read).findSome? (Errand.failure? t here) := by
  rw [filesOf, hfind, ← readLicenses_eq_error, readPackage, hfind]
  cases h : t.readLicenses here paths <;> simp [h, Except.mapError, bind, Except.bind, pure, Except.pure]

theorem gatherPackages_snd {o : Order} {names : List Bytes}
    (hfind : ∀ n ∈ names, ∃ paths, t.findFiles here (o.cacheRoot.join n) (Text.encode o.copyrightFile) = .ok paths)
    (g : Gathering) : (t.gatherPackages here o.copyrightFile (names.map o.cacheRoot.join) g).2 =
      (t.packageErrands here o names).findSome? (Errand.failure? t here) := by
  induction names generalizing g with
  | nil => rfl
  | cons n names ih =>
    obtain ⟨⟨paths, hfirst⟩, hfind⟩ := List.forall_mem_cons.mp hfind
    rw [List.map_cons, gatherPackages, packageErrands, List.flatMap_cons, List.findSome?_append,
      ← readPackage_eq_error hfirst]
    cases t.readPackage here o.copyrightFile (o.cacheRoot.join n) with
    | error f => rfl
    | ok x => exact ih hfind _

theorem subdirectories?_eq_none_iff {root : Path} :
    t.subdirectories? here root = none ↔ t.isDirectory here root = false := by
  rw [subdirectories?, isDirectory, target?]
  cases t.resolve here root with
  | error c => simp
  | ok l => by_cases hd : t.node? l = some .directory <;> simp [hd]

/-! ## (3) Where gathering stops -/

def HoldsText (t : Tree) (here : Location) (p : Path) : Prop :=
  ∃ l s, t.resolve here p = .ok l ∧ t.node? l = some (.file (Text.encode s))

/-- Among the files that are found for the packages of these names there is one that is no text. -/
def HasGarbled (t : Tree) (here : Location) (o : Order) (names : List Bytes) : Prop :=
  ∃ n ∈ names, ∃ paths, t.findFiles here (o.cacheRoot.join n) (Text.encode o.copyrightFile) = .ok paths ∧
    ∃ p ∈ paths, ∃ b, t.readBytes here p = .ok b ∧ ∀ s, Text.encode s ≠ b

theorem readBytes_eq_ok_iff {p : Path} {b : Bytes} : t.readBytes here p = .ok b ↔
    ∃ l, t.resolve here p = .ok l ∧ t.node? l = some (.file b) := by
  rw [readBytes]
  cases t.resolve here p with
  | error c => simp
  | ok l => rcases hn : t.node? l with _ | (_ | content | target) <;> simp [hn]

theorem failure?_of_readBytes {p : Path} {b : Bytes} (h : t.readBytes here p = .ok b) :
    (Errand.read p).failure? t here = match Text.decode? b with
      | some _ => none
      | none => some (.unreadable p .notUtf8) := by
  rw [Errand.failure?, readText, h]
  cases hd : Text.decode? b <;> simp [hd]

theorem failure?_read_eq_none_iff {p : Path} : (Errand.read p).failure? t here = none ↔ t.HoldsText here p := by
  constructor
  · intro h
    rw [Errand.failure?, readText] at h
    cases hb : t.readBytes here p with
    | error c => simp [hb] at h
    | ok b =>
      cases hs : Text.decode? b with
      | none => simp [hb, hs] at h
      | some s =>
        obtain ⟨l, hl, hn⟩ := readBytes_eq_ok_iff.mp hb
        exact ⟨l, s, hl, by rw [hn, Text.decode?_eq_some_iff.mp hs]⟩
  · rintro ⟨l, s, hl, hn⟩
    rw [failure?_of_readBytes (readBytes_eq_ok_iff.mpr ⟨l, hl, hn⟩), Text.decode?_encode]

theorem failure?_list_eq_none_iff {root : Path} :
    (Errand.list root).failure? t here = none ↔ t.isDirectory here root = true := by
  rw [Errand.failure?]
  split <;> simp_all

theorem Listed.isDirectory {root : Path} {names : List Bytes} (h : t.Listed here root names) {n : Bytes}
    (hn : n ∈ names) : t.isDirectory here (root.join n) = true := by
  obtain ⟨l, -, -, hmem⟩ := h.complete
  exact ((hmem n).mp hn).2

theorem Listed.subdirectories?_eq {root : Path} {names : List Bytes} (h : t.Listed here root names) :
    t.subdirectories? here root = some (names.map root.join) := by
  obtain ⟨l, hl, hd, -⟩ := h.complete
  have hdir : t.isDirectory here root = true := by simp [Tree.isDirectory, target?, hl, hd]
  obtain ⟨dirs, hdirs⟩ : ∃ dirs, t.subdirectories? here root = some dirs :=
    Option.ne_none_iff_exists'.mp fun h => by simp [subdirectories?_eq_none_iff.mp h] at hdir
  obtain ⟨names', rfl, h'⟩ := subdirectories?_eq_some hdirs
  rw [hdirs, h.unique h']

theorem exists_listed {root : Path} (h : t.isDirectory here root = true) : ∃ names, t.Listed here root names := by
  cases hdirs : t.subdirectories? here root with
  | none => simp [subdirectories?_eq_none_iff.mp hdirs] at h
  | some dirs =>
    obtain ⟨names, -, hlisted⟩ := subdirectories?_eq_some hdirs
    exact ⟨names, hlisted⟩

def PackagesWithinReach (t : Tree) (here : Location) (root : Path) : Prop :=
  ∀ names, t.Listed here root names → ∀ n ∈ names, t.WithinReach here (root.join n)

section Packages

variable {o : Order} {names : List Bytes}

/-- In a package that is listed, every file that is found can be read. -/
theorem exists_readBytes_of_listed (hreach : t.PackagesWithinReach here o.cacheRoot)
    (hlisted : t.Listed here o.cacheRoot names) : ∀ n ∈ names, ∃ paths,
      t.findFiles here (o.cacheRoot.join n) (Text.encode o.copyrightFile) = .ok paths ∧
        ∀ p ∈ paths, ∃ b, t.readBytes here p = .ok b :=
  fun n hn => exists_readBytes_of_found _ (hlisted.isDirectory hn) (hreach names hlisted n hn)

/-- Gathering stops at the first errand that fails. -/
theorem gather_snd (bar : Progress) (hreach : t.PackagesWithinReach here o.cacheRoot)
    (hlisted : t.isDirectory here o.cacheRoot = true → t.Listed here o.cacheRoot names) :
    (t.gather here o bar).2 = (t.errands here o names).findSome? (Errand.failure? t here) := by
  rw [gather, errands, List.findSome?_cons, failure?_read_eq]
  cases t.readLicense here o.license with
  | error f => rfl
  | ok text =>
    simp only
    rw [List.findSome?_append, ← gatherSublicenses_snd o.sublicenses ((Gathering.start bar).push o.label text)]
    rcases t.gatherSublicenses here o.sublicenses ((Gathering.start bar).push o.label text) with ⟨g, f | f⟩
    case some => rfl
    simp only [Option.none_or, List.findSome?_cons, Errand.failure?]
    cases hdir : t.isDirectory here o.cacheRoot with
    | false =>
      rw [subdirectories?_eq_none_iff.mpr hdir]
      rfl
    | true =>
      rw [(hlisted hdir).subdirectories?_eq]
      refine gatherPackages_snd (fun n hn => ?_) _
      obtain ⟨paths, hpaths, -⟩ := exists_readBytes_of_listed hreach (hlisted hdir) n hn
      exact ⟨paths, hpaths⟩

/-- An errand in a package fails iff there is a file that is no text. -/
theorem exists_failure_in_packages (hreach : t.PackagesWithinReach here o.cacheRoot)
    (hlisted : t.Listed here o.cacheRoot names) :
    (∃ e ∈ t.packageErrands here o names, e.failure? t here ≠ none) ↔ t.HasGarbled here o names := by
  simp only [packageErrands, List.mem_flatMap, List.mem_map, HasGarbled]
  constructor
  · rintro ⟨_, ⟨n, hn, p, hp, rfl⟩, hfail⟩
    obtain ⟨paths, hpaths, hread⟩ := exists_readBytes_of_listed hreach hlisted n hn
    rw [filesOf, hpaths] at hp
    obtain ⟨b, hb⟩ := hread p hp
    refine ⟨n, hn, paths, hpaths, p, hp, b, hb, fun s hs => hfail ?_⟩
    rw [failure?_of_readBytes hb, Text.decode?_eq_some_iff.mpr hs]
  · rintro ⟨n, hn, paths, hpaths, p, hp, b, hb, hgarbled⟩
    refine ⟨.read p, ⟨n, hn, p, by rwa [filesOf, hpaths], rfl⟩, fun hnone => ?_⟩
    rw [failure?_of_readBytes hb] at hnone
    cases hd : Text.decode? b with
    | none => simp [hd] at hnone
    | some s => exact hgarbled s (Text.decode?_eq_some_iff.mp hd)

/-- Which errands fail. -/
theorem exists_failure_iff (hreach : t.PackagesWithinReach here o.cacheRoot)
    (hlisted : t.isDirectory here o.cacheRoot = true → t.Listed here o.cacheRoot names) :
    (∃ e ∈ t.errands here o names, e.failure? t here ≠ none) ↔
      ¬ t.HoldsText here o.license ∨ (∃ s ∈ o.sublicenses, ¬ t.HoldsText here s.path) ∨
        t.isDirectory here o.cacheRoot = false ∨ t.HasGarbled here o names := by
  rw [errands, List.exists_mem_cons_iff, Ne, failure?_read_eq_none_iff]
  refine or_congr_right ?_
  simp only [List.mem_append, or_and_right, exists_or]
  refine or_congr (by simp [failure?_read_eq_none_iff]) ?_
  rw [List.exists_mem_cons_iff, Ne, failure?_list_eq_none_iff, Bool.not_eq_true]
  cases hdir : t.isDirectory here o.cacheRoot with
  | false => simp
  | true => simp only [Bool.true_eq_false, false_or, exists_failure_in_packages hreach (hlisted hdir)]

end Packages

/-- Gathering fails with the failure of the first errand that fails. It fails iff the license
    of the project or of a sub-license is no text, or the cache root is no directory, or a file
    that is found for a package is no text. -/
theorem gather_failure (o : Order) (bar : Progress) (hreach : t.PackagesWithinReach here o.cacheRoot) : ∃ names,
    (t.isDirectory here o.cacheRoot = true → t.Listed here o.cacheRoot names) ∧
      (t.gather here o bar).2 = (t.errands here o names).findSome? (Errand.failure? t here) ∧
      ((t.gather here o bar).2 ≠ none ↔
        ¬ t.HoldsText here o.license ∨ (∃ s ∈ o.sublicenses, ¬ t.HoldsText here s.path) ∨
          t.isDirectory here o.cacheRoot = false ∨ t.HasGarbled here o names) := by
  obtain ⟨names, hlisted⟩ : ∃ names, t.isDirectory here o.cacheRoot = true → t.Listed here o.cacheRoot names := by
    by_cases hdir : t.isDirectory here o.cacheRoot = true
    · obtain ⟨names, h⟩ := exists_listed hdir
      exact ⟨names, fun _ => h⟩
    · exact ⟨[], fun h => absurd h hdir⟩
  have hfirst := gather_snd bar hreach hlisted
  refine ⟨names, hlisted, hfirst, ?_⟩
  rw [hfirst, ← exists_failure_iff hreach hlisted, Ne, List.findSome?_eq_none_iff]
  push Not
  rfl

/-! ### A package that stops it -/

/-- A package whose copyright file is no text. -/
def scrap : Tree where
  entries := [([ofString "license"], .file (ofString "ours")), ([ofString "cache"], .directory),
    ([ofString "cache", ofString "zlib"], .directory),
    ([ofString "cache", ofString "zlib", ofString "copyright"], .file [0xFF])]
  wellFormed := ⟨by decide, by decide, by decide, by decide⟩

def scrapOrder : Order := ⟨"app".toList, ofString "license", [], ofString "cache", "copyright".toList⟩

theorem mem_scrap {l : Location} (h : scrap.node? l ≠ none) : l = [] ∨ l ∈ scrap.entries.map Prod.fst := by
  obtain ⟨n, hn⟩ := Option.ne_none_iff_exists'.mp h
  rcases (node?_eq_some_iff scrap).mp hn with ⟨h, -⟩ | h
  · exact .inl h
  · exact .inr (List.mem_map_of_mem h)

theorem listed_scrap : scrap.Listed [] (ofString "cache") [ofString "zlib"] := by
  refine ⟨List.pairwise_singleton _ _, [ofString "cache"], rfl, rfl, fun n => ⟨fun hn => ?_, fun ⟨hn, _⟩ => ?_⟩⟩
  · obtain rfl := List.mem_singleton.mp hn
    exact ⟨by decide, rfl⟩
  · simpa [scrap] using mem_scrap hn

theorem packagesWithinReach_scrap : scrap.PackagesWithinReach [] (ofString "cache") := by
  intro names hlisted n hn l ns hl hnode
  obtain rfl := hlisted.unique listed_scrap
  obtain rfl := List.mem_singleton.mp hn
  obtain rfl : [ofString "cache", ofString "zlib"] = l := Except.ok.inj hl
  obtain rfl | rfl : ns = [] ∨ ns = [ofString "copyright"] := by simpa [scrap] using mem_scrap hnode
  · decide
  · decide

theorem gather_failure_scrap : scrap.PackagesWithinReach [] scrapOrder.cacheRoot ∧
    (scrap.gather [] scrapOrder).2 = some (.unreadable (ofString "cache/zlib/copyright") .notUtf8) := by
  obtain ⟨names, hlisted, hfirst, -⟩ := gather_failure scrapOrder _ packagesWithinReach_scrap
  obtain rfl := (hlisted rfl).unique listed_scrap
  have hbeneath : scrap.beneath [ofString "cache", ofString "zlib"] = [([ofString "copyright"], .file [0xFF])] := by
    decide
  have hsorted : scrap.sortedBeneath [ofString "cache", ofString "zlib"] =
      [([ofString "copyright"], .file [0xFF])] := by
    rw [sortedBeneath, hbeneath, List.mergeSort_singleton]
  have hfiles : scrap.filesOf [] scrapOrder.copyrightFile (scrapOrder.cacheRoot.join (ofString "zlib")) =
      [ofString "cache/zlib/copyright"] := by
    show scrap.filesOf [] "copyright".toList (ofString "cache/zlib") = _
    rw [filesOf, findFiles,
      show scrap.resolve [] (ofString "cache/zlib") = .ok [ofString "cache", ofString "zlib"] from rfl]
    simp only [hsorted]
    rfl
  refine ⟨packagesWithinReach_scrap, hfirst.trans ?_⟩
  rw [errands, packageErrands, List.flatMap_singleton, hfiles]
  rfl

end Tree

end Attribution
