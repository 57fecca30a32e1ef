/-
  Attribution.Proofs.Tracing — what is told on the way says how far gathering got.

  (1) A list of errands is done up to the first that fails (`exists_first_error`).

  (2) A sub-license is noticed when it is begun, a package when it is completed, and each
  package completed moves the position on by one (`completes_one`). So what the front of a
  list changes is read off what has been done of it (`gatherSublicenses_append`,
  `gatherPackages_append`).

  (3) Gathering gets to one of five places (`Tree.GotTo`). The lines printed are those of the
  place (`Extent.lines`), and so is the progress, which goes on from the bar that is attached
  (`GotTo.traced`). At the end the bar is finished (`collect_cleared`), and what was told
  stands on the standard error of a run that is not quiet (`GotTo.stderr`, `gather_traced`).
-/
import Attribution.Proofs.Inventory
import Attribution.Proofs.Telling

namespace Attribution

/-! ## (1) The first that fails -/

/-- Either all can be done, or there is a first that fails. -/
theorem exists_first_error {α β ε : Type} (act : α → Except ε β) (xs : List α) :
    (∃ ys, List.Forall₂ (fun x y => act x = .ok y) xs ys) ∨
      ∃ before x after ys e, xs = before ++ x :: after ∧
        List.Forall₂ (fun x y => act x = .ok y) before ys ∧ act x = .error e := by
  induction xs with
  | nil => exact .inl ⟨[], .nil⟩
  | cons x xs ih =>
    cases hx : act x with
    | error e => exact .inr ⟨[], x, xs, [], e, rfl, .nil, hx⟩
    | ok y =>
      obtain ⟨ys, hys⟩ | ⟨before, z, after, ys, e, rfl, hys, hz⟩ := ih
      · exact .inl ⟨y :: ys, .cons hx hys⟩
      · exact .inr ⟨x :: before, z, after, y :: ys, e, rfl, .cons hx hys, hz⟩

/-! ## (2) What is told of the front of a list -/

namespace Gathering

structure Completes (g : Gathering) (dirs : List Path) (ps : List Package) (g' : Gathering) : Prop where
  notices : g'.notices = g.notices ++ ps.map Package.notice
  packages : g'.packages = g.packages ++ ps
  length : g'.progress.length = g.progress.length
  position : g'.progress.position = g.progress.position + ps.length
  message : g'.progress.message = (dirs.getLast?.map Package.nameOf).getD g.progress.message
  finished : g'.progress.finished = g.progress.finished

variable {g g₁ g₂ : Gathering} {dirs : List Path} {ps : List Package}

theorem completes_none (g : Gathering) : Completes g [] [] g where
  notices := (List.append_nil _).symm
  packages := (List.append_nil _).symm
  length := rfl
  position := rfl
  message := rfl
  finished := rfl

/-- One package that is begun and completed. -/
theorem completes_one (g : Gathering) (dir : Path) (p : Package) (texts : List Text) :
    Completes g [dir] [p] ((g.begin (Package.nameOf dir)).complete p texts) where
  notices := rfl
  packages := rfl
  length := rfl
  position := rfl
  message := rfl
  finished := rfl

theorem Completes.cons {dir : Path} {p : Package} (h : Completes g [dir] [p] g₁) (h' : Completes g₁ dirs ps g₂) :
    Completes g (dir :: dirs) (p :: ps) g₂ where
  notices := by
    rw [h'.notices, h.notices, List.append_assoc]
    rfl
  packages := by
    rw [h'.packages, h.packages, List.append_assoc]
    rfl
  length := h'.length.trans h.length
  position := by
    rw [h'.position, h.position]
    exact (Nat.add_assoc _ 1 _).trans (congrArg _ (Nat.add_comm 1 _))
  message := by
    rw [h'.message, h.message]
    cases dirs with
    | nil => rfl
    | cons d dirs =>
      rw [List.getLast?_cons_cons, List.getLast?_cons]
      rfl
  finished := h'.finished.trans h.finished

end Gathering

namespace Tree

variable {t : Tree} {here : Location}

/-- Sub-licenses that can be read are noticed, and change nothing else of what is told. -/
theorem gatherSublicenses_append {before : List Sublicense} {texts : List Text}
    (h : List.Forall₂ (fun s text => t.readLicense here s.path = .ok text) before texts) (rest : List Sublicense)
    (g : Gathering) : ∃ g', t.gatherSublicenses here (before ++ rest) g = t.gatherSublicenses here rest g' ∧
      g'.notices = g.notices ++ before.map (fun s => .sublicense s.label) ∧ g'.packages = g.packages ∧
      g'.progress = g.progress := by
  induction h generalizing g with
  | nil => exact ⟨g, rfl, (List.append_nil _).symm, rfl, rfl⟩
  | @cons s text before texts hs _ ih =>
    obtain ⟨g', hg', hnotices, hpackages, hprogress⟩ := ih ((g.note (.sublicense s.label)).push s.label text)
    refine ⟨g', ?_, ?_, hpackages, hprogress⟩
    · rw [List.cons_append, gatherSublicenses, hs]
      exact hg'
    · rw [hnotices, List.map_cons]
      exact List.append_assoc _ [_] _

/-- Packages that can be read are completed one after the other. -/
theorem gatherPackages_append {file : Text} {before : List Path} {done : List (Package × List Text)}
    (h : List.Forall₂ (fun dir x => t.readPackage here file dir = .ok x) before done) (rest : List Path)
    (g : Gathering) : ∃ g', t.gatherPackages here file (before ++ rest) g = t.gatherPackages here file rest g' ∧
      g.Completes before (done.map Prod.fst) g' := by
  induction h generalizing g with
  | nil => exact ⟨g, rfl, g.completes_none⟩
  | @cons dir x before done hx _ ih =>
    obtain ⟨g', hg', hcompletes⟩ := ih ((g.begin (Package.nameOf dir)).complete x.1 x.2)
    refine ⟨g', ?_, (g.completes_one dir x.1 x.2).cons hcompletes⟩
    rw [List.cons_append, gatherPackages, hx]
    exact hg'

/-! ## (3) How far gathering got -/

structure Extent where
  /-- The sub-licenses begun, the last of which may be one that cannot be read. -/
  sublicenses : List Sublicense
  /-- The package directories, once they have been listed. -/
  listed : Option (List Path)
  /-- The directories of the packages begun, the last of which may be one that cannot be
      read. -/
  begun : List Path
  /-- The packages completed. -/
  packages : List Package

namespace Extent

variable (color : Bool)

def rootLine (root : Path) : Text :=
  "  ".toList ++ Style.cyan.paint color "→".toList ++ " Scanning ".toList ++ Style.bold.paint color root.shown ++
    "\n".toList

def sublicenseLine (s : Sublicense) : Text :=
  "  ".toList ++ Style.cyan.paint color "→".toList ++ " Getting license for: ".toList ++
    Style.bold.paint color s.label ++ "\n".toList

def packageLine (p : Package) : Text :=
  "  ".toList ++ Style.cyan.paint color "→".toList ++ " Getting license for: ".toList ++
    Style.bold.paint color p.name ++ " ".toList ++
    (match p.copyrightPaths with
      | [] => Style.yellow.paint color "No license found!".toList
      | paths => Style.green.paint color ("Found ".toList ++ Text.ofNat paths.length ++ " licenses".toList)) ++
    "\n".toList

/-- What is printed: a line for each sub-license begun, then one for each package completed. -/
def lines (e : Extent) : Text := e.sublicenses.flatMap (sublicenseLine color) ++ e.packages.flatMap (packageLine color)

theorem arrow_root (root : Path) :
    Notice.arrow color ("Scanning ".toList ++ Style.bold.paint color root.shown) = rootLine color root := by
  have hscanning : " Scanning ".toList = " ".toList ++ "Scanning ".toList := by decide
  simp only [Notice.arrow, rootLine, hscanning, List.append_assoc]

theorem arrow_getting (t : Text) :
    Notice.arrow color ("Getting license for: ".toList ++ t) =
      "  ".toList ++ Style.cyan.paint color "→".toList ++ " Getting license for: ".toList ++ t ++ "\n".toList := by
  have hgetting : " Getting license for: ".toList = " ".toList ++ "Getting license for: ".toList := by decide
  simp only [Notice.arrow, hgetting, List.append_assoc]

theorem line_sublicense (s : Sublicense) : Notice.line color (.sublicense s.label) = sublicenseLine color s :=
  arrow_getting color _

theorem status_eq (p : Package) :
    Notice.status color p.copyrightPaths.length =
      match p.copyrightPaths with
      | [] => Style.yellow.paint color "No license found!".toList
      | paths => Style.green.paint color ("Found ".toList ++ Text.ofNat paths.length ++ " licenses".toList) := by
  cases p.copyrightPaths with
  | nil => rfl
  | cons q qs => exact if_neg (Nat.succ_ne_zero qs.length)

theorem line_package (p : Package) : Notice.line color p.notice = packageLine color p := by
  have hmessage : p.notice.message color = "Getting license for: ".toList ++
      (Style.bold.paint color p.name ++ " ".toList ++ Notice.status color p.copyrightPaths.length) := by
    show "Getting license for: ".toList ++ _ ++ _ ++ _ = _
    simp only [List.append_assoc]
  rw [Notice.line, hmessage, arrow_getting, status_eq, packageLine]
  simp only [List.append_assoc]

theorem told_eq_lines {g : Gathering} {e : Extent}
    (h : g.notices = e.sublicenses.map (fun s => .sublicense s.label) ++ e.packages.map Package.notice) :
    g.told color = e.lines color := by
  simp only [Gathering.told, h, List.flatMap_append, List.flatMap_map, line_sublicense, line_package]
  rfl

end Extent

section

variable (t : Tree) (here : Location) (o : Order)

/-- How far gathering gets, and the failure that it stops at: nowhere, to a sub-license that
    cannot be read, to the cache root, to a package that cannot be read, or to the end. -/
inductive GotTo : Extent → Option Failure → Prop
  | nowhere {f : Failure} : t.readLicense here o.license = .error f → GotTo ⟨[], none, [], []⟩ (some f)
  | sublicense {text : Text} {before after : List Sublicense} {s : Sublicense} {texts : List Text} {f : Failure} :
      t.readLicense here o.license = .ok text → o.sublicenses = before ++ s :: after →
      List.Forall₂ (fun s text => t.readLicense here s.path = .ok text) before texts →
      t.readLicense here s.path = .error f → GotTo ⟨before ++ [s], none, [], []⟩ (some f)
  | cacheRoot {text : Text} {texts : List Text} : t.readLicense here o.license = .ok text →
      List.Forall₂ (fun s text => t.readLicense here s.path = .ok text) o.sublicenses texts →
      t.subdirectories? here o.cacheRoot = none →
      GotTo ⟨o.sublicenses, none, [], []⟩ (some (.noCacheRoot o.cacheRoot))
  | package {text : Text} {texts : List Text} {before after : List Path} {dir : Path}
      {done : List (Package × List Text)} {f : Failure} : t.readLicense here o.license = .ok text →
      List.Forall₂ (fun s text => t.readLicense here s.path = .ok text) o.sublicenses texts →
      t.subdirectories? here o.cacheRoot = some (before ++ dir :: after) →
      List.Forall₂ (fun dir x => t.readPackage here o.copyrightFile dir = .ok x) before done →
      t.readPackage here o.copyrightFile dir = .error f →
      GotTo ⟨o.sublicenses, some (before ++ dir :: after), before ++ [dir], done.map Prod.fst⟩ (some f)
  | everything {text : Text} {texts : List Text} {dirs : List Path} {done : List (Package × List Text)} :
      t.readLicense here o.license = .ok text →
      List.Forall₂ (fun s text => t.readLicense here s.path = .ok text) o.sublicenses texts →
      t.subdirectories? here o.cacheRoot = some dirs →
      List.Forall₂ (fun dir x => t.readPackage here o.copyrightFile dir = .ok x) dirs done →
      GotTo ⟨o.sublicenses, some dirs, dirs, done.map Prod.fst⟩ none

/-- What is told by the end of gathering that got so far, on a bar that was attached: a line for
    each sub-license begun, then one for each package completed, and the progress. -/
structure Traced (bar : Progress) (e : Extent) (failure : Option Failure) (g : Gathering) : Prop where
  told : ∀ color, g.told color = e.lines color
  packages : g.packages = e.packages
  /-- The length is not touched until the packages have been listed. -/
  length : g.progress.length = (e.listed.map List.length).or bar.length
  position : g.progress.position = bar.position + e.packages.length
  inBounds : ∀ dirs, e.listed = some dirs → g.progress.position ≤ bar.position + dirs.length
  atEnd : failure = none → ∃ dirs, e.listed = some dirs ∧ g.progress.position = bar.position + dirs.length
  message : g.progress.message = (e.begun.getLast?.map Package.nameOf).getD bar.message
  /-- The package that gathering stops at is the one at the position. -/
  stopped : ∀ dirs f, e.listed = some dirs → failure = some f → ∃ k dir, g.progress.position = bar.position + k ∧
    dirs[k]? = some dir ∧ t.readPackage here o.copyrightFile dir = .error f ∧
    g.progress.message = Package.nameOf dir
  finished : g.progress.finished = bar.finished

/-- Gathering gets somewhere. -/
theorem exists_gotTo : ∃ e f, t.GotTo here o e f := by
  cases hlicense : t.readLicense here o.license with
  | error f => exact ⟨_, _, .nowhere hlicense⟩
  | ok text =>
    obtain ⟨texts, hsub⟩ | ⟨before, s, after, texts, f, hsplit, hbefore, hs⟩ :=
      exists_first_error (fun s : Sublicense => t.readLicense here s.path) o.sublicenses
    case inr => exact ⟨_, _, .sublicense hlicense hsplit hbefore hs⟩
    cases hdirs : t.subdirectories? here o.cacheRoot with
    | none => exact ⟨_, _, .cacheRoot hlicense hsub hdirs⟩
    | some dirs =>
      obtain ⟨done, hdone⟩ | ⟨before, dir, after, done, f, rfl, hbefore, hdir⟩ :=
        exists_first_error (t.readPackage here o.copyrightFile) dirs
      · exact ⟨_, _, .everything hlicense hsub hdirs hdone⟩
      · exact ⟨_, _, .package hlicense hsub hdirs hbefore hdir⟩

end

variable {o : Order} {bar : Progress} {e : Extent} {failure : Option Failure}

/-- When all sub-licenses can be read, gathering goes on with the packages. -/
theorem gather_of_listed {text : Text} {texts : List Text} {dirs : List Path}
    (hlicense : t.readLicense here o.license = .ok text)
    (hsub : List.Forall₂ (fun s text => t.readLicense here s.path = .ok text) o.sublicenses texts)
    (hdirs : t.subdirectories? here o.cacheRoot = some dirs) :
    ∃ g, t.gather here o bar = t.gatherPackages here o.copyrightFile dirs g ∧
      g.notices = o.sublicenses.map (fun s => .sublicense s.label) ∧ g.packages = [] ∧
      g.progress = { bar with length := some dirs.length } := by
  obtain ⟨g, hg, hnotices, hpackages, hprogress⟩ :=
    gatherSublicenses_append hsub [] ((Gathering.start bar).push o.label text)
  rw [List.append_nil] at hg
  refine ⟨{ g with progress := { g.progress with length := some dirs.length } }, ?_, hnotices, hpackages, ?_⟩
  · rw [gather, hlicense]
    simp only [hg, gatherSublicenses, hdirs]
  · rw [hprogress]
    rfl

section Places

variable {g g' : Gathering} {subs : List Sublicense} {before after : List Path} {dir : Path}
  {done : List (Package × List Text)} {f : Failure}

/-- Before the packages are listed, only sub-licenses are told of. -/
theorem traced_unlisted (hnotices : g.notices = subs.map fun s => .sublicense s.label) (hpackages : g.packages = [])
    (hprogress : g.progress = bar) : Traced t here o bar ⟨subs, none, [], []⟩ (some f) g := by
  subst hprogress
  exact
    { told := fun color => Extent.told_eq_lines color (hnotices.trans (List.append_nil _).symm)
      packages := hpackages
      length := rfl
      position := rfl
      inBounds := nofun
      atEnd := nofun
      message := rfl
      stopped := nofun
      finished := rfl }

/-- Each package that is completed moves the bar on by one from where it was attached. -/
theorem position_of_completes {n : Nat} (hprogress : g.progress = { bar with length := some n })
    (hbefore : List.Forall₂ (fun dir x => t.readPackage here o.copyrightFile dir = .ok x) before done)
    (hdone : g.Completes before (done.map Prod.fst) g') : g'.progress.position = bar.position + before.length := by
  rw [hdone.position, hprogress, List.length_map, hbefore.length_eq]

/-- Gathering that stops at a package has completed those before it. -/
theorem traced_package (hnotices : g.notices = subs.map fun s => .sublicense s.label) (hpackages : g.packages = [])
    (hprogress : g.progress = { bar with length := some (before ++ dir :: after).length })
    (hbefore : List.Forall₂ (fun dir x => t.readPackage here o.copyrightFile dir = .ok x) before done)
    (hdone : g.Completes before (done.map Prod.fst) g') (hdir : t.readPackage here o.copyrightFile dir = .error f) :
    Traced t here o bar ⟨subs, some (before ++ dir :: after), before ++ [dir], done.map Prod.fst⟩ (some f)
      (g'.begin (Package.nameOf dir)) := by
  have hposition := position_of_completes hprogress hbefore hdone
  exact
    { told := fun color => Extent.told_eq_lines color (by rw [← hnotices]; exact hdone.notices)
      packages := hdone.packages.trans (congrArg (· ++ _) hpackages)
      length := by
        rw [show (g'.begin (Package.nameOf dir)).progress.length = g'.progress.length from rfl, hdone.length, hprogress]
        rfl
      position := by
        rw [List.length_map, ← hbefore.length_eq]
        exact hposition
      inBounds := by
        rintro dirs ⟨⟩
        rw [List.length_append]
        exact Nat.le_trans (Nat.le_of_eq hposition) (Nat.add_le_add_left (Nat.le_add_right _ _) _)
      atEnd := nofun
      message := by
        rw [List.getLast?_concat]
        rfl
      stopped := by
        rintro dirs f' ⟨⟩ ⟨⟩
        refine ⟨before.length, dir, hposition, ?_, hdir, rfl⟩
        rw [List.getElem?_append_right (Nat.le_refl _), Nat.sub_self]
        rfl
      finished := by
        rw [show (g'.begin (Package.nameOf dir)).progress.finished = g'.progress.finished from rfl, hdone.finished,
          hprogress] }

/-- Gathering that does not stop has completed all packages. -/
theorem traced_everything (hnotices : g.notices = subs.map fun s => .sublicense s.label) (hpackages : g.packages = [])
    (hprogress : g.progress = { bar with length := some before.length })
    (hbefore : List.Forall₂ (fun dir x => t.readPackage here o.copyrightFile dir = .ok x) before done)
    (hdone : g.Completes before (done.map Prod.fst) g') :
    Traced t here o bar ⟨subs, some before, before, done.map Prod.fst⟩ none g' := by
  have hposition := position_of_completes hprogress hbefore hdone
  exact
    { told := fun color => Extent.told_eq_lines color (hdone.notices.trans (congrArg (· ++ _) hnotices))
      packages := hdone.packages.trans (congrArg (· ++ _) hpackages)
      length := by
        rw [hdone.length, hprogress]
        rfl
      position := by rw [hposition, List.length_map, hbefore.length_eq]
      inBounds := by
        rintro dirs ⟨⟩
        exact Nat.le_of_eq hposition
      atEnd := fun _ => ⟨before, rfl, hposition⟩
      message := by rw [hdone.message, hprogress]
      stopped := nofun
      finished := by rw [hdone.finished, hprogress] }

end Places

/-- What is told is what belongs to how far gathering got. -/
theorem GotTo.traced (h : t.GotTo here o e failure) (bar : Progress) :
    (t.gather here o bar).2 = failure ∧ Traced t here o bar e failure (t.gather here o bar).1 := by
  cases h with
  | nowhere hlicense =>
    rw [gather, hlicense]
    exact ⟨rfl, traced_unlisted rfl rfl rfl⟩
  | @sublicense text before after s texts f hlicense hsplit hbefore hs =>
    obtain ⟨g, hg, hnotices, hpackages, hprogress⟩ :=
      gatherSublicenses_append hbefore (s :: after) ((Gathering.start bar).push o.label text)
    have hgather : t.gather here o bar = (g.note (.sublicense s.label), some f) := by
      rw [gather, hlicense, hsplit]
      simp only [hg, gatherSublicenses, hs]
    have htold : (g.note (.sublicense s.label)).notices = (before ++ [s]).map fun s => .sublicense s.label := by
      rw [List.map_append]
      exact congrArg (· ++ [_]) hnotices
    rw [hgather]
    exact ⟨rfl, traced_unlisted htold hpackages hprogress⟩
  | @cacheRoot text texts hlicense hsub hnone =>
    obtain ⟨g, hg, hnotices, hpackages, hprogress⟩ :=
      gatherSublicenses_append hsub [] ((Gathering.start bar).push o.label text)
    have hgather : t.gather here o bar = (g, some (.noCacheRoot o.cacheRoot)) := by
      rw [List.append_nil] at hg
      rw [gather, hlicense]
      simp only [hg, gatherSublicenses, hnone]
    rw [hgather]
    exact ⟨rfl, traced_unlisted hnotices hpackages hprogress⟩
  | @package text texts before after dir done f hlicense hsub hdirs hbefore hdir =>
    obtain ⟨g, hg, hnotices, hpackages, hprogress⟩ := gather_of_listed hlicense hsub hdirs
    obtain ⟨g', hg', hdone⟩ := gatherPackages_append hbefore (dir :: after) g
    rw [hg, hg', gatherPackages, hdir]
    exact ⟨rfl, traced_package hnotices hpackages hprogress hbefore hdone hdir⟩
  | @everything text texts dirs done hlicense hsub hdirs hall =>
    obtain ⟨g, hg, hnotices, hpackages, hprogress⟩ := gather_of_listed hlicense hsub hdirs
    obtain ⟨g', hg', hdone⟩ := gatherPackages_append hall [] g
    rw [List.append_nil] at hg'
    rw [hg, hg', gatherPackages]
    exact ⟨rfl, traced_everything hnotices hpackages hprogress hall hdone⟩

/-- What is left of a gathering once its bundle has been written, or could not be: the bar is
    finished, and stands at its length. -/
structure Cleared (g g' : Gathering) : Prop where
  told : ∀ color, g'.told color = g.told color
  packages : g'.packages = g.packages
  finished : g'.progress.finished = true
  length : g'.progress.length = g.progress.length
  position : g'.progress.position = g.progress.length.getD g.progress.position
  message : g'.progress.message = g.progress.message

theorem collect_cleared (t : Tree) (here : Location) (o : Order) (bar : Progress) (output : Path) :
    Cleared (t.gather here o bar).1 (t.collect here o output bar).2.1 := by
  rw [collect]
  rcases t.gather here o bar with ⟨g, _ | f⟩
  · simp only
    cases t.write here output (Text.encode g.bundle.render) <;> exact ⟨fun _ => rfl, rfl, rfl, rfl, rfl, rfl⟩
  · exact ⟨fun _ => rfl, rfl, rfl, rfl, rfl, rfl⟩

section Runs

variable {env : Environment} {options : Options} {project : Path} {found : Settings}

/-- In a run that is not quiet, what is told stands on the standard error between the cache root
    and what is said of the end. -/
theorem GotTo.stderr (h : t.GotTo here o e failure) (hquiet : options.quiet = false)
    (ho : Run.order t here env project ((Run.override found options).resolve project) = o) :
    (Run.withSettings t here env options project found).stderr =
      Extent.rootLine (Run.color env) o.cacheRoot ++ e.lines (Run.color env) ++
        (Run.withSettings t here env options project found).ending.told := by
  have htold := (t.collect_cleared here o (Run.bar options.quiet)
    ((Run.override found options).resolve project).output).told (Run.color env)
  rw [(h.traced (Run.bar options.quiet)).2.told] at htold
  rw [Run.withSettings_stderr, ho, if_neg (by simp [hquiet]), Run.told, htold, Extent.arrow_root]

/-- A run ends with the failure that gathering stops at. -/
theorem GotTo.ending {f : Failure} (h : t.GotTo here o e (some f))
    (ho : Run.order t here env project ((Run.override found options).resolve project) = o) :
    (Run.withSettings t here env options project found).ending = .failed f := by
  have hfailure := (h.traced (Run.bar options.quiet)).1
  simp only [Run.withSettings, ho, collect]
  generalize t.gather here o (Run.bar options.quiet) = x at hfailure
  obtain ⟨g, failure⟩ := x
  obtain rfl : failure = some f := hfailure
  rfl

end Runs

/-- What is told is determined by how far gathering got, which is one of the five places. In a
    run that is not quiet it stands on the standard error, and a failure ends it. Once the
    bundle is written or not, the bar is finished; else the same is told. -/
theorem gather_traced (t : Tree) (here : Location) (o : Order) (bar : Progress) :
    (∃ e, t.GotTo here o e (t.gather here o bar).2) ∧
      (∀ e failure, t.GotTo here o e failure → failure = (t.gather here o bar).2 ∧
        Traced t here o bar e failure (t.gather here o bar).1 ∧
        ∀ env options project found, options.quiet = false →
          Run.order t here env project ((Run.override found options).resolve project) = o →
          (Run.withSettings t here env options project found).stderr =
            Extent.rootLine (Run.color env) o.cacheRoot ++ e.lines (Run.color env) ++
              (Run.withSettings t here env options project found).ending.told ∧
          ∀ f, failure = some f → (Run.withSettings t here env options project found).ending = .failed f) ∧
      ∀ output, Cleared (t.gather here o bar).1 (t.collect here o output bar).2.1 := by
  refine ⟨?_, fun e failure h => ⟨(h.traced bar).1.symm, (h.traced bar).2, ?_⟩, t.collect_cleared here o bar⟩
  · obtain ⟨e, failure, h⟩ := t.exists_gotTo here o
    exact ⟨e, (h.traced bar).1 ▸ h⟩
  · intro env options project found hquiet ho
    refine ⟨h.stderr hquiet ho, ?_⟩
    rintro f rfl
    exact h.ending ho

/-! ### Gathering that stops at a package -/

open Attribution.Path (ofString)

/-- A cache with a package that has no copyright file, and then one whose file is no text. -/
def shed : Tree where
  entries := [([ofString "license"], .file (ofString "ours")), ([ofString "cache"], .directory),
    ([ofString "cache", ofString "bare"], .directory), ([ofString "cache", ofString "zlib"], .directory),
    ([ofString "cache", ofString "zlib", ofString "copyright"], .file [0xFF])]
  wellFormed := ⟨by decide, by decide, by decide, by decide⟩

def shedSettings : Settings where
  label := "app".toList
  license := ofString "license"
  cacheRoot := some (ofString "cache")
  copyrightFile := "copyright".toList
  output := ofString "notice"
  sublicenses := [⟨"lib".toList, ofString "license"⟩]

def shedOrder : Order where
  label := "app".toList
  license := ofString "/license"
  sublicenses := [⟨"lib".toList, ofString "/license"⟩]
  cacheRoot := ofString "/cache"
  copyrightFile := "copyright".toList

theorem subdirectories?_shed : shed.subdirectories? [] (ofString "/cache") =
    some [ofString "/cache/bare", ofString "/cache/zlib"] :=
  subdirectories?_of_ordered [ofString "cache"] [ofString "bare", ofString "zlib"] rfl rfl (by decide) (by decide)
    (by decide)

theorem readPackage_bare : ∃ x, shed.readPackage [] "copyright".toList (ofString "/cache/bare") = .ok x ∧
    x.1.name = "bare".toList ∧ x.1.copyrightPaths = [] := by
  rw [readPackage, findFiles_of_empty [ofString "cache", ofString "bare"] _ rfl rfl (by decide)]
  exact ⟨_, rfl, rfl, rfl⟩

theorem readPackage_unreadable : shed.readPackage [] "copyright".toList (ofString "/cache/zlib") =
    .error (.unreadable (ofString "/cache/zlib/copyright") .notUtf8) := by
  have hfind : shed.findFiles [] (ofString "/cache/zlib") (Text.encode "copyright".toList) =
      .ok [ofString "/cache/zlib/copyright"] := by
    apply findFiles_of_single [ofString "cache", ofString "zlib"] rfl rfl
    show _ = [([ofString "copyright"], Node.file [0xFF])]
    decide
  rw [readPackage, hfind]
  rfl

def shedExtent (p : Package) : Extent where
  sublicenses := shedOrder.sublicenses
  listed := some [ofString "/cache/bare", ofString "/cache/zlib"]
  begun := [ofString "/cache/bare", ofString "/cache/zlib"]
  packages := [p]

theorem gotTo_shed : ∃ p : Package, p.name = "bare".toList ∧ p.copyrightPaths = [] ∧
    shed.GotTo [] shedOrder (shedExtent p) (some (.unreadable (ofString "/cache/zlib/copyright") .notUtf8)) := by
  obtain ⟨x, hx, hname, hpaths⟩ := readPackage_bare
  have hours : shed.readLicense [] (ofString "/license") = .ok "ours".toList := rfl
  have hsub : List.Forall₂ (fun s text => shed.readLicense [] s.path = .ok text) shedOrder.sublicenses
      ["ours".toList] := .cons hours .nil
  have hdone : List.Forall₂ (fun dir x => shed.readPackage [] shedOrder.copyrightFile dir = .ok x)
      [ofString "/cache/bare"] [x] := .cons hx .nil
  have hdirs : shed.subdirectories? [] shedOrder.cacheRoot =
      some ([ofString "/cache/bare"] ++ ofString "/cache/zlib" :: []) := subdirectories?_shed
  exact ⟨x.1, hname, hpaths, .package hours hsub hdirs hdone readPackage_unreadable⟩

/-- On the bar of a run, of length zero: one of two packages is done when gathering stops, and the
    bar stands at two once it is finished. -/
theorem gather_traced_shed :
    (shed.gather [] shedOrder (Run.bar false)).1.told false =
      "  → Getting license for: lib\n  → Getting license for: bare No license found!\n".toList ∧
    (shed.gather [] shedOrder (Run.bar false)).1.progress = ⟨some 2, 1, "zlib".toList, false⟩ ∧
    (shed.collect [] shedOrder (ofString "/notice") (Run.bar false)).2.1.progress =
      ⟨some 2, 2, "zlib".toList, true⟩ ∧
    (Run.withSettings shed [] Run.bareEnvironment Options.default (ofString "/") shedSettings).stderr =
      "  → Scanning /cache\n".toList ++
        "  → Getting license for: lib\n  → Getting license for: bare No license found!\n".toList ++
        "Error: failed to read /cache/zlib/copyright\n\nCaused by:\n    stream did not contain valid UTF-8\n".toList := by
  obtain ⟨p, hname, hpaths, hgot⟩ := gotTo_shed
  obtain ⟨-, htraced, hcleared⟩ := gather_traced shed [] shedOrder (Run.bar false)
  obtain ⟨-, htraced, hrun⟩ := htraced _ _ hgot
  have hcleared := hcleared (ofString "/notice")
  have hlines : (shedExtent p).lines false =
      "  → Getting license for: lib\n  → Getting license for: bare No license found!\n".toList := by
    simp only [Extent.lines, shedExtent, List.flatMap_singleton, Extent.packageLine, hname, hpaths]
    decide
  have hprogress : (shed.gather [] shedOrder (Run.bar false)).1.progress = ⟨some 2, 1, "zlib".toList, false⟩ := by
    generalize (shed.gather [] shedOrder (Run.bar false)).1 = g at htraced
    show Progress.mk g.progress.length g.progress.position g.progress.message g.progress.finished = _
    rw [htraced.length, htraced.position, htraced.message, htraced.finished]
    rfl
  refine ⟨(htraced.told false).trans hlines, hprogress, ?_, ?_⟩
  · generalize (shed.collect [] shedOrder (ofString "/notice") (Run.bar false)).2.1 = g at hcleared
    show Progress.mk g.progress.length g.progress.position g.progress.message g.progress.finished = _
    rw [hcleared.length, hcleared.position, hcleared.message, hcleared.finished, hprogress]
    rfl
  · obtain ⟨hstderr, hending⟩ := hrun Run.bareEnvironment Options.default (ofString "/") shedSettings rfl rfl
    have hroot : Extent.rootLine false shedOrder.cacheRoot = "  → Scanning /cache\n".toList := by decide
    have hreport : (Failure.unreadable (ofString "/cache/zlib/copyright") .notUtf8).report =
        "Error: failed to read /cache/zlib/copyright\n\nCaused by:\n    stream did not contain valid UTF-8\n".toList := by
      decide
    rw [hstderr, hending _ rfl, show Run.color Run.bareEnvironment = false from rfl, hlines, hroot, Ending.told, hreport]

end Tree

end Attribution
