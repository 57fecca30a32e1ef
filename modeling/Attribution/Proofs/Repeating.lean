/-
  Attribution.Proofs.Repeating — a run that is made twice.

  (1) Writing takes a vacant place or replaces the content of a file, so the tree
  afterwards has a file there and every other node as before (`Filled`). Writing the
  same once more changes nothing (`write_again`).

  (2) A file leads nowhere. So no path goes through the place that was filled: what it
  led to before it still leads to, and what it leads to now it led to before, unless
  it ends at that place (`Filled.resolve`, `Filled.resolve_back`). Directories and the
  ways through them are the same, hence the package directories too
  (`Filled.subdirectories?`).

  (3) If the place is not among the files that are read (`Reads`), the second run finds the
  same files and reads the same texts, and so does what the first one did
  (`collect_again`). It does not matter where the place is, also beneath a package.
-/
import Attribution.Proofs.Failing
import Attribution.Proofs.Inventory
import Attribution.Proofs.Stopping

namespace Attribution

open Attribution.Path (ofString)

namespace Tree

variable {t t' : Tree} {here l : Location} {content : Bytes}

/-! ## (1) Writing twice -/

structure Filled (t t' : Tree) (l : Location) (content : Bytes) : Prop where
  before : ∀ n, t.node? l = some n → ∃ old, n = .file old
  after : t'.node? l = some (.file content)
  other : ∀ k, k ≠ l → t'.node? k = t.node? k

theorem setContent_self (h : t.node? l = some (.file content)) : t.setContent l content = t := by
  have hsame : t.entries.map (refill l content) = t.entries := by
    refine (List.map_congr_left fun e he => ?_).trans (List.map_id _)
    obtain ⟨k, n⟩ := e
    cases n with
    | directory => rfl
    | link target => rfl
    | file old =>
      by_cases hk : k = l
      · subst hk
        have hold := t.node?_eq_some_iff.mpr (Or.inr he)
        rw [h] at hold
        cases hold
        simp [refill]
      · simp [refill, hk]
  unfold setContent
  simp only [hsame]

theorem filled_add {p : Path} {dir : Location} {name : Bytes} (content : Bytes)
    (hs : t.spot false here p = .ok (.vacant dir name)) :
    Filled t (t.add dir name (.file content)) (dir ++ [name]) content := by
  have hw := written_add content hs
  refine ⟨?_, hw.content, hw.other⟩
  intro n hn
  rw [(spot_vacant hs).free] at hn
  cases hn

theorem filled_setContent {p : Path} {old : Bytes} (content : Bytes) (hs : t.spot false here p = .ok (.occupied l))
    (hl : t.node? l = some (.file old)) : Filled t (t.setContent l content) l content := by
  have hw := written_setContent content hs hl
  refine ⟨?_, hw.content, hw.other⟩
  intro n hn
  rw [hl] at hn
  exact ⟨old, (Option.some.inj hn).symm⟩

/-- Writing fills the place that the path leads to afterwards. -/
theorem write_filled {p : Path} (h : t.write here p content = .ok t') :
    ∃ l, Filled t t' l content ∧ t'.spot true here p = .ok (.occupied l) := by
  rcases write_cases h with ⟨dir, name, hs, rfl⟩ | ⟨l, old, hs, hl, rfl⟩
  · have hfilled := filled_add content (spot_reading hs)
    have hkeep : ∀ k n, t.node? k = some n → (t.add dir name (.file content)).node? k = some n := by
      intro k n hk
      rw [hfilled.other, hk]
      rintro rfl
      rw [(spot_vacant hs).free] at hk
      cases hk
    exact ⟨dir ++ [name], hfilled, spot_filled hkeep hfilled.after hs⟩
  · exact ⟨l, filled_setContent content (spot_reading hs) hl, (spot_alike (alike_setContent content hl) here p).trans hs⟩

theorem write_again {p : Path} (hl : t.node? l = some (.file content)) (hs : t.spot true here p = .ok (.occupied l)) :
    t.write here p content = .ok t := by
  unfold write
  rw [hs]
  simp only [hl, setContent_self hl]

/-! ## (2) Paths -/

/-- Behind a file there are no further steps. -/
theorem Leads.eq_of_file {creating : Bool} {links : Nat} {steps : List Bytes} {s : Spot}
    (h : Leads t creating links here steps s) (hn : t.node? here = some (.file content)) : s = .occupied here := by
  cases h with
  | done => rfl
  | stay hd | up hd | vacant hd | into hd | jump hd =>
    rw [hn] at hd
    cases hd

theorem isDirectory_iff {p : Path} :
    t.isDirectory here p = true ↔ ∃ k, t.resolve here p = .ok k ∧ t.node? k = some .directory := by
  unfold isDirectory target?
  cases t.resolve here p <;> simp

namespace Filled

variable (h : Filled t t' l content)

include h

theorem not_filled {k : Location} {n : Node} (hk : t.node? k = some n ∨ t'.node? k = some n)
    (hn : ∀ c, n ≠ .file c) : k ≠ l := by
  rintro rfl
  rcases hk with hk | hk
  · obtain ⟨old, rfl⟩ := h.before n hk
    exact hn old rfl
  · rw [h.after] at hk
    exact hn content (Option.some.inj hk).symm

/-- What is not a file is the same. -/
theorem node?_iff {k : Location} {n : Node} (hn : ∀ c, n ≠ .file c) : t'.node? k = some n ↔ t.node? k = some n := by
  constructor
  · intro hk
    rw [← h.other k (h.not_filled (Or.inr hk) hn), hk]
  · intro hk
    rw [h.other k (h.not_filled (Or.inl hk) hn), hk]

theorem directory_iff {k : Location} : t'.node? k = some .directory ↔ t.node? k = some .directory :=
  h.node?_iff (by simp)

theorem exists_file {k : Location} {c : Bytes} (hk : t.node? k = some (.file c)) : ∃ c', t'.node? k = some (.file c') := by
  by_cases hkl : k = l
  · subst hkl
    exact ⟨content, h.after⟩
  · exact ⟨c, by rw [h.other k hkl, hk]⟩

/-- What steps led to, they still lead to. -/
theorem leads {links : Nat} {steps : List Bytes} {k : Location} {s : Spot} (hl : Leads t false links here steps s)
    (hs : s = .occupied k) : Leads t' false links here steps s := by
  induction hl with
  | done => exact .done
  | stay hd hstep _ ih => exact .stay (h.directory_iff.mpr hd) hstep (ih hs)
  | up hd _ ih => exact .up (h.directory_iff.mpr hd) (ih hs)
  | vacant => cases hs
  | @into links here step rest s n hd hstep hc hn hlink _ ih =>
    have hd' := h.directory_iff.mpr hd
    cases n with
    | directory => exact .into hd' hstep hc (h.directory_iff.mpr hn) hlink (ih hs)
    | link target => exact absurd rfl (hlink target)
    | file c =>
      obtain ⟨c', hn'⟩ := h.exists_file hn
      exact .into hd' hstep hc hn' nofun (ih hs)
  | jump hd hstep hc hn _ ih =>
    exact .jump (h.directory_iff.mpr hd) hstep hc ((h.node?_iff (by simp)).mpr hn) (ih hs)

/-- What steps lead to, they led to before, unless they end at the place that was filled. -/
theorem leads_back {links : Nat} {steps : List Bytes} {s : Spot} (hl : Leads t' false links here steps s)
    (hs : s ≠ .occupied l) : Leads t false links here steps s := by
  induction hl with
  | done => exact .done
  | stay hd hstep _ ih => exact .stay (h.directory_iff.mp hd) hstep (ih hs)
  | up hd _ ih => exact .up (h.directory_iff.mp hd) (ih hs)
  | @vacant links here step hd hstep hn =>
    have hne : here ++ [step] ≠ l := by
      rintro rfl
      rw [h.after] at hn
      cases hn
    exact .vacant (h.directory_iff.mp hd) hstep (by rw [← h.other _ hne, hn])
  | @into links here step rest s n hd hstep hc hn hlink hrest ih =>
    have hne : here ++ [step] ≠ l := by
      rintro rfl
      exact hs (hrest.eq_of_file h.after)
    exact .into (h.directory_iff.mp hd) hstep hc (by rw [← h.other _ hne, hn]) hlink (ih hs)
  | jump hd hstep hc hn _ ih =>
    exact .jump (h.directory_iff.mp hd) hstep hc ((h.node?_iff (by simp)).mp hn) (ih hs)

theorem resolve {p : Path} {k : Location} (hp : t.resolve here p = .ok k) : t'.resolve here p = .ok k := by
  obtain ⟨htaken, hleads⟩ := spot_eq_ok_iff.mp (resolve_eq_ok_iff.mp hp)
  exact resolve_eq_ok_iff.mpr (spot_eq_ok_iff.mpr ⟨htaken, h.leads hleads rfl⟩)

theorem resolve_back {p : Path} {k : Location} (hp : t'.resolve here p = .ok k) (hk : k ≠ l) :
    t.resolve here p = .ok k := by
  obtain ⟨htaken, hleads⟩ := spot_eq_ok_iff.mp (resolve_eq_ok_iff.mp hp)
  exact resolve_eq_ok_iff.mpr (spot_eq_ok_iff.mpr ⟨htaken, h.leads_back hleads (by simpa using hk)⟩)

theorem isDirectory (p : Path) : t'.isDirectory here p = t.isDirectory here p := by
  rw [Bool.eq_iff_iff, isDirectory_iff, isDirectory_iff]
  constructor
  · intro ⟨k, hk, hd⟩
    exact ⟨k, h.resolve_back hk (h.not_filled (Or.inr hd) (by simp)), h.directory_iff.mp hd⟩
  · intro ⟨k, hk, hd⟩
    exact ⟨k, h.resolve hk, h.directory_iff.mpr hd⟩

/-- The package directories are the same: no directory was added. -/
theorem listed {root : Path} {names : List Bytes} (hn : t.Listed here root names) : t'.Listed here root names := by
  obtain ⟨dir, hdir, hd, hmem⟩ := hn.complete
  refine ⟨hn.ordered, dir, h.resolve hdir, h.directory_iff.mpr hd, ?_⟩
  intro n
  rw [hmem, h.isDirectory]
  apply and_congr_left
  intro hchild
  by_cases hne : dir ++ [n] = l
  case neg => rw [h.other _ hne]
  -- A child that leads to a directory is not the place that was filled.
  rw [← h.isDirectory, isDirectory_iff] at hchild
  obtain ⟨k, hk, hkd⟩ := hchild
  have hlen := (spot_eq_ok_iff.mp (resolve_eq_ok_iff.mp hk)).1.2.2
  have hfile : t'.node? (dir ++ [n]) = some (.file content) := by rw [hne, h.after]
  rw [resolve_join (h.resolve hdir) hfile (by simp) hlen] at hk
  cases hk
  rw [hfile] at hkd
  cases hkd

theorem descends_iff {dir : Location} {ns : List Bytes} {n : Node} (hn : ∀ c, n ≠ .file c) :
    t'.Descends dir ns n ↔ t.Descends dir ns n := by
  rw [Tree.descends_iff, Tree.descends_iff, h.node?_iff hn]

end Filled

/-! ## (3) Gathering twice -/

/-- From a directory these names lead down to a file at a location, or to a link whose path
    leads there. -/
inductive FileAt (t : Tree) (here : Location) (root : Path) (dir : Location) (ns : List Bytes) : Location → Prop
  | itself {c : Bytes} : t.Descends dir ns (.file c) → FileAt t here root dir ns (dir ++ ns)
  | behind {target : Path} {k : Location} : t.Descends dir ns (.link target) →
      t.resolve here (pathFrom root ns) = .ok k → FileAt t here root dir ns k

/-- The locations of the files that are read for an order: the license of the project, those
    of the sub-licenses, and the files found in the packages, through links too. -/
inductive Reads (t : Tree) (here : Location) (o : Order) : Location → Prop
  | license {k : Location} : t.resolve here o.license = .ok k → Reads t here o k
  | sublicense {s : Sublicense} {k : Location} : s ∈ o.sublicenses → t.resolve here s.path = .ok k → Reads t here o k
  | package {names : List Bytes} {n : Bytes} {dir k : Location} {ns : List Bytes} :
      t.Listed here o.cacheRoot names → n ∈ names → t.resolve here (o.cacheRoot.join n) = .ok dir →
      ns.getLast? = some (Text.encode o.copyrightFile) → FileAt t here (o.cacheRoot.join n) dir ns k →
      Reads t here o k

theorem LeadToFiles.unique {root : Path} {dir : Location} {name : Bytes} {ways ways' : List (List Bytes)}
    (h : t.LeadToFiles here root dir name ways) (h' : t.LeadToFiles here root dir name ways') : ways = ways' :=
  h.ordered.eq_of_mem_iff h'.ordered fun ns => (h.exact ns).trans (h'.exact ns).symm

theorem gatherPackages_of_readPackage {name : Text} {dirs : List Path} {g g' : Gathering}
    (hg : t.gatherPackages here name dirs g = (g', none))
    (hdirs : ∀ dir ∈ dirs, ∀ x, t.readPackage here name dir = .ok x → t'.readPackage here name dir = .ok x) :
    t'.gatherPackages here name dirs g = (g', none) := by
  induction dirs generalizing g with
  | nil => exact hg
  | cons dir dirs ih =>
    obtain ⟨hdir, hdirs⟩ := List.forall_mem_cons.mp hdirs
    obtain ⟨x, hx, hg⟩ := gatherPackages_cons_eq_iff.mp hg
    exact gatherPackages_cons_eq_iff.mpr ⟨x, hdir x hx, ih hg hdirs⟩

/-- What a path leads to is what a file found by it stands for. -/
theorem fileAt_of_resolve {root : Path} {dir k : Location} {ns : List Bytes} {n : Node}
    (hdir : t.resolve here root = .ok dir) (hn : t.Descends dir ns n) (hfile : t.IsFileAt here (pathFrom root ns) n)
    (hk : t.resolve here (pathFrom root ns) = .ok k) : t.FileAt here root dir ns k := by
  rcases hfile with ⟨c, rfl⟩ | ⟨⟨target, rfl⟩, -⟩
  · have hlen := (spot_eq_ok_iff.mp (resolve_eq_ok_iff.mp hk)).1.2.2
    rw [resolve_pathFrom hdir (descends_iff.mp hn).2 (by simp) hlen] at hk
    cases hk
    exact .itself hn
  · exact .behind hn hk

namespace Filled

variable (h : Filled t t' l content)

include h

theorem isFileAt {p : Path} {n : Node} (hn : t.IsFileAt here p n) : t'.IsFileAt here p n := by
  rcases hn with hfile | ⟨hlink, k, c, hk, hc⟩
  · exact Or.inl hfile
  · obtain ⟨c', hc'⟩ := h.exists_file hc
    exact Or.inr ⟨hlink, k, c', h.resolve hk, hc'⟩

/-- If the place that was filled is none of the files found, they are those found before. -/
theorem leadToFiles {root : Path} {dir : Location} {name : Bytes} {ways : List (List Bytes)}
    (hways : t'.LeadToFiles here root dir name ways)
    (hfree : ∀ ns, ns.getLast? = some name → ¬ t'.FileAt here root dir ns l) :
    t.LeadToFiles here root dir name ways := by
  refine ⟨hways.ordered, fun ns => (hways.exact ns).trans (and_congr_right fun hlast => ?_)⟩
  constructor
  · rintro ⟨n, hn, ⟨c, rfl⟩ | ⟨⟨target, rfl⟩, k, c, hk, hc⟩⟩
    · have hne : dir ++ ns ≠ l := by
        rintro rfl
        exact hfree ns hlast (.itself hn)
      obtain ⟨hns, hnode⟩ := Tree.descends_iff.mp hn
      exact ⟨.file c, Tree.descends_iff.mpr ⟨hns, by rw [← h.other _ hne, hnode]⟩, Or.inl ⟨c, rfl⟩⟩
    · have hne : k ≠ l := by
        rintro rfl
        exact hfree ns hlast (.behind hn hk)
      exact ⟨.link target, (h.descends_iff (by simp)).mp hn,
        Or.inr ⟨⟨target, rfl⟩, k, c, h.resolve_back hk hne, by rw [← h.other k hne, hc]⟩⟩
  · intro ⟨n, hn, hfile⟩
    obtain ⟨hns, hnode⟩ := Tree.descends_iff.mp hn
    rcases hfile with ⟨c, rfl⟩ | hlink
    · obtain ⟨c', hc'⟩ := h.exists_file hnode
      exact ⟨.file c', Tree.descends_iff.mpr ⟨hns, hc'⟩, Or.inl ⟨c', rfl⟩⟩
    · obtain ⟨target, rfl⟩ := hlink.1
      exact ⟨.link target, (h.descends_iff (by simp)).mpr hn, h.isFileAt (Or.inr hlink)⟩

/-- A walk finds what it found before, and none of it leads to the place that was filled. -/
theorem findFiles {root : Path} {dir : Location} {name : Bytes} {paths : List Path}
    (hd : t.isDirectory here root = true) (hdir : t.resolve here root = .ok dir)
    (hok : t.findFiles here root name = .ok paths)
    (hfree : ∀ ns, ns.getLast? = some name → ¬ t'.FileAt here root dir ns l) :
    t'.findFiles here root name = .ok paths ∧ ∀ p ∈ paths, t'.resolve here p ≠ .ok l := by
  have hreach : ∀ ns, ¬ t.OutOfReach dir root ns := by
    intro ns hout
    obtain ⟨ms, herror, -⟩ := findFiles_eq_error name hd hdir hout
    rw [hok] at herror
    cases herror
  have hreach' : ∀ ns, ¬ t'.OutOfReach dir root ns := by
    intro ns hout
    exact hreach ns ⟨(h.descends_iff (by simp)).mp hout.directory, hout.tooLong⟩
  have hd' : t'.isDirectory here root = true := by rw [h.isDirectory, hd]
  obtain ⟨ways, hways, hpaths⟩ := findFiles_eq_ok_of_reach name hd hdir hreach
  obtain ⟨ways', hways', hpaths'⟩ := findFiles_eq_ok_of_reach name hd' (h.resolve hdir) hreach'
  obtain rfl := hways.unique (h.leadToFiles hways' hfree)
  rw [hok] at hpaths
  cases hpaths
  refine ⟨hpaths', fun p hp hl => ?_⟩
  obtain ⟨ns, hns, rfl⟩ := List.mem_map.mp hp
  obtain ⟨hlast, n, hn, hfile⟩ := (hways'.exact ns).mp hns
  exact hfree ns hlast (fileAt_of_resolve (h.resolve hdir) hn hfile hl)

theorem readLicense {p : Path} {s : Text} (hs : t.readLicense here p = .ok s) (hp : t'.resolve here p ≠ .ok l) :
    t'.readLicense here p = .ok s := by
  obtain ⟨⟨hread, -⟩, -⟩ := readLicense_eq_ok hs
  obtain ⟨k, hk, hnode⟩ := readBytes_eq_ok_iff.mp hread
  have hk' := h.resolve hk
  have hne : k ≠ l := by
    rintro rfl
    exact hp hk'
  have hread' := readBytes_eq_ok_iff.mpr ⟨k, hk', (h.other k hne).trans hnode⟩
  unfold Tree.readLicense readText at hs ⊢
  rw [hread'] at *
  rwa [hread] at hs

theorem readLicenses {ps : List Path} {ss : List Text} (hs : t.readLicenses here ps = .ok ss)
    (hps : ∀ p ∈ ps, t'.resolve here p ≠ .ok l) : t'.readLicenses here ps = .ok ss := by
  induction ps generalizing ss with
  | nil => exact hs
  | cons p ps ih =>
    obtain ⟨hp, hps⟩ := List.forall_mem_cons.mp hps
    obtain ⟨s, hfirst, hs⟩ := bind_eq_ok hs
    obtain ⟨rest, hrest, hs⟩ := bind_eq_ok hs
    cases hs
    rw [Tree.readLicenses, h.readLicense hfirst hp, ih hrest hps]
    rfl

theorem readPackage {root : Path} {dir : Location} {name : Text} {x : Package × List Text}
    (hd : t.isDirectory here root = true) (hdir : t.resolve here root = .ok dir)
    (hx : t.readPackage here name root = .ok x)
    (hfree : ∀ ns, ns.getLast? = some (Text.encode name) → ¬ t'.FileAt here root dir ns l) :
    t'.readPackage here name root = .ok x := by
  obtain ⟨paths, hpaths, htexts, -⟩ := readPackage_eq_ok hx
  obtain ⟨hpaths', hne⟩ := h.findFiles hd hdir hpaths hfree
  have htexts' := h.readLicenses htexts hne
  rw [← hx]
  unfold Tree.readPackage
  rw [hpaths, hpaths']
  show (t'.readLicenses here paths >>= _) = (t.readLicenses here paths >>= _)
  rw [htexts, htexts']

theorem gatherSublicenses {ss : List Sublicense} {g g' : Gathering} (hg : t.gatherSublicenses here ss g = (g', none))
    (hss : ∀ s ∈ ss, t'.resolve here s.path ≠ .ok l) : t'.gatherSublicenses here ss g = (g', none) := by
  induction ss generalizing g with
  | nil => exact hg
  | cons s ss ih =>
    obtain ⟨hs, hss⟩ := List.forall_mem_cons.mp hss
    obtain ⟨text, htext, hg⟩ := gatherSublicenses_cons_eq_iff.mp hg
    exact gatherSublicenses_cons_eq_iff.mpr ⟨text, h.readLicense htext hs, ih hg hss⟩

/-- What could be gathered is gathered again. -/
theorem gather {o : Order} {bar : Progress} {g : Gathering} (hg : t.gather here o bar = (g, none)) (hfree : ¬ t'.Reads here o l) :
    t'.gather here o bar = (g, none) := by
  obtain ⟨text, g₁, dirs, htext, hsub, hdirs, hg⟩ := gather_eq_iff.mp hg
  obtain ⟨names, rfl, hlisted⟩ := subdirectories?_eq_some hdirs
  have htext' := h.readLicense htext fun hl => hfree (.license hl)
  have hsub' := h.gatherSublicenses hsub fun s hs hl => hfree (.sublicense hs hl)
  refine gather_eq_iff.mpr ⟨text, g₁, names.map o.cacheRoot.join, htext', hsub', (h.listed hlisted).subdirectories?_eq, ?_⟩
  refine gatherPackages_of_readPackage hg fun root hroot x hx => ?_
  obtain ⟨n, hn, rfl⟩ := List.mem_map.mp hroot
  have hd := hlisted.isDirectory hn
  obtain ⟨dir, hdir⟩ := exists_resolve_of_isDirectory hd
  refine h.readPackage hd hdir hx fun ns hlast hfile => hfree ?_
  exact .package (h.listed hlisted) hn (h.resolve hdir) hlast hfile

end Filled

/-- A run that succeeds can be made again, if the file that it leaves at the end of its output
    path is not among those that are read then: the second run gathers the same and leaves
    the tree as it is. -/
theorem collect_again {o : Order} {output : Path} {bar : Progress} {g : Gathering}
    (h : t.collect here o output bar = (t', g, none))
    (hfree : ∀ l, t'.resolve here output = .ok l → ¬ t'.Reads here o l) :
    t'.collect here o output bar = (t', g, none) := by
  unfold collect at h ⊢
  rcases hg : t.gather here o bar with ⟨g₁, _ | f⟩
  case some =>
    rw [hg] at h
    cases h
  rw [hg] at h
  simp only at h
  cases hw : t.write here output (Text.encode g₁.bundle.render) with
  | error c =>
    rw [hw] at h
    cases h
  | ok t₁ =>
    rw [hw] at h
    cases h
    obtain ⟨l, hfilled, hspot⟩ := write_filled hw
    have hl : t'.resolve here output = .ok l := resolve_eq_ok_iff.mpr (spot_reading hspot)
    rw [hfilled.gather hg (hfree l hl)]
    simp only [write_again hfilled.after hspot]

/-! ### A run that writes into a package -/

/-- A package, and a link for the output that leads into it, to nothing yet. -/
def closet : Tree where
  entries := [([ofString "license"], .file (ofString "ours")), ([ofString "cache"], .directory),
    ([ofString "cache", ofString "zlib"], .directory),
    ([ofString "cache", ofString "zlib", ofString "copyright"], .file (ofString "theirs")),
    ([ofString "notice"], .link (ofString "cache/zlib/NOTICE"))]
  wellFormed := ⟨by decide, by decide, by decide, by decide⟩

def closetWith (content : Bytes) : Tree :=
  closet.add [ofString "cache", ofString "zlib"] (ofString "NOTICE") (.file content)

theorem spot_closet : closet.spot false [] (ofString "notice") =
    .ok (.vacant [ofString "cache", ofString "zlib"] (ofString "NOTICE")) := rfl

theorem readPackage_closet : ∃ x, closet.readPackage [] "copyright".toList (ofString "cache/zlib") = .ok x := by
  have hfind : closet.findFiles [] (ofString "cache/zlib") (Text.encode "copyright".toList) =
      .ok [ofString "cache/zlib/copyright"] := by
    apply findFiles_of_single [ofString "cache", ofString "zlib"] rfl rfl
    show _ = [([ofString "copyright"], Node.file (ofString "theirs"))]
    decide
  rw [readPackage, hfind]
  exact ⟨_, rfl⟩

theorem collect_closet :
    ∃ content g, closet.collect [] sampleOrder (ofString "notice") = (closetWith content, g, none) := by
  obtain ⟨x, hx⟩ := readPackage_closet
  have hdirs : closet.subdirectories? [] (ofString "cache") = some [ofString "cache/zlib"] :=
    subdirectories?_of_ordered [ofString "cache"] [ofString "zlib"] rfl rfl (by decide) (by decide) (by decide)
  have hnone : (closet.gather [] sampleOrder).2 = none := by
    rw [gather, show closet.readLicense [] sampleOrder.license = .ok "ours".toList from rfl]
    simp only [gatherSublicenses, sampleOrder, hdirs, gatherPackages, hx]
  rcases hg : closet.gather [] sampleOrder with ⟨g, f⟩
  obtain rfl : f = none := by rw [hg] at hnone; exact hnone
  rw [collect, hg]
  exact ⟨_, _, rfl⟩

theorem not_reads_closetWith (content : Bytes) :
    ¬ (closetWith content).Reads [] sampleOrder [ofString "cache", ofString "zlib", ofString "NOTICE"] := by
  have hfilled : Filled closet (closetWith content) _ content := filled_add content spot_closet
  intro h
  cases h with
  | license hk =>
    rw [hfilled.resolve (show closet.resolve [] sampleOrder.license = .ok [ofString "license"] from rfl)] at hk
    exact absurd (Except.ok.inj hk) (by decide)
  | sublicense hs => cases hs
  | @package names n dir k ns _ _ _ hlast hfile =>
    -- The last name on the way is neither that of the new file nor that of the one link.
    have hns : ns ≠ [] := by
      rintro rfl
      cases hlast
    have hlast' : (dir ++ ns).getLast? = some (ofString "copyright") := by
      rw [List.getLast?_append_of_ne_nil _ hns, hlast]
      rfl
    generalize hl : [ofString "cache", ofString "zlib", ofString "NOTICE"] = l at hfile
    cases hfile with
    | itself =>
      rw [← hl] at hlast'
      exact absurd hlast' (by decide)
    | @behind target k hdown =>
      have hlink : closet.node? (dir ++ ns) = some (.link target) :=
        (hfilled.node?_iff (by simp)).mp (descends_iff.mp hdown).2
      rcases closet.node?_eq_some_iff.mp hlink with ⟨hnil, -⟩ | hmem
      · simp [hns] at hnil
      · have hfile : ∀ e ∈ closet.entries, e.1.getLast? = some (ofString "copyright") →
            e.2 = .file (ofString "theirs") := by decide
        cases hfile _ hmem hlast'

theorem collect_again_closet : ∃ content g,
    closet.collect [] sampleOrder (ofString "notice") = (closetWith content, g, none) ∧
      (∀ l, (closetWith content).resolve [] (ofString "notice") = .ok l → ¬ (closetWith content).Reads [] sampleOrder l) ∧
      (closetWith content).collect [] sampleOrder (ofString "notice") = (closetWith content, g, none) := by
  obtain ⟨content, g, h⟩ := collect_closet
  have hfree : ∀ l, (closetWith content).resolve [] (ofString "notice") = .ok l →
      ¬ (closetWith content).Reads [] sampleOrder l := by
    intro l hl
    rw [closetWith, (written_add content spot_closet).resolve] at hl
    cases hl
    exact not_reads_closetWith content
  exact ⟨content, g, h, hfree, collect_again h hfree⟩

end Tree

end Attribution
