/-
  Attribution.Proofs.Inventory — what a run puts into its output file.

  (1) An inventory lists the bytes of all the license files of an order: the project's,
  those of the sub-licenses, and those of each package below the cache root. It is read
  off the tree alone (`Inventory.Of`) and is the only one for the order
  (`Inventory.Of.unique`); it says which bytes the bundle has and which packages there
  are.

  (2) Reading takes files as they are: a text is written back with the bytes that were
  read (`readLicense_eq_ok`). Gathering succeeds iff each of its steps does
  (`gather_eq_iff`), and each adds what the inventory lists next (`gatherSublicenses_eq`,
  `gatherPackages_eq`).

  (3) A run that succeeds leaves the bytes of the inventory of the tree as it was, and
  reports its packages (`collect_inventory`).
-/
import Attribution.Proofs.Discovery
import Attribution.Proofs.Encoding
import Attribution.Proofs.Writing
import Mathlib.Data.List.Forall2

namespace Attribution

open Text

/-! ## (1) Inventories -/

structure Holding where
  name : Bytes
  files : List (Path × Bytes)

structure Inventory where
  license : Bytes
  sublicenses : List Bytes
  packages : List Holding

def gap : Bytes := [0x0A, 0x0A]

namespace Holding

/-- The part of a package in the bundle. -/
def bytes (h : Holding) : Bytes :=
  if h.files = [] then [] else encode (decodeLossy h.name) ++ gap ++ h.files.flatMap (·.2 ++ gap)

def license (h : Holding) : Option Text :=
  Detection.combine (h.files.filterMap fun f => Detection.license (decodeLossy f.2))

def package (root : Path) (h : Holding) : Package where
  name := decodeLossy h.name
  path := root.join h.name
  copyrightPaths := h.files.map Prod.fst
  license := h.license
  risk := (h.license.map Expression.risk).getD .unknown

end Holding

def Tree.HasText (t : Tree) (here : Location) (p : Path) (b : Bytes) : Prop :=
  t.readBytes here p = .ok b ∧ ∃ s, decode? b = some s

structure Holding.Of (t : Tree) (here : Location) (name : Text) (root : Path) (h : Holding) : Prop where
  discovered : t.Discovered here (encode name) (root.join h.name) (h.files.map Prod.fst)
  read : ∀ f ∈ h.files, t.HasText here f.1 f.2

namespace Inventory

def labelled (label : Text) (b : Bytes) : Bytes := encode label ++ gap ++ (b ++ gap)

/-- The bundle: the project, the sub-licenses in their order, then the packages. -/
def bytes (o : Order) (inv : Inventory) : Bytes :=
  labelled o.label inv.license ++
    (o.sublicenses.zip inv.sublicenses).flatMap (fun x => labelled x.1.label x.2) ++
    inv.packages.flatMap Holding.bytes

structure Of (t : Tree) (here : Location) (o : Order) (inv : Inventory) : Prop where
  license : t.HasText here o.license inv.license
  sublicenses : List.Forall₂ (fun s b => t.HasText here s.path b) o.sublicenses inv.sublicenses
  listed : t.Listed here o.cacheRoot (inv.packages.map Holding.name)
  packages : ∀ h ∈ inv.packages, h.Of t here o.copyrightFile o.cacheRoot

/-! ### There is one inventory -/

section Unique

variable {t : Tree} {here : Location}

theorem hasText_unique {p : Path} {b b' : Bytes} (h : t.HasText here p b) (h' : t.HasText here p b') : b = b' :=
  Except.ok.inj (h.1.symm.trans h'.1)

theorem files_unique {fs fs' : List (Path × Bytes)} (hpaths : fs.map Prod.fst = fs'.map Prod.fst)
    (h : ∀ f ∈ fs, t.HasText here f.1 f.2) (h' : ∀ f ∈ fs', t.HasText here f.1 f.2) : fs = fs' := by
  induction fs generalizing fs' with
  | nil => exact (List.map_eq_nil_iff.mp hpaths.symm).symm
  | cons f fs ih =>
    obtain ⟨f', rest, rfl⟩ := List.exists_cons_of_ne_nil (show fs' ≠ [] by rintro rfl; cases hpaths)
    obtain ⟨hfirst, hrest⟩ := List.cons.inj hpaths
    obtain ⟨hf, h⟩ := List.forall_mem_cons.mp h
    obtain ⟨hf', h'⟩ := List.forall_mem_cons.mp h'
    rw [ih hrest h h', Prod.ext hfirst (hasText_unique hf (hfirst ▸ hf'))]

theorem packages_unique {name : Text} {root : Path} {ks ks' : List Holding}
    (hnames : ks.map Holding.name = ks'.map Holding.name) (h : ∀ k ∈ ks, k.Of t here name root)
    (h' : ∀ k ∈ ks', k.Of t here name root) : ks = ks' := by
  induction ks generalizing ks' with
  | nil => exact (List.map_eq_nil_iff.mp hnames.symm).symm
  | cons k ks ih =>
    obtain ⟨⟨n, fs'⟩, rest, rfl⟩ := List.exists_cons_of_ne_nil (show ks' ≠ [] by rintro rfl; cases hnames)
    obtain ⟨rfl, hrest⟩ := List.cons.inj hnames
    obtain ⟨hk, h⟩ := List.forall_mem_cons.mp h
    obtain ⟨hk', hrest'⟩ := List.forall_mem_cons.mp h'
    obtain rfl := files_unique (hk.discovered.unique hk'.discovered) hk.read hk'.read
    rw [ih hrest h hrest']

/-- A tree has one inventory for an order at most. -/
theorem Of.unique {o : Order} {inv inv' : Inventory} (h : inv.Of t here o) (h' : inv'.Of t here o) : inv = inv' := by
  obtain ⟨license, bs, ks⟩ := inv
  obtain ⟨license', bs', ks'⟩ := inv'
  obtain rfl : license = license' := hasText_unique h.license h'.license
  obtain rfl : ks = ks' := packages_unique (h.listed.unique h'.listed) h.packages h'.packages
  have hone : Relator.RightUnique fun (s : Sublicense) (b : Bytes) => t.HasText here s.path b :=
    fun _ _ _ => hasText_unique
  have hbs : bs = bs' := List.right_unique_forall₂' hone h.sublicenses h'.sublicenses
  rw [hbs]

end Unique

end Inventory

/-! ## (2) Gathering -/

section Steps

variable {ε ε' α β : Type}

theorem bind_eq_ok {x : Except ε α} {f : α → Except ε β} {b : β} (h : x >>= f = .ok b) :
    ∃ a, x = .ok a ∧ f a = .ok b := by
  cases x with
  | error e => cases h
  | ok a => exact ⟨a, rfl, h⟩

theorem mapError_eq_ok {x : Except ε α} {f : ε → ε'} {a : α} (h : x.mapError f = .ok a) : x = .ok a := by
  cases x with
  | error e => cases h
  | ok a' => exact congrArg _ (Except.ok.inj h)

end Steps

namespace Tree

variable {t : Tree} {here : Location}

theorem encode_separator : encode Section.separator = gap := by decide

theorem HasText.encode_decodeLossy {p : Path} {b : Bytes} (h : t.HasText here p b) : encode (decodeLossy b) = b := by
  obtain ⟨s, hs⟩ := h.2
  rw [decodeLossy_of_decode? hs, encode_of_decode? hs]

theorem readLicense_eq_ok {p : Path} {s : Text} (h : t.readLicense here p = .ok s) :
    t.HasText here p (encode s) ∧ decodeLossy (encode s) = s := by
  have h := mapError_eq_ok h
  rw [readText] at h
  cases hb : t.readBytes here p with
  | error c =>
    rw [hb] at h
    cases h
  | ok b =>
    rw [hb] at h
    simp only at h
    cases hs : decode? b with
    | none =>
      rw [hs] at h
      cases h
    | some s' =>
      rw [hs] at h
      cases h
      rw [encode_of_decode? hs]
      exact ⟨⟨hb, s, hs⟩, decodeLossy_of_decode? hs⟩

theorem readLicenses_eq_ok {ps : List Path} {ss : List Text} (h : t.readLicenses here ps = .ok ss) :
    ∃ files : List (Path × Bytes), files.map Prod.fst = ps ∧ files.map (fun f => decodeLossy f.2) = ss ∧
      ∀ f ∈ files, t.HasText here f.1 f.2 := by
  induction ps generalizing ss with
  | nil =>
    cases h
    exact ⟨[], rfl, rfl, by simp⟩
  | cons p ps ih =>
    obtain ⟨s, hs, h⟩ := bind_eq_ok h
    obtain ⟨rest, hrest, h⟩ := bind_eq_ok h
    cases h
    obtain ⟨files, hps, hss, hread⟩ := ih hrest
    obtain ⟨htext, hdec⟩ := readLicense_eq_ok hs
    exact ⟨(p, encode s) :: files, by rw [List.map_cons, hps], by rw [List.map_cons, hss, hdec],
      List.forall_mem_cons.mpr ⟨htext, hread⟩⟩

theorem readPackage_eq_ok {name : Text} {dir : Path} {x : Package × List Text}
    (h : t.readPackage here name dir = .ok x) :
    ∃ paths, t.findFiles here dir (encode name) = .ok paths ∧ t.readLicenses here paths = .ok x.2 ∧
      x.1 = ⟨Package.nameOf dir, dir, paths, Detection.combine (x.2.filterMap Detection.license),
        ((Detection.combine (x.2.filterMap Detection.license)).map Expression.risk).getD .unknown⟩ := by
  obtain ⟨paths, hpaths, h⟩ := bind_eq_ok h
  obtain ⟨texts, htexts, h⟩ := bind_eq_ok h
  cases h
  refine ⟨paths, mapError_eq_ok hpaths, htexts, ?_⟩
  cases Detection.combine (texts.filterMap Detection.license) <;> rfl

/-! ### Steps that succeed -/

theorem gatherSublicenses_cons_eq_iff {s : Sublicense} {ss : List Sublicense} {g g' : Gathering} :
    t.gatherSublicenses here (s :: ss) g = (g', none) ↔ ∃ text, t.readLicense here s.path = .ok text ∧
      t.gatherSublicenses here ss ((g.note (.sublicense s.label)).push s.label text) = (g', none) := by
  rw [gatherSublicenses]
  cases t.readLicense here s.path <;> simp

theorem gatherPackages_cons_eq_iff {name : Text} {dir : Path} {dirs : List Path} {g g' : Gathering} :
    t.gatherPackages here name (dir :: dirs) g = (g', none) ↔ ∃ x, t.readPackage here name dir = .ok x ∧
      t.gatherPackages here name dirs ((g.begin (Package.nameOf dir)).complete x.1 x.2) = (g', none) := by
  rw [gatherPackages]
  cases t.readPackage here name dir <;> simp

theorem gather_eq_iff {o : Order} {bar : Progress} {g : Gathering} :
    t.gather here o bar = (g, none) ↔ ∃ text g₁ dirs, t.readLicense here o.license = .ok text ∧
      t.gatherSublicenses here o.sublicenses ((Gathering.start bar).push o.label text) = (g₁, none) ∧
      t.subdirectories? here o.cacheRoot = some dirs ∧
      t.gatherPackages here o.copyrightFile dirs
        { g₁ with progress := { g₁.progress with length := some dirs.length } } = (g, none) := by
  rw [gather]
  cases t.readLicense here o.license with
  | error f => simp
  | ok text =>
    simp only [Except.ok.injEq, exists_and_left, exists_eq_left']
    rcases t.gatherSublicenses here o.sublicenses ((Gathering.start bar).push o.label text) with ⟨g₁, _ | f⟩
    · cases t.subdirectories? here o.cacheRoot <;> simp
    · simp

/-! ### Sections -/

theorem encode_section (label : Text) (texts : List Text) :
    encode (Section.render ⟨label, texts⟩) = encode label ++ gap ++ texts.flatMap fun s => encode s ++ gap := by
  have htexts : encode (texts.flatMap (· ++ Section.separator)) = texts.flatMap fun s => encode s ++ gap := by
    induction texts with
    | nil => rfl
    | cons s texts ih =>
      rw [List.flatMap_cons, List.flatMap_cons, encode_append, encode_append, encode_separator, ih]
  rw [Section.render, encode_append, encode_append, encode_separator, htexts]

def added (x : Package × List Text) : Text := if x.1.isBundled then Section.render ⟨x.1.name, x.2⟩ else []

theorem render_complete (g : Gathering) (x : Package × List Text) :
    (g.complete x.1 x.2).bundle.render = g.bundle.render ++ added x := by
  rw [Gathering.complete, added]
  by_cases hb : x.1.isBundled = true
  · rw [if_pos hb, if_pos hb]
    exact Bundle.render_pushAll _ _ _
  · rw [if_neg hb, if_neg hb, List.append_nil]

/-- A package that is read is held by the tree. -/
theorem exists_holding {name : Text} {root : Path} {n : Bytes} {x : Package × List Text} (hn : IsName n)
    (hdir : t.isDirectory here (root.join n) = true) (h : t.readPackage here name (root.join n) = .ok x) :
    ∃ k : Holding, k.name = n ∧ k.Of t here name root ∧ x.1 = k.package root ∧ encode (added x) = k.bytes := by
  obtain ⟨paths, hpaths, htexts, hx⟩ := readPackage_eq_ok h
  obtain ⟨files, rfl, htext, hread⟩ := readLicenses_eq_ok htexts
  have hlicense : Detection.combine (x.2.filterMap Detection.license) = Holding.license ⟨n, files⟩ := by
    rw [Holding.license, ← htext, List.filterMap_map]
    rfl
  refine ⟨⟨n, files⟩, rfl, ⟨findFiles_eq_ok hdir hpaths, hread⟩, ?_, ?_⟩
  · rw [hx, hlicense, nameOf_join hn]
    rfl
  · have hbundled : x.1.isBundled = !files.isEmpty := by
      rw [hx, Package.isBundled, List.isEmpty_map]
    have hname : x.1.name = decodeLossy n := by rw [hx, nameOf_join hn]
    rw [added, hbundled, Holding.bytes]
    cases files with
    | nil => rfl
    | cons f files =>
      rw [if_pos (by rfl), if_neg (List.cons_ne_nil f files), encode_section, hname, ← htext, List.flatMap_map]
      congr 1
      refine List.flatMap_congr fun f hf => ?_
      rw [(hread f hf).encode_decodeLossy]

theorem gatherPackages_eq {name : Text} {root : Path} {names : List Bytes} {g g' : Gathering}
    (hnames : ∀ n ∈ names, IsName n ∧ t.isDirectory here (root.join n) = true)
    (h : t.gatherPackages here name (names.map root.join) g = (g', none)) :
    ∃ ks : List Holding, ks.map Holding.name = names ∧ (∀ k ∈ ks, k.Of t here name root) ∧
      g'.packages = g.packages ++ ks.map (Holding.package root) ∧
      encode g'.bundle.render = encode g.bundle.render ++ ks.flatMap Holding.bytes := by
  induction names generalizing g with
  | nil =>
    cases h
    exact ⟨[], rfl, by simp, by simp, by simp⟩
  | cons n names ih =>
    obtain ⟨⟨hn, hdir⟩, hnames⟩ := List.forall_mem_cons.mp hnames
    rw [List.map_cons, gatherPackages_cons_eq_iff] at h
    obtain ⟨x, hx, h⟩ := h
    obtain ⟨k, hk, hof, hpackage, hbytes⟩ := exists_holding hn hdir hx
    obtain ⟨ks, hks, hofs, hpackages, hrender⟩ := ih hnames h
    refine ⟨k :: ks, by rw [List.map_cons, hk, hks], List.forall_mem_cons.mpr ⟨hof, hofs⟩, ?_, ?_⟩
    · rw [hpackages, List.map_cons, ← hpackage]
      exact List.append_assoc _ [x.1] _
    · rw [hrender, render_complete, encode_append, hbytes, List.flatMap_cons, List.append_assoc]
      rfl

theorem encode_push (g : Gathering) (label text : Text) :
    encode (g.push label text).bundle.render = encode g.bundle.render ++ Inventory.labelled label (encode text) := by
  rw [Gathering.push, Bundle.push, Bundle.render_pushAll, encode_append, encode_section, List.flatMap_singleton]
  rfl

theorem gatherSublicenses_eq {ss : List Sublicense} {g g' : Gathering}
    (h : t.gatherSublicenses here ss g = (g', none)) :
    ∃ bs : List Bytes, List.Forall₂ (fun s b => t.HasText here s.path b) ss bs ∧ g'.packages = g.packages ∧
      encode g'.bundle.render = encode g.bundle.render ++
        (ss.zip bs).flatMap fun x => Inventory.labelled x.1.label x.2 := by
  induction ss generalizing g with
  | nil =>
    cases h
    exact ⟨[], .nil, rfl, by simp⟩
  | cons s ss ih =>
    obtain ⟨text, htext, h⟩ := gatherSublicenses_cons_eq_iff.mp h
    obtain ⟨bs, hbs, hpackages, hrender⟩ := ih h
    refine ⟨encode text :: bs, .cons (readLicense_eq_ok htext).1 hbs, hpackages, ?_⟩
    rw [hrender, encode_push, List.zip_cons_cons, List.flatMap_cons, List.append_assoc]
    rfl

/-! ## (3) Runs -/

theorem gather_eq {o : Order} {bar : Progress} {g : Gathering} (h : t.gather here o bar = (g, none)) :
    ∃ inv : Inventory, inv.Of t here o ∧ encode g.bundle.render = inv.bytes o ∧
      g.packages = inv.packages.map (Holding.package o.cacheRoot) := by
  obtain ⟨text, g₁, dirs, htext, hsub, hdirs, h⟩ := gather_eq_iff.mp h
  obtain ⟨names, rfl, hlisted⟩ := subdirectories?_eq_some hdirs
  obtain ⟨l, -, -, hmem⟩ := hlisted.complete
  have hnames : ∀ n ∈ names, IsName n ∧ t.isDirectory here (o.cacheRoot.join n) = true := by
    intro n hn
    exact ⟨isName_of_node? ((hmem n).mp hn).1, ((hmem n).mp hn).2⟩
  obtain ⟨bs, hbs, hpackages, hrender⟩ := gatherSublicenses_eq hsub
  obtain ⟨ks, hks, hofs, hpackages', hrender'⟩ := gatherPackages_eq hnames h
  refine ⟨⟨encode text, bs, ks⟩, ⟨(readLicense_eq_ok htext).1, hbs, hks ▸ hlisted, hofs⟩, ?_, ?_⟩
  · rw [hrender', hrender, encode_push]
    rfl
  · rw [hpackages', hpackages]
    rfl

/-- A run that succeeds has written the inventory of the tree as it was before, and has the
    packages of the inventory to report. -/
theorem collect_inventory {t' : Tree} {o : Order} {output : Path} {bar : Progress} {g : Gathering}
    (h : t.collect here o output bar = (t', g, none)) :
    ∃ inv : Inventory, inv.Of t here o ∧ t'.readBytes here output = .ok (inv.bytes o) ∧
      g.packages = inv.packages.map (Holding.package o.cacheRoot) := by
  rw [collect] at h
  rcases hg : t.gather here o bar with ⟨g₁, _ | f⟩
  case some =>
    rw [hg] at h
    cases h
  rw [hg] at h
  simp only at h
  cases hw : t.write here output (encode g₁.bundle.render) with
  | error c =>
    rw [hw] at h
    cases h
  | ok t₁ =>
    rw [hw] at h
    cases h
    obtain ⟨inv, hof, hbytes, hpackages⟩ := gather_eq hg
    obtain ⟨l, hl⟩ := write_eq_ok hw
    exact ⟨inv, hof, hbytes ▸ hl.readBytes, hpackages⟩

/-! ### A small tree -/

open Attribution.Path (ofString)

/-- A project's license, and a cache with one package that has a copyright file. -/
def sample : Tree where
  entries := [([ofString "license"], .file (ofString "ours")), ([ofString "cache"], .directory),
    ([ofString "cache", ofString "zlib"], .directory),
    ([ofString "cache", ofString "zlib", ofString "copyright"], .file (ofString "theirs"))]
  wellFormed := ⟨by decide, by decide, by decide, by decide⟩

def sampleOrder : Order := ⟨"app".toList, ofString "license", [], ofString "cache", "copyright".toList⟩

theorem subdirectories?_sample : sample.subdirectories? [] (ofString "cache") = some [ofString "cache/zlib"] :=
  subdirectories?_of_ordered [ofString "cache"] [ofString "zlib"] rfl rfl (by decide) (by decide) (by decide)

theorem readPackage_sample : ∃ x, sample.readPackage [] "copyright".toList (ofString "cache/zlib") = .ok x := by
  have hfind : sample.findFiles [] (ofString "cache/zlib") (encode "copyright".toList) =
      .ok [ofString "cache/zlib/copyright"] := by
    apply findFiles_of_single [ofString "cache", ofString "zlib"] rfl rfl
    show _ = [([ofString "copyright"], Node.file (ofString "theirs"))]
    decide
  rw [readPackage, hfind]
  exact ⟨_, rfl⟩

theorem collect_sample : ∃ t' g, sample.collect [] sampleOrder (ofString "notice") = (t', g, none) := by
  obtain ⟨x, hx⟩ := readPackage_sample
  have hnone : (sample.gather [] sampleOrder).2 = none := by
    rw [gather, show sample.readLicense [] sampleOrder.license = .ok "ours".toList from rfl]
    simp only [gatherSublicenses, sampleOrder, subdirectories?_sample, gatherPackages, hx]
  rcases hg : sample.gather [] sampleOrder with ⟨g, f⟩
  obtain rfl : f = none := by rw [hg] at hnone; exact hnone
  rw [collect, hg]
  exact ⟨_, _, rfl⟩

theorem collect_inventory_sample : ∃ t' g, sample.collect [] sampleOrder (ofString "notice") = (t', g, none) ∧
    ∃ inv : Inventory, inv.Of sample [] sampleOrder ∧
      t'.readBytes [] (ofString "notice") = .ok (inv.bytes sampleOrder) ∧
      g.packages = inv.packages.map (Holding.package sampleOrder.cacheRoot) := by
  obtain ⟨t', g, h⟩ := collect_sample
  exact ⟨t', g, h, collect_inventory h⟩

end Tree

end Attribution
