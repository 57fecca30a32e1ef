/-
  Attribution.Proofs.Recognizing — what is said of a package whose texts have no tag.

  (1) The ids of the phrases are identifiers that the rating knows as free licenses
  (`known_of_mem_all`), so a text without a tag is under such a license or under none
  (`known_of_license`).

  (2) Licenses that are known are rated together as the most restrictive of them
  (`exists_risk_combine_known`).

  (3) The entry of a package sums up the texts of its copyright files, also if gathering
  stops later on (`gather_packages`). If none of them has a tag, it has a license iff a
  phrase is found in one of them, and is rated by the most restrictive of the licenses
  found, whatever the order of the texts (`gather_recognized`).
-/
import Attribution.Proofs.Combining
import Attribution.Proofs.Inventory
import Attribution.Proofs.Wording
import Mathlib.Order.Bounds.Basic

namespace Attribution

open Text

namespace Detection

open Expression Risk

/-! ## (1) Licenses that are known -/

structure Known (id : Text) : Prop where
  wellFormed : Formula.WellFormed id
  notProprietary : saysProprietary id = false
  notChoice : mentions orWord id = false
  risk_eq : risk id = riskOfId id
  le_strongCopyleft : riskOfId id ≤ strongCopyleft

theorem known_of_identifier (i : Identifier) (h : saysProprietary i.text = false) (hle : riskOfId i.text ≤ strongCopyleft) :
    Known i.text where
  wellFormed := Formula.wellFormed_print (.id i)
  notProprietary := h
  notChoice := by
    rw [mentions_eq_false_iff]
    intro hor
    exact i.space_not_mem (hor.subset (by decide))
  risk_eq := Formula.risk_print_eq (e := .id i) h
  le_strongCopyleft := hle

theorem known_of_mem_all : ∀ x ∈ Phrase.all, Known x.id := by
  have hids : ∀ x ∈ Phrase.all, x.id ≠ [] ∧ x.id.all isSolid = true ∧ x.id ∉ keywords ∧
      saysProprietary x.id = false ∧ riskOfId x.id ≤ strongCopyleft := by decide
  intro x hx
  obtain ⟨hne, hsolid, hkeyword, hsay, hle⟩ := hids x hx
  exact known_of_identifier ⟨x.id, hne, List.all_eq_true.mp hsolid, hkeyword⟩ hsay hle

section Unmarked

variable {s : Text}

theorem known_of_license (h : mentions Tag.mark s = false) {id : Text} (hid : license s = some id) : Known id := by
  rw [license_of_unmarked h, byPhrase, Option.map_eq_some_iff] at hid
  obtain ⟨x, hx, rfl⟩ := hid
  exact known_of_mem_all x (List.mem_of_find?_eq_some hx)

theorem license_eq_none_iff (h : mentions Tag.mark s = false) :
    license s = none ↔ ∀ x ∈ Phrase.all, x.pattern.foundIn s = false := by
  rw [license_of_unmarked h, byPhrase, Option.map_eq_none_iff, List.find?_eq_none]
  simp only [Bool.not_eq_true]

end Unmarked

def risks (texts : List Text) : List Risk := (texts.filterMap license).map riskOfId

theorem mem_risks_iff {texts : List Text} {r : Risk} :
    r ∈ risks texts ↔ ∃ s ∈ texts, ∃ id, license s = some id ∧ riskOfId id = r := by
  rw [risks, List.mem_map]
  constructor
  · intro ⟨id, hid, hr⟩
    obtain ⟨s, hs, hid⟩ := List.mem_filterMap.mp hid
    exact ⟨s, hs, id, hid, hr⟩
  · intro ⟨s, hs, id, hid, hr⟩
    exact ⟨id, List.mem_filterMap.mpr ⟨s, hs, hid⟩, hr⟩

/-! ## (2) Several of them -/

theorem exists_risk_combine_known {ids : List Text} (hne : ids ≠ []) (h : ∀ id ∈ ids, Known id) :
    ∃ e, combine ids = some e ∧ risk e = mostRestrictive (ids.map riskOfId) := by
  have hd : ∀ id ∈ ids.eraseDups, Known id := fun id hid => h id (List.mem_eraseDups.mp hid)
  obtain ⟨e, hc, he⟩ := risk_combine_eq hne (fun id hid => (h id hid).wellFormed) fun id hid => (h id hid).notProprietary
  refine ⟨e, hc, ?_⟩
  have hrisks : ids.map risk = ids.map riskOfId := List.map_congr_left fun id hid => (h id hid).risk_eq
  calc risk e = mostPermissive (sideBySide (ids.eraseDups.map alternatives)) := he
    _ = mostPermissive [mostRestrictive (ids.eraseDups.map risk)] := by
      rw [map_alternatives_eq fun id hid => (hd id hid).notChoice,
        sideBySide_map_singleton (by simpa using eraseDups_ne_nil hne)]
    _ = mostRestrictive (ids.map risk) := mostRestrictive_eraseDups ids risk
    _ = mostRestrictive (ids.map riskOfId) := by rw [hrisks]

end Detection

/-! ## (3) Packages -/

namespace Package

open Detection Expression Risk

structure SumsUp (p : Package) (texts : List Text) : Prop where
  license_eq : p.license = combine (texts.filterMap Detection.license)
  risk_eq : p.risk = (p.license.map Expression.risk).getD .unknown

section Unmarked

variable {p : Package} {texts : List Text} (h : p.SumsUp texts) (hunmarked : ∀ s ∈ texts, mentions Tag.mark s = false)

include h in
theorem SumsUp.risks_eq_nil_iff : risks texts = [] ↔ p.license = none := by
  rw [h.license_eq, combine_eq_none_iff, risks, List.map_eq_nil_iff]

include h hunmarked in
theorem SumsUp.license_eq_none_iff :
    p.license = none ↔ ∀ s ∈ texts, ∀ x ∈ Phrase.all, x.pattern.foundIn s = false := by
  rw [h.license_eq, combine_eq_none_iff, List.filterMap_eq_nil_iff]
  exact forall₂_congr fun s hs => Detection.license_eq_none_iff (hunmarked s hs)

include h hunmarked in
/-- Without any license the most restrictive risk is unknown, as the package's is. -/
theorem SumsUp.risk_eq_mostRestrictive : p.risk = mostRestrictive (risks texts) := by
  rw [h.risk_eq, h.license_eq]
  by_cases hne : texts.filterMap Detection.license = []
  · rw [risks, hne]
    rfl
  · have hknown : ∀ id ∈ texts.filterMap Detection.license, Known id := by
      intro id hid
      obtain ⟨s, hs, hid⟩ := List.mem_filterMap.mp hid
      exact known_of_license (hunmarked s hs) hid
    obtain ⟨e, hc, he⟩ := exists_risk_combine_known hne hknown
    rw [hc, risks, ← he]
    rfl

include h hunmarked in
theorem SumsUp.isGreatest_risk (hsome : p.license ≠ none) : IsGreatest {r | r ∈ risks texts} p.risk := by
  have hne : risks texts ≠ [] := mt h.risks_eq_nil_iff.mp hsome
  exact (mostRestrictive_eq_iff hne).mp (h.risk_eq_mostRestrictive hunmarked).symm

include h hunmarked in
theorem SumsUp.risk_le_strongCopyleft (hsome : p.license ≠ none) : p.risk ≤ strongCopyleft := by
  obtain ⟨s, hs, id, hid, hrisk⟩ := mem_risks_iff.mp (h.isGreatest_risk hunmarked hsome).1
  rw [← hrisk]
  exact (known_of_license (hunmarked s hs) hid).le_strongCopyleft

include h hunmarked in
theorem SumsUp.risk_eq_unknown_iff : p.risk = unknown ↔ p.license = none := by
  constructor
  · intro hunknown
    by_contra hsome
    have hle := h.risk_le_strongCopyleft hunmarked hsome
    rw [hunknown] at hle
    exact absurd hle (by decide)
  · intro hnone
    rw [h.risk_eq, hnone]
    rfl

include h hunmarked in
theorem SumsUp.risk_ne_proprietary : p.risk ≠ proprietary := by
  intro hproprietary
  by_cases hnone : p.license = none
  · rw [(h.risk_eq_unknown_iff hunmarked).mpr hnone] at hproprietary
    cases hproprietary
  · have hle := h.risk_le_strongCopyleft hunmarked hnone
    rw [hproprietary] at hle
    exact absurd hle (by decide)

end Unmarked

end Package

namespace Tree

/-- What the entry of a package says about its texts if none of them has a tag. -/
structure Recognized (texts : List Text) (p : Package) : Prop where
  license_eq_none_iff : p.license = none ↔ ∀ s ∈ texts, ∀ x ∈ Phrase.all, x.pattern.foundIn s = false
  unknown_iff : p.risk = .unknown ↔ p.license = none
  ne_proprietary : p.risk ≠ .proprietary
  /-- The risk is that of the most restrictive license found in a text. -/
  greatest : p.license ≠ none →
    IsGreatest {r | ∃ s ∈ texts, ∃ id, Detection.license s = some id ∧ Expression.riskOfId id = r} p.risk
  /-- The same texts in another order, and some of them more than once, have the same risk. -/
  unordered : ∀ {t : Tree} {here : Location} {o : Order} {bar : Progress} {p' : Package} {texts' : List Text},
    p' ∈ (t.gather here o bar).1.packages → t.readLicenses here p'.copyrightPaths = .ok texts' →
      (∀ s, s ∈ texts' ↔ s ∈ texts) → p'.risk = p.risk

variable {t : Tree} {here : Location}

theorem sumsUp_of_readPackage {name : Text} {dir : Path} {x : Package × List Text}
    (h : t.readPackage here name dir = .ok x) :
    t.readLicenses here x.1.copyrightPaths = .ok x.2 ∧ x.1.SumsUp x.2 := by
  obtain ⟨paths, -, htexts, hx⟩ := readPackage_eq_ok h
  rw [hx]
  exact ⟨htexts, rfl, rfl⟩

def Summed (t : Tree) (here : Location) (g : Gathering) : Prop :=
  ∀ p ∈ g.packages, ∃ texts, t.readLicenses here p.copyrightPaths = .ok texts ∧ p.SumsUp texts

theorem Summed.complete {g : Gathering} (hg : t.Summed here g) {name : Text} {dir : Path} {x : Package × List Text}
    (h : t.readPackage here name dir = .ok x) : t.Summed here (g.complete x.1 x.2) := by
  intro p hp
  rcases List.mem_append.mp hp with hp | hp
  · exact hg p hp
  · rw [List.mem_singleton.mp hp]
    exact ⟨x.2, sumsUp_of_readPackage h⟩

theorem Summed.gatherPackages {name : Text} {dirs : List Path} {g : Gathering} (hg : t.Summed here g) :
    t.Summed here (t.gatherPackages here name dirs g).1 := by
  induction dirs generalizing g with
  | nil => exact hg
  | cons dir dirs ih =>
    rw [Tree.gatherPackages]
    cases hx : t.readPackage here name dir with
    | error f => exact hg
    | ok x => exact ih (Summed.complete (g := g.begin _) hg hx)

theorem gatherSublicenses_packages (ss : List Sublicense) (g : Gathering) :
    (t.gatherSublicenses here ss g).1.packages = g.packages := by
  induction ss generalizing g with
  | nil => rfl
  | cons s ss ih =>
    rw [gatherSublicenses]
    cases t.readLicense here s.path with
    | error f => rfl
    | ok text => exact ih _

/-- The entries of a gathering, complete or not, sum up the texts of their files. -/
theorem gather_packages (o : Order) (bar : Progress) : t.Summed here (t.gather here o bar).1 := by
  have hnone : ∀ {g : Gathering}, g.packages = [] → t.Summed here g := by
    intro g hg p hp
    rw [hg] at hp
    cases hp
  rw [gather]
  cases t.readLicense here o.license with
  | error f => exact hnone rfl
  | ok text =>
    have hpackages : (t.gatherSublicenses here o.sublicenses ((Gathering.start bar).push o.label text)).1.packages = [] :=
      gatherSublicenses_packages _ _
    simp only
    generalize t.gatherSublicenses here o.sublicenses _ = x at hpackages
    obtain ⟨g, _ | f⟩ := x
    case some => exact hnone hpackages
    simp only
    cases t.subdirectories? here o.cacheRoot with
    | none => exact hnone hpackages
    | some dirs => exact Summed.gatherPackages (hnone hpackages)

theorem recognized_of_sumsUp {p : Package} {texts : List Text} (h : p.SumsUp texts)
    (hunmarked : ∀ s ∈ texts, mentions Tag.mark s = false) : Recognized texts p where
  license_eq_none_iff := h.license_eq_none_iff hunmarked
  unknown_iff := h.risk_eq_unknown_iff hunmarked
  ne_proprietary := h.risk_ne_proprietary hunmarked
  greatest := by
    intro hsome
    simpa only [Detection.mem_risks_iff] using h.isGreatest_risk hunmarked hsome
  unordered := by
    intro t here o bar p' texts' hp' hread' hsame
    obtain ⟨texts'', hread, h'⟩ := gather_packages o bar p' hp'
    obtain rfl : texts' = texts'' := Except.ok.inj (hread'.symm.trans hread)
    have hunmarked' : ∀ s ∈ texts', mentions Tag.mark s = false := fun s hs => hunmarked s ((hsame s).mp hs)
    rw [h'.risk_eq_mostRestrictive hunmarked', h.risk_eq_mostRestrictive hunmarked]
    refine Risk.mostRestrictive_congr fun r => ?_
    simp only [Detection.mem_risks_iff, hsame]

/-- The entry of a package none of whose texts has a tag has a license iff a phrase is found in
    one of them, and is rated as unknown iff it has none. It is never rated as not free, but by the
    most restrictive license found, in whatever order and however often the texts stand. -/
theorem gather_recognized (t : Tree) (here : Location) (o : Order) (bar : Progress) :
    ∀ p ∈ (t.gather here o bar).1.packages, ∃ texts, t.readLicenses here p.copyrightPaths = .ok texts ∧
      ((∀ s ∈ texts, mentions Tag.mark s = false) → Recognized texts p) := by
  intro p hp
  obtain ⟨texts, hread, hsums⟩ := gather_packages o bar p hp
  exact ⟨texts, hread, recognized_of_sumsUp hsums⟩

/-! ### A small tree -/

open Attribution.Path (ofString)

/-- A cache with one package, whose copyright file has the title of a license. -/
def boosted : Tree where
  entries := [([ofString "license"], .file (ofString "ours")), ([ofString "cache"], .directory),
    ([ofString "cache", ofString "boost"], .directory),
    ([ofString "cache", ofString "boost", ofString "copyright"], .file (ofString "Boost Software License"))]
  wellFormed := ⟨by decide, by decide, by decide, by decide⟩

theorem gather_boosted : ∃ p ∈ (boosted.gather [] sampleOrder).1.packages,
    p.copyrightPaths = [ofString "cache/boost/copyright"] := by
  have hdirs : boosted.subdirectories? [] (ofString "cache") = some [ofString "cache/boost"] :=
    subdirectories?_of_ordered [ofString "cache"] [ofString "boost"] rfl rfl (by decide) (by decide) (by decide)
  have hfind : boosted.findFiles [] (ofString "cache/boost") (encode "copyright".toList) =
      .ok [ofString "cache/boost/copyright"] := by
    apply findFiles_of_single [ofString "cache", ofString "boost"] rfl rfl
    show _ = [([ofString "copyright"], Node.file (ofString "Boost Software License"))]
    decide
  obtain ⟨x, hx, hpaths⟩ : ∃ x, boosted.readPackage [] "copyright".toList (ofString "cache/boost") = .ok x ∧
      x.1.copyrightPaths = [ofString "cache/boost/copyright"] := by
    rw [readPackage, hfind]
    exact ⟨_, rfl, rfl⟩
  refine ⟨x.1, ?_, hpaths⟩
  rw [gather, show boosted.readLicense [] sampleOrder.license = .ok "ours".toList from rfl]
  simp only [gatherSublicenses, sampleOrder, hdirs, gatherPackages, hx]
  exact List.mem_append_right _ (List.mem_singleton.mpr rfl)

theorem license_boosted : Detection.license "Boost Software License".toList = some "BSL-1.0".toList := by
  decide +kernel

/-- The title is found, and the package is rated by its license. -/
theorem gather_recognized_boosted : ∃ p ∈ (boosted.gather [] sampleOrder).1.packages,
    Recognized ["Boost Software License".toList] p ∧ p.license = some "BSL-1.0".toList ∧ p.risk = .permissive := by
  obtain ⟨p, hp, hpaths⟩ := gather_boosted
  obtain ⟨texts, hread, hrecognized⟩ := gather_recognized boosted [] sampleOrder _ p hp
  obtain ⟨texts', hread', hsums⟩ := gather_packages sampleOrder _ p hp
  obtain rfl := Except.ok.inj (hread.symm.trans hread')
  have htexts : ["Boost Software License".toList] = texts := by
    rw [hpaths] at hread
    exact Except.ok.inj hread
  subst htexts
  have hunmarked : ∀ s ∈ ["Boost Software License".toList], mentions Tag.mark s = false := by decide
  refine ⟨p, hp, hrecognized hunmarked, ?_, ?_⟩
  · rw [hsums.license_eq, List.filterMap_cons_some license_boosted]
    decide
  · rw [hsums.risk_eq_mostRestrictive hunmarked, Detection.risks, List.filterMap_cons_some license_boosted]
    decide

end Tree

end Attribution
