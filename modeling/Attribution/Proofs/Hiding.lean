/-
  Attribution.Proofs.Hiding — several licenses in one file.

  (1) The phrases are tried in an order of their own, not in that of restrictiveness. A phrase
  is tried before one of a more restrictive license only where the LGPL is tried before the
  GPL (`riskOfId_lt_iff_of_le`).

  (2) The phrase that decides for two texts in one file is tried no later than those that
  decide for each of them (`exists_license_merged`).

  (3) So a package with both texts in one file is rated as more permissive than one with a
  file for each iff the one file is taken for the LGPL and one of the texts alone for the GPL
  (`gather_merged`). In this way a license may be hidden (`general_hidden`), and in no other.
-/
import Attribution.Proofs.Recognizing
import Attribution.Proofs.Surrounding

namespace Attribution

open Text

namespace Detection

open Expression Risk
open Pattern (EndsLine)

/-! ## (1) The order of the phrases -/

/-- The ids of the LGPL that are tried before the GPL. -/
def lesserIds : List Text := ["LGPL-2.1".toList, "LGPL-3.0".toList]

def generalIds : List Text := ["GPL-3.0".toList, "GPL-2.0".toList]

theorem riskOfId_lt_iff_of_le : ∀ {i j : Fin Phrase.all.length}, i ≤ j →
    (riskOfId (Phrase.all.get i).id < riskOfId (Phrase.all.get j).id ↔
      (Phrase.all.get i).id ∈ lesserIds ∧ (Phrase.all.get j).id ∈ generalIds) := by
  decide +kernel

/-! ## (2) Two texts in one file -/

theorem exists_index_of_license {s : Text} (h : mentions Tag.mark s = false) {id : Text}
    (hid : license s = some id) : ∃ i : Fin Phrase.all.length, id = (Phrase.all.get i).id := by
  rw [license_of_unmarked h, byPhrase, Option.map_eq_some_iff] at hid
  obtain ⟨x, hx, rfl⟩ := hid
  obtain ⟨i, hi, rfl⟩ := List.mem_iff_getElem.mp (List.mem_of_find?_eq_some hx)
  exact ⟨⟨i, hi⟩, rfl⟩

section Merged

variable {a b : Text}

/-- What is found in one of the texts is found in the file. -/
theorem foundIn_merged {x : Phrase} (hx : x ∈ Phrase.all)
    (hfound : x.pattern.foundIn a = true ∨ x.pattern.foundIn b = true) :
    x.pattern.foundIn (a ++ '\n' :: b) = true := by
  have hportable := Phrase.portable_of_mem_all x hx
  rcases hfound with ha | hb
  · have := hportable.foundIn_surrounded (a := []) (.inl rfl) ('\n' :: b) ha
    rwa [List.nil_append] at this
  · have hline : EndsLine (a ++ ['\n']) := .inr (by simp)
    have := hportable.foundIn_surrounded hline [] hb
    rwa [List.append_nil, List.append_assoc] at this

variable (h : mentions Tag.mark (a ++ '\n' :: b) = false)

include h

theorem unmarked_of_merged : mentions Tag.mark a = false ∧ mentions Tag.mark b = false := by
  rw [mentions_append_cons (by decide), Bool.or_eq_false_iff] at h
  exact h

theorem exists_license_merged {i j : Fin Phrase.all.length} (ha : license a = some (Phrase.all.get i).id)
    (hb : license b = some (Phrase.all.get j).id) :
    ∃ k, k ≤ i ∧ k ≤ j ∧ license (a ++ '\n' :: b) = some (Phrase.all.get k).id := by
  obtain ⟨hamark, hbmark⟩ := unmarked_of_merged h
  rw [license_of_unmarked hamark] at ha
  rw [license_of_unmarked hbmark] at hb
  rw [license_of_unmarked h]
  have hi : (Phrase.all.get i).pattern.foundIn (a ++ '\n' :: b) = true :=
    foundIn_merged (List.getElem_mem i.isLt) (.inl (foundIn_of_byPhrase_eq ha))
  have hj : (Phrase.all.get j).pattern.foundIn (a ++ '\n' :: b) = true :=
    foundIn_merged (List.getElem_mem j.isLt) (.inr (foundIn_of_byPhrase_eq hb))
  rcases le_total i j with hle | hle
  · obtain ⟨k, hk, hid⟩ := exists_byPhrase_eq hi
    exact ⟨k, hk, hk.trans hle, hid⟩
  · obtain ⟨k, hk, hid⟩ := exists_byPhrase_eq hj
    exact ⟨k, hk.trans hle, hk, hid⟩

/-- Two texts that are recognized are rated as more permissive in one file than both together iff
    the file is taken for the LGPL and one of them alone for the GPL. -/
theorem exists_riskOfId_merged (ha : license a ≠ none) (hb : license b ≠ none) :
    ∃ id ida idb, license (a ++ '\n' :: b) = some id ∧ license a = some ida ∧ license b = some idb ∧
      (riskOfId id < max (riskOfId ida) (riskOfId idb) ↔ id ∈ lesserIds ∧ (ida ∈ generalIds ∨ idb ∈ generalIds)) := by
  obtain ⟨hamark, hbmark⟩ := unmarked_of_merged h
  obtain ⟨ida, ha⟩ := Option.ne_none_iff_exists'.mp ha
  obtain ⟨idb, hb⟩ := Option.ne_none_iff_exists'.mp hb
  obtain ⟨i, rfl⟩ := exists_index_of_license hamark ha
  obtain ⟨j, rfl⟩ := exists_index_of_license hbmark hb
  obtain ⟨k, hi, hj, hk⟩ := exists_license_merged h ha hb
  refine ⟨_, _, _, hk, ha, hb, ?_⟩
  rw [lt_max_iff, riskOfId_lt_iff_of_le hi, riskOfId_lt_iff_of_le hj, ← and_or_left]

/-! ## (3) Packages -/

/-- A package with both texts in one file, and one with a file for each. -/
theorem risk_lt_iff_of_sumsUp (ha : license a ≠ none) (hb : license b ≠ none) {p p' : Package} {texts : List Text}
    (hp : p.SumsUp [a ++ '\n' :: b]) (hp' : p'.SumsUp texts) (hperm : texts.Perm [a, b]) :
    p.risk < p'.risk ↔ (∃ id ∈ lesserIds, license (a ++ '\n' :: b) = some id) ∧
      ∃ id ∈ generalIds, license a = some id ∨ license b = some id := by
  obtain ⟨hamark, hbmark⟩ := unmarked_of_merged h
  obtain ⟨id, ida, idb, hid, hida, hidb, hiff⟩ := exists_riskOfId_merged h ha hb
  have hboth : ∀ s ∈ texts, mentions Tag.mark s = false := by
    intro s hs
    rcases List.mem_pair.mp (hperm.mem_iff.mp hs) with rfl | rfl
    · exact hamark
    · exact hbmark
  have hone : p.risk = riskOfId id := by
    rw [hp.risk_eq_mostRestrictive (List.forall_mem_singleton.mpr h), risks, List.filterMap_cons_some hid]
    rfl
  have htwo : p'.risk = max (riskOfId ida) (riskOfId idb) := by
    have hrisks : ∀ r, r ∈ risks texts ↔ r ∈ risks [a, b] := by
      intro r
      simp only [mem_risks_iff, hperm.mem_iff]
    rw [hp'.risk_eq_mostRestrictive hboth, mostRestrictive_congr hrisks, risks, List.filterMap_cons_some hida,
      List.filterMap_cons_some hidb]
    rfl
  rw [hone, htwo, hiff, hid, hida, hidb]
  simp only [Option.some.injEq, exists_eq_right']
  constructor
  · intro h
    obtain ⟨hlesser, hgeneral⟩ := h
    exact ⟨hlesser, hgeneral.elim (fun hm => ⟨ida, hm, .inl rfl⟩) fun hm => ⟨idb, hm, .inr rfl⟩⟩
  · intro h
    obtain ⟨hlesser, x, hm, hx⟩ := h
    refine ⟨hlesser, hx.imp ?_ ?_⟩
    · intro hx
      rwa [hx]
    · intro hx
      rwa [hx]

end Merged

end Detection

namespace Tree

open Detection

/-- A package with two recognized texts in one file is rated as more permissive than one with a
    file for each iff the one file is taken for the LGPL and one of the texts alone for the GPL. -/
theorem gather_merged {t t' : Tree} {here here' : Location} {o o' : Order} {bar bar' : Progress}
    {p p' : Package} {a b : Text} {texts : List Text} (hp : p ∈ (t.gather here o bar).1.packages)
    (hp' : p' ∈ (t'.gather here' o' bar').1.packages)
    (hone : t.readLicenses here p.copyrightPaths = .ok [a ++ '\n' :: b])
    (htwo : t'.readLicenses here' p'.copyrightPaths = .ok texts) (hperm : texts.Perm [a, b])
    (h : mentions Tag.mark (a ++ '\n' :: b) = false) (ha : license a ≠ none) (hb : license b ≠ none) :
    p.risk < p'.risk ↔ (∃ id ∈ lesserIds, license (a ++ '\n' :: b) = some id) ∧
      ∃ id ∈ generalIds, license a = some id ∨ license b = some id := by
  obtain ⟨texts₁, hread, hsums⟩ := gather_packages o bar p hp
  obtain ⟨texts₂, hread', hsums'⟩ := gather_packages o' bar' p' hp'
  obtain rfl := Except.ok.inj (hone.symm.trans hread)
  obtain rfl := Except.ok.inj (htwo.symm.trans hread')
  exact risk_lt_iff_of_sumsUp h ha hb hsums hsums' hperm

/-! ### A small tree -/

open Attribution.Path (ofString)

def lesserTitle : Text := "GNU LESSER GENERAL PUBLIC LICENSE Version 3".toList

def generalTitle : Text := "GNU GENERAL PUBLIC LICENSE Version 2".toList

/-- A cache with a package that has both licenses in one file, and one with a file for each. -/
def shelves : Tree where
  entries := [([ofString "license"], .file (ofString "ours")), ([ofString "cache"], .directory),
    ([ofString "cache", ofString "merged"], .directory),
    ([ofString "cache", ofString "merged", ofString "copyright"],
      .file (encode (lesserTitle ++ '\n' :: generalTitle))),
    ([ofString "cache", ofString "parted"], .directory),
    ([ofString "cache", ofString "parted", ofString "a"], .directory),
    ([ofString "cache", ofString "parted", ofString "a", ofString "copyright"], .file (encode lesserTitle)),
    ([ofString "cache", ofString "parted", ofString "b"], .directory),
    ([ofString "cache", ofString "parted", ofString "b", ofString "copyright"], .file (encode generalTitle))]
  wellFormed := ⟨by decide, by decide, by decide, by decide⟩

theorem subdirectories?_shelves : shelves.subdirectories? [] (ofString "cache") =
    some [ofString "cache/merged", ofString "cache/parted"] :=
  subdirectories?_of_ordered [ofString "cache"] [ofString "merged", ofString "parted"] rfl rfl (by decide) (by decide)
    (by decide)

theorem findFiles_merged : shelves.findFiles [] (ofString "cache/merged") (encode "copyright".toList) =
    .ok [ofString "cache/merged/copyright"] := by
  apply findFiles_of_single [ofString "cache", ofString "merged"] rfl rfl
  show _ = [([ofString "copyright"], Node.file (encode (lesserTitle ++ '\n' :: generalTitle)))]
  decide

theorem findFiles_parted : shelves.findFiles [] (ofString "cache/parted") (encode "copyright".toList) =
    .ok [ofString "cache/parted/a/copyright", ofString "cache/parted/b/copyright"] := by
  have hl : shelves.resolve [] (ofString "cache/parted") = .ok [ofString "cache", ofString "parted"] := rfl
  rw [findFiles_eq _ rfl hl, sortedBeneath_of_ordered (by decide)]
  rfl

theorem gather_shelves : ∃ p p', (shelves.gather [] sampleOrder).1.packages = [p, p'] ∧
    shelves.readLicenses [] p.copyrightPaths = .ok [lesserTitle ++ '\n' :: generalTitle] ∧
    shelves.readLicenses [] p'.copyrightPaths = .ok [lesserTitle, generalTitle] := by
  obtain ⟨x, hx, hpaths⟩ : ∃ x, shelves.readPackage [] "copyright".toList (ofString "cache/merged") = .ok x ∧
      x.1.copyrightPaths = [ofString "cache/merged/copyright"] := by
    rw [readPackage, findFiles_merged]
    exact ⟨_, rfl, rfl⟩
  obtain ⟨y, hy, hpaths'⟩ : ∃ y, shelves.readPackage [] "copyright".toList (ofString "cache/parted") = .ok y ∧
      y.1.copyrightPaths = [ofString "cache/parted/a/copyright", ofString "cache/parted/b/copyright"] := by
    rw [readPackage, findFiles_parted]
    exact ⟨_, rfl, rfl⟩
  refine ⟨x.1, y.1, ?_, ?_, ?_⟩
  · rw [gather, show shelves.readLicense [] sampleOrder.license = .ok "ours".toList from rfl]
    simp only [gatherSublicenses, sampleOrder, subdirectories?_shelves, gatherPackages, hx, hy]
    rfl
  · rw [hpaths]
    rfl
  · rw [hpaths']
    rfl

theorem unmarked_shelves : mentions Tag.mark (lesserTitle ++ '\n' :: generalTitle) = false := by decide +kernel

theorem license_lesserTitle : license lesserTitle = some "LGPL-3.0".toList := by decide +kernel

theorem license_generalTitle : license generalTitle = some "GPL-2.0".toList := by decide +kernel

theorem license_titles : license (lesserTitle ++ '\n' :: generalTitle) = some "LGPL-3.0".toList := by decide +kernel

theorem gather_merged_shelves : ∃ p p', (shelves.gather [] sampleOrder).1.packages = [p, p'] ∧
    shelves.readLicenses [] p.copyrightPaths = .ok [lesserTitle ++ '\n' :: generalTitle] ∧
    shelves.readLicenses [] p'.copyrightPaths = .ok [lesserTitle, generalTitle] ∧
    mentions Tag.mark (lesserTitle ++ '\n' :: generalTitle) = false ∧
    license lesserTitle ≠ none ∧ license generalTitle ≠ none ∧ p.risk < p'.risk := by
  obtain ⟨p, p', hpackages, hone, htwo⟩ := gather_shelves
  have hp : p ∈ (shelves.gather [] sampleOrder).1.packages := by simp [hpackages]
  have hp' : p' ∈ (shelves.gather [] sampleOrder).1.packages := by simp [hpackages]
  have ha : license lesserTitle ≠ none := by simp [license_lesserTitle]
  have hb : license generalTitle ≠ none := by simp [license_generalTitle]
  have hiff := gather_merged hp hp' hone htwo (.refl _) unmarked_shelves ha hb
  refine ⟨p, p', hpackages, hone, htwo, unmarked_shelves, ha, hb, hiff.mpr ⟨?_, ?_⟩⟩
  · exact ⟨_, by decide, license_titles⟩
  · exact ⟨_, by decide, .inr license_generalTitle⟩

/-- A file with both titles is taken for the LGPL alone, so that the GPL is not reported. -/
theorem general_hidden : ∃ p p', (shelves.gather [] sampleOrder).1.packages = [p, p'] ∧
    shelves.readLicenses [] p.copyrightPaths = .ok [lesserTitle ++ '\n' :: generalTitle] ∧
    shelves.readLicenses [] p'.copyrightPaths = .ok [lesserTitle, generalTitle] ∧
    mentions Tag.mark (lesserTitle ++ '\n' :: generalTitle) = false ∧
    license lesserTitle = some "LGPL-3.0".toList ∧ license generalTitle = some "GPL-2.0".toList ∧
    p.license = some "LGPL-3.0".toList ∧ p.risk = .weakCopyleft ∧
    p'.license = some "LGPL-3.0 AND GPL-2.0".toList ∧ p'.risk = .strongCopyleft := by
  obtain ⟨p, p', hpackages, hone, htwo⟩ := gather_shelves
  have hp : p ∈ (shelves.gather [] sampleOrder).1.packages := by simp [hpackages]
  have hp' : p' ∈ (shelves.gather [] sampleOrder).1.packages := by simp [hpackages]
  obtain ⟨texts, hread, hsums⟩ := gather_packages sampleOrder _ p hp
  obtain ⟨texts', hread', hsums'⟩ := gather_packages sampleOrder _ p' hp'
  obtain rfl := Except.ok.inj (hone.symm.trans hread)
  obtain rfl := Except.ok.inj (htwo.symm.trans hread')
  have hunmarked : ∀ s ∈ [lesserTitle, generalTitle], mentions Tag.mark s = false := by decide +kernel
  refine ⟨p, p', hpackages, hone, htwo, unmarked_shelves, license_lesserTitle, license_generalTitle, ?_, ?_, ?_, ?_⟩
  · rw [hsums.license_eq, List.filterMap_cons_some license_titles]
    decide
  · rw [hsums.risk_eq_mostRestrictive (List.forall_mem_singleton.mpr unmarked_shelves), risks,
      List.filterMap_cons_some license_titles]
    decide
  · rw [hsums'.license_eq, List.filterMap_cons_some license_lesserTitle,
      List.filterMap_cons_some license_generalTitle]
    decide
  · rw [hsums'.risk_eq_mostRestrictive hunmarked, risks, List.filterMap_cons_some license_lesserTitle,
      List.filterMap_cons_some license_generalTitle]
    decide

end Tree

end Attribution
