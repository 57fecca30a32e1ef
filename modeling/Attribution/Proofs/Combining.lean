/-
  Attribution.Proofs.Combining — the risk of a package under several licenses.

  (1) The alternatives of an expression are the risks of the pieces between its ORs
  (`risk_eq_mostPermissive`). Expressions that are put side by side have the
  alternatives that are left without grouping (`sideBySide`).

  (2) The combined expression is rated by what its parts have side by side
  (`risk_combine_eq`), since the parentheses around a choice are not read.

  (3) So a package is never rated more restrictive than its most restrictive license,
  and is rated exactly so if no alternative side by side is better (`risk_combine`).
-/
import Attribution.Detection
import Attribution.Proofs.Grouping

namespace Attribution.Detection

open Text Risk Expression

/-! ## (1) Side by side -/

def alternatives (id : Text) : List Risk := (splitOn orWord id).map risk

/-- The alternatives that are left when several expressions are put side by side. -/
def sideBySide (rss : List (List Risk)) : List Risk := rss.foldr beside []

theorem alternatives_ne_nil (id : Text) : alternatives id ≠ [] := by
  rw [alternatives, ne_eq, List.map_eq_nil_iff]
  exact splitFrom_ne_nil _ _ _

theorem sideBySide_cons (rs : List Risk) (rss : List (List Risk)) :
    sideBySide (rs :: rss) = beside rs (sideBySide rss) := rfl

theorem sideBySide_singleton (rs : List Risk) : sideBySide [rs] = rs := beside_nil rs

theorem sideBySide_ne_nil {rss : List (List Risk)} (hne : rss ≠ []) (h : ∀ rs ∈ rss, rs ≠ []) :
    sideBySide rss ≠ [] := by
  cases rss with
  | nil => exact absurd rfl hne
  | cons rs rss => exact beside_ne_nil _ (h rs List.mem_cons_self)

/-- Side by side, choices are never more restrictive than all of them together. -/
theorem mostPermissive_sideBySide_le {rss : List (List Risk)} (hne : rss ≠ []) (h : ∀ rs ∈ rss, rs ≠ []) :
    mostPermissive (sideBySide rss) ≤ mostRestrictive (rss.map mostPermissive) := by
  induction rss with
  | nil => exact absurd rfl hne
  | cons rs rss ih =>
    by_cases hrss : rss = []
    · rw [hrss, sideBySide_singleton]
      exact le_refl _
    · obtain ⟨hrs, h⟩ := List.forall_mem_cons.mp h
      rw [sideBySide_cons, List.map_cons, mostRestrictive_cons _ (by simp [hrss])]
      exact le_trans (mostPermissive_beside_le hrs (sideBySide_ne_nil hrss h)) (max_le_max_left _ (ih hrss h))

/-- Without choices, all hold together. -/
theorem sideBySide_map_singleton {rs : List Risk} (h : rs ≠ []) :
    sideBySide (rs.map fun r => [r]) = [mostRestrictive rs] := by
  induction rs with
  | nil => exact absurd rfl h
  | cons r rs ih =>
    by_cases hrs : rs = []
    · rw [hrs]
      rfl
    · rw [List.map_cons, sideBySide_cons, ih hrs, mostRestrictive_cons r hrs]
      rfl

/-- An expression is rated by its alternatives. -/
theorem risk_eq_mostPermissive {id : Text} (hwf : Formula.WellFormed id) (h : saysProprietary id = false) :
    risk id = mostPermissive (alternatives id) := by
  obtain ⟨p, e, hs⟩ := hwf
  obtain ⟨f, rfl, -, -, -⟩ := hs.exists_framed
  rw [alternatives, Framed.map_risk_splitOn f h, Framed.risk_text h]

/-! ## (2) Combining -/

theorem grouped_eq (id : Text) : grouped id = Expression.grouped (mentions orWord id) id := rfl

theorem intercalate_grouped (id : Text) {ids : List Text} (h : ids ≠ []) :
    List.intercalate andWord ((id :: ids).map grouped) =
      grouped id ++ andWord ++ List.intercalate andWord (ids.map grouped) := by
  obtain ⟨id', ids, rfl⟩ := List.exists_cons_of_ne_nil h
  rw [List.map_cons, List.map_cons, List.intercalate_cons_cons]

/-- Joined expressions say that a license is not free if one of them does. -/
theorem saysProprietary_joined (ids : List Text) :
    saysProprietary (List.intercalate andWord (ids.map grouped)) = ids.any saysProprietary := by
  induction ids with
  | nil => exact saysProprietary_nil
  | cons id ids ih =>
    rw [List.any_cons]
    by_cases hids : ids = []
    · rw [hids, List.map_singleton, List.intercalate_singleton, grouped_eq, saysProprietary_grouped, List.any_nil,
        Bool.or_false]
    · have := saysProprietary_spaced (w := "AND".toList) (by decide) (grouped id)
        (List.intercalate andWord (ids.map grouped))
      rw [intercalate_grouped id hids, ← ih, ← saysProprietary_grouped (mentions orWord id) id, ← grouped_eq]
      exact this

/-- An expression is a chain with its alternatives, in parentheses or not. -/
theorem exists_framed_grouped {id : Text} (hwf : Formula.WellFormed id) (h : saysProprietary id = false) :
    ∃ f : Framed, f.text = grouped id ∧ f.chain.alternatives = alternatives id := by
  obtain ⟨p, e, hs⟩ := hwf
  obtain ⟨f, rfl, ha, hb, -⟩ := hs.exists_framed
  have halt : f.chain.alternatives = alternatives f.text := (Framed.map_risk_splitOn f h).symm
  cases hor : mentions orWord f.text with
  | true =>
    refine ⟨f.enclosed, ?_, halt⟩
    rw [grouped, if_pos hor, Framed.text_enclosed ha hb]
  | false =>
    refine ⟨f, ?_, halt⟩
    rw [grouped, hor]
    rfl

/-- Expressions joined by AND are a chain with their alternatives side by side. -/
theorem exists_framed_joined {ids : List Text} (hne : ids ≠ []) (hwf : ∀ id ∈ ids, Formula.WellFormed id)
    (h : ∀ id ∈ ids, saysProprietary id = false) :
    ∃ f : Framed, f.text = List.intercalate andWord (ids.map grouped) ∧
      f.chain.alternatives = sideBySide (ids.map alternatives) := by
  induction ids with
  | nil => exact absurd rfl hne
  | cons id ids ih =>
    obtain ⟨hid, hwf⟩ := List.forall_mem_cons.mp hwf
    obtain ⟨hsay, h⟩ := List.forall_mem_cons.mp h
    obtain ⟨f, hf, halt⟩ := exists_framed_grouped hid hsay
    by_cases hids : ids = []
    · refine ⟨f, ?_, ?_⟩
      · rw [hf, hids, List.map_singleton, List.intercalate_singleton]
      · rw [halt, hids, List.map_singleton, sideBySide_singleton]
    · obtain ⟨g, hg, halts⟩ := ih hids hwf h
      refine ⟨f.join .and g, ?_, ?_⟩
      · rw [Framed.text_join, hf, hg, intercalate_grouped id hids]
        rfl
      · rw [List.map_cons, sideBySide_cons, ← halt, ← halts]
        exact alternativesFrom_and _ _ rfl _ _

theorem eraseDups_ne_nil {ids : List Text} (h : ids ≠ []) : ids.eraseDups ≠ [] := by
  obtain ⟨id, ids, rfl⟩ := List.exists_cons_of_ne_nil h
  rw [List.eraseDups_cons]
  exact List.cons_ne_nil _ _

/-- What is combined is one expression or several in parentheses. -/
theorem combine_cases {ids : List Text} (h : ids ≠ []) :
    (∃ id, ids.eraseDups = [id] ∧ combine ids = some id) ∨
      2 ≤ ids.eraseDups.length ∧ combine ids = some (List.intercalate andWord (ids.eraseDups.map grouped)) := by
  rw [combine]
  match hd : ids.eraseDups with
  | [] => exact absurd hd (eraseDups_ne_nil h)
  | [id] => exact Or.inl ⟨id, rfl, rfl⟩
  | id :: id' :: rest => exact Or.inr ⟨by simp, rfl⟩

theorem combine_eq_none_iff {ids : List Text} : combine ids = none ↔ ids = [] := by
  constructor
  · intro h
    by_contra hne
    rcases combine_cases hne with ⟨id, -, hc⟩ | ⟨-, hc⟩
    · rw [hc] at h
      cases h
    · rw [hc] at h
      cases h
  · rintro rfl
    rfl

/-- The combined expression is rated by the alternatives of its parts side by side. -/
theorem risk_combine_eq {ids : List Text} (hne : ids ≠ []) (hwf : ∀ id ∈ ids, Formula.WellFormed id)
    (h : ∀ id ∈ ids, saysProprietary id = false) :
    ∃ e, combine ids = some e ∧ risk e = mostPermissive (sideBySide (ids.eraseDups.map alternatives)) := by
  rcases combine_cases hne with ⟨id, hd, hc⟩ | ⟨-, hc⟩
  · have hid : id ∈ ids := List.mem_eraseDups.mp (by simp [hd])
    refine ⟨id, hc, ?_⟩
    rw [hd, List.map_singleton, sideBySide_singleton, risk_eq_mostPermissive (hwf id hid) (h id hid)]
  · have hwf : ∀ id ∈ ids.eraseDups, Formula.WellFormed id := fun id hid => hwf id (List.mem_eraseDups.mp hid)
    have h : ∀ id ∈ ids.eraseDups, saysProprietary id = false := fun id hid => h id (List.mem_eraseDups.mp hid)
    obtain ⟨f, hf, halt⟩ := exists_framed_joined (eraseDups_ne_nil hne) hwf h
    refine ⟨_, hc, ?_⟩
    rw [← hf, ← halt, Framed.risk_text]
    rw [hf, saysProprietary_joined, List.any_eq_false]
    intro id hid
    rw [h id hid]
    decide

/-- If one of the expressions is rated not free, so are all combined. -/
theorem risk_combine_of_saysProprietary {ids : List Text} {id : Text} (hid : id ∈ ids)
    (h : saysProprietary id = true) : ∃ e, combine ids = some e ∧ risk e = proprietary := by
  have hd : id ∈ ids.eraseDups := List.mem_eraseDups.mpr hid
  rcases combine_cases (List.ne_nil_of_mem hid) with ⟨id', hd', hc⟩ | ⟨-, hc⟩
  · rw [hd', List.mem_singleton] at hd
    exact ⟨id', hc, risk_of_saysProprietary (hd ▸ h)⟩
  · refine ⟨_, hc, risk_of_saysProprietary ?_⟩
    rw [saysProprietary_joined, List.any_eq_true]
    exact ⟨id, hd, h⟩

/-! ## (3) The risk of a package -/

theorem mostRestrictive_eraseDups (ids : List Text) (f : Text → Risk) :
    mostRestrictive (ids.eraseDups.map f) = mostRestrictive (ids.map f) :=
  mostRestrictive_congr fun r => by simp only [List.mem_map, List.mem_eraseDups]

theorem map_mostPermissive_alternatives {ids : List Text} (hwf : ∀ id ∈ ids, Formula.WellFormed id)
    (h : ∀ id ∈ ids, saysProprietary id = false) :
    (ids.map alternatives).map mostPermissive = ids.map risk := by
  rw [List.map_map]
  exact List.map_congr_left fun id hid => (risk_eq_mostPermissive (hwf id hid) (h id hid)).symm

/-- An expression without OR is its own alternative. -/
theorem map_alternatives_eq {ids : List Text} (h : ∀ id ∈ ids, mentions orWord id = false) :
    ids.map alternatives = (ids.map risk).map fun r => [r] := by
  rw [List.map_map]
  refine List.map_congr_left fun id hid => ?_
  rw [alternatives, splitOn_eq_self (mentions_eq_false_iff.mp (h id hid))]
  rfl

/-- Several licenses are never rated more restrictive than the most restrictive of them.
    They are rated exactly so if one is not free, or if no alternative is better that is
    left when they are put side by side without grouping; so always if none is a choice. -/
theorem risk_combine {ids : List Text} (hne : ids ≠ []) (hwf : ∀ id ∈ ids, Formula.WellFormed id) :
    ∃ e, combine ids = some e ∧ risk e ≤ mostRestrictive (ids.map risk) ∧
      (risk e = mostRestrictive (ids.map risk) ↔
        (∃ id ∈ ids, saysProprietary id = true) ∨
          ∀ r ∈ sideBySide (ids.eraseDups.map alternatives), mostRestrictive (ids.map risk) ≤ r) ∧
      ((∀ id ∈ ids, mentions orWord id = false) → risk e = mostRestrictive (ids.map risk)) := by
  by_cases hsay : ∃ id ∈ ids, saysProprietary id = true
  · obtain ⟨id, hid, h⟩ := hsay
    obtain ⟨e, hc, he⟩ := risk_combine_of_saysProprietary hid h
    have hmax : mostRestrictive (ids.map risk) = proprietary := by
      refine le_antisymm (le_proprietary _) ?_
      rw [← risk_of_saysProprietary h]
      exact le_mostRestrictive (List.mem_map_of_mem hid)
    rw [hmax]
    exact ⟨e, hc, he.le, iff_of_true he (Or.inl ⟨id, hid, h⟩), fun _ => he⟩
  · have hfree : ∀ id ∈ ids, saysProprietary id = false := by
      intro id hid
      rw [← Bool.not_eq_true]
      intro h
      exact hsay ⟨id, hid, h⟩
    have hds : ids.eraseDups ≠ [] := eraseDups_ne_nil hne
    have halts : ids.eraseDups.map alternatives ≠ [] := by simp [hds]
    have hnil : ∀ rs ∈ ids.eraseDups.map alternatives, rs ≠ [] := by
      simp only [List.forall_mem_map]
      intro id _
      exact alternatives_ne_nil id
    obtain ⟨e, hc, he⟩ := risk_combine_eq hne hwf hfree
    have hle := mostPermissive_sideBySide_le halts hnil
    rw [map_mostPermissive_alternatives (fun id hid => hwf id (List.mem_eraseDups.mp hid))
      (fun id hid => hfree id (List.mem_eraseDups.mp hid)), mostRestrictive_eraseDups, ← he] at hle
    refine ⟨e, hc, hle, ?_, ?_⟩
    · rw [or_iff_right hsay, ← le_mostPermissive_iff (sideBySide_ne_nil halts hnil), ← he]
      constructor
      · intro heq
        exact heq.ge
      · intro hge
        exact le_antisymm hle hge
    · intro hnone
      rw [he, map_alternatives_eq fun id hid => hnone id (List.mem_eraseDups.mp hid),
        sideBySide_map_singleton (by simp [hds]), mostRestrictive_eraseDups]
      rfl

def gplThenChoice : List Text := [(Formula.id .gpl).print, (Formula.or (.id .mit) (.id .apache)).print]

theorem wellFormed_gplThenChoice : ∀ id ∈ gplThenChoice, Formula.WellFormed id :=
  List.forall_mem_cons.mpr ⟨Formula.wellFormed_print _, List.forall_mem_singleton.mpr (Formula.wellFormed_print _)⟩

theorem risk_combine_gplThenChoice : gplThenChoice ≠ [] ∧ (∀ id ∈ gplThenChoice, Formula.WellFormed id) ∧
    ∃ e, combine gplThenChoice = some e ∧ risk e ≤ mostRestrictive (gplThenChoice.map risk) := by
  have hne : gplThenChoice ≠ [] := by decide
  obtain ⟨e, hc, hle, -⟩ := risk_combine hne wellFormed_gplThenChoice
  exact ⟨hne, wellFormed_gplThenChoice, e, hc, hle⟩

/-- A package under a strong license and a choice is rated by the choice alone. -/
theorem choice_not_grouped : gplThenChoice = ["GPL-3.0".toList, "MIT OR Apache-2.0".toList] ∧
    license "SPDX-License-Identifier: GPL-3.0".toList = some "GPL-3.0".toList ∧
    license "SPDX-License-Identifier: MIT OR Apache-2.0".toList = some "MIT OR Apache-2.0".toList ∧
    combine gplThenChoice = some "GPL-3.0 AND (MIT OR Apache-2.0)".toList ∧
    risk "GPL-3.0 AND (MIT OR Apache-2.0)".toList = permissive ∧
    mostRestrictive (gplThenChoice.map risk) = strongCopyleft := by
  have hprint : Formula.gplAndChoice.print = "GPL-3.0 AND (MIT OR Apache-2.0)".toList := by decide
  refine ⟨by decide, rfl, rfl, by decide, ?_, ?_⟩
  · rw [← hprint, Formula.risk_print_eq (by decide)]
    decide
  · rw [gplThenChoice, List.map_cons, List.map_singleton, Formula.risk_print_eq (by decide),
      Formula.risk_print_eq (by decide)]
    decide

/-- With blanks inside the parentheses, which is outside the rule, a package is rated as more
    restrictive than both of its licenses. -/
theorem risk_combine_blanks : license "SPDX-License-Identifier: ( GPL-3.0 OR ( MIT ) )".toList =
      some "( GPL-3.0 OR ( MIT ) )".toList ∧
    license "SPDX-License-Identifier: ISC".toList = some "ISC".toList ∧
    combine ["( GPL-3.0 OR ( MIT ) )".toList, "ISC".toList] = some "(( GPL-3.0 OR ( MIT ) )) AND ISC".toList ∧
    risk "( GPL-3.0 OR ( MIT ) )".toList = permissive ∧ risk "ISC".toList = permissive ∧
    risk "(( GPL-3.0 OR ( MIT ) )) AND ISC".toList = strongCopyleft :=
  ⟨rfl, rfl, by decide, by decide +kernel, by decide +kernel, by decide +kernel⟩

end Attribution.Detection
