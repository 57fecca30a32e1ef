/-
  Attribution.Proofs.Joining — identifiers joined by one operator.

  (1) Identifiers with OR between all of them, or with AND, are a printed formula without
  parentheses (`print_row`), so that nothing in it can be misread: with OR each identifier is
  an alternative, with AND there is one, the most restrictive (`alternatives_row`).

  (2) AND is rated by the most restrictive identifier. OR is rated by the most permissive
  one only as long as no identifier says that its license is not free: that is looked for in
  the whole text before it is cut, so that one such identifier outweighs any other choice
  (`risk_joined`).
-/
import Attribution.Proofs.Grouping

namespace Attribution.Expression

open Text Risk

/-! ## (1) Rows -/

def Joint.apply : Joint → Formula → Formula → Formula
  | or => .or
  | and => .and

/-- The alternatives of risks that hold side by side, or of which one holds. -/
def Joint.outcomes : Joint → List Risk → List Risk
  | or, rs => rs
  | and, rs => [mostRestrictive rs]

def joined (j : Joint) (ids : List Identifier) : Text := List.intercalate j.word (ids.map Identifier.text)

namespace Formula

def row (j : Joint) (i : Identifier) : List Identifier → Formula
  | [] => .id i
  | k :: ks => j.apply (.id i) (row j k ks)

theorem isChoice_row_and (i : Identifier) (ks : List Identifier) : (row .and i ks).isChoice = false := by
  cases ks <;> rfl

theorem print_row (j : Joint) (i : Identifier) (ks : List Identifier) : (row j i ks).print = joined j (i :: ks) := by
  induction ks generalizing i with
  | nil => rw [row, print, joined, List.map_singleton, List.intercalate_singleton]
  | cons k ks ih =>
    have hjoined : joined j (i :: k :: ks) = i.text ++ j.word ++ joined j (k :: ks) := by
      simp only [joined, List.map_cons, List.intercalate_cons_cons]
    rw [hjoined, ← ih, row]
    cases j with
    | or => rfl
    | and =>
      rw [Joint.apply, print, isChoice_row_and]
      rfl

theorem free_row {j : Joint} {i : Identifier} {ks : List Identifier} :
    (row j i ks).Free ↔ ∀ k ∈ i :: ks, saysProprietary k.text = false := by
  induction ks generalizing i with
  | nil =>
    rw [List.forall_mem_singleton]
    exact Iff.rfl
  | cons k ks ih =>
    rw [List.forall_mem_cons, ← ih, row]
    cases j <;> exact Iff.rfl

theorem alternatives_row (j : Joint) (i : Identifier) (ks : List Identifier) :
    (row j i ks).alternatives = j.outcomes ((i :: ks).map fun k => riskOfId k.text) := by
  induction ks generalizing i with
  | nil => cases j <;> rfl
  | cons k ks ih =>
    rw [row, List.map_cons]
    cases j with
    | or =>
      rw [Joint.apply, alternatives, ih]
      rfl
    | and =>
      rw [Joint.apply, alternatives, ih, Joint.outcomes, Joint.outcomes, mostRestrictive_cons _ (by simp)]
      rfl

end Formula

/-! ## (2) The rating -/

theorem riskOfId_ne_proprietary (t : Text) : riskOfId t ≠ proprietary := by
  simp only [riskOfId]
  split_ifs <;> decide

theorem Identifier.risk_eq {i : Identifier} (h : saysProprietary i.text = false) : risk i.text = riskOfId i.text :=
  Formula.risk_print_eq (e := .id i) h

theorem Identifier.risk_eq_proprietary_iff {i : Identifier} :
    risk i.text = proprietary ↔ saysProprietary i.text = true := by
  constructor
  · intro hrisk
    by_contra h
    rw [Identifier.risk_eq (Bool.eq_false_iff.mpr h)] at hrisk
    exact riskOfId_ne_proprietary _ hrisk
  · exact risk_of_saysProprietary

def risksOf (ids : List Identifier) : List Risk := ids.map fun i => risk i.text

theorem risksOf_eq {ids : List Identifier} (h : ∀ i ∈ ids, saysProprietary i.text = false) :
    risksOf ids = ids.map fun i => riskOfId i.text :=
  List.map_congr_left fun i hi => Identifier.risk_eq (h i hi)

theorem saysProprietary_joined_eq_false {j : Joint} {ids : List Identifier} (hne : ids ≠ []) :
    saysProprietary (joined j ids) = false ↔ ∀ i ∈ ids, saysProprietary i.text = false := by
  obtain ⟨i, ks, rfl⟩ := List.exists_cons_of_ne_nil hne
  rw [← Formula.print_row, Formula.saysProprietary_print, Formula.free_row]

/-- Without an identifier that says so, what is joined is rated by its alternatives. -/
theorem risk_joined_eq {j : Joint} {ids : List Identifier} (hne : ids ≠ [])
    (h : ∀ i ∈ ids, saysProprietary i.text = false) :
    risk (joined j ids) = mostPermissive (j.outcomes (risksOf ids)) := by
  obtain ⟨i, ks, rfl⟩ := List.exists_cons_of_ne_nil hne
  rw [← Formula.print_row, Formula.risk_print_eq (Formula.free_row.mpr h), Formula.alternatives_row, risksOf_eq h]

/-- An identifier that says so decides about all. -/
theorem risk_joined_of_mem {j : Joint} {ids : List Identifier} {i : Identifier} (hi : i ∈ ids)
    (h : saysProprietary i.text = true) : risk (joined j ids) = proprietary := by
  refine risk_of_saysProprietary ?_
  by_contra hnot
  rw [Bool.not_eq_true, saysProprietary_joined_eq_false (List.ne_nil_of_mem hi)] at hnot
  rw [hnot i hi] at h
  cases h

/-- The best of several is not free only if none is. -/
theorem mostPermissive_eq_proprietary_iff {rs : List Risk} (hne : rs ≠ []) :
    mostPermissive rs = proprietary ↔ ∀ r ∈ rs, r = proprietary := by
  constructor
  · intro h r hr
    exact le_antisymm (le_proprietary r) (h ▸ mostPermissive_le hr)
  · intro h
    exact h _ (mostPermissive_mem hne)

theorem mem_risksOf_iff {ids : List Identifier} {r : Risk} : r ∈ risksOf ids ↔ ∃ i ∈ ids, risk i.text = r :=
  List.mem_map

/-- Identifiers joined by AND are rated by the most restrictive of them. Joined by OR, they are
    rated by the most permissive of them unless one says that its license is not free, which
    outweighs the others. So OR is rated by the most permissive iff none says so, or all do. -/
theorem risk_joined {ids : List Identifier} (hne : ids ≠ []) :
    risk (joined .and ids) = mostRestrictive (risksOf ids) ∧
    risk (joined .or ids) =
      (if ∃ i ∈ ids, saysProprietary i.text = true then proprietary else mostPermissive (risksOf ids)) ∧
    (risk (joined .or ids) = mostPermissive (risksOf ids) ↔
      (∀ i ∈ ids, saysProprietary i.text = false) ∨ ∀ i ∈ ids, saysProprietary i.text = true) := by
  have hrisks : risksOf ids ≠ [] := by simpa [risksOf] using hne
  by_cases hsay : ∃ i ∈ ids, saysProprietary i.text = true
  · obtain ⟨i, hi, h⟩ := hsay
    have hsome : ¬ ∀ k ∈ ids, saysProprietary k.text = false := by
      intro hnone
      rw [hnone i hi] at h
      cases h
    have hmem : proprietary ∈ risksOf ids := mem_risksOf_iff.mpr ⟨i, hi, risk_of_saysProprietary h⟩
    rw [risk_joined_of_mem hi h, risk_joined_of_mem hi h, if_pos ⟨i, hi, h⟩, or_iff_right hsome]
    refine ⟨?_, rfl, ?_⟩
    · exact ((mostRestrictive_eq_iff hrisks).mpr ⟨hmem, fun r _ => le_proprietary r⟩).symm
    · rw [eq_comm, mostPermissive_eq_proprietary_iff hrisks]
      simp only [risksOf, List.forall_mem_map, Identifier.risk_eq_proprietary_iff]
  · have hnone : ∀ i ∈ ids, saysProprietary i.text = false := by
      intro i hi
      exact Bool.eq_false_iff.mpr fun h => hsay ⟨i, hi, h⟩
    rw [risk_joined_eq hne hnone, risk_joined_eq hne hnone, if_neg hsay]
    exact ⟨rfl, rfl, iff_of_true rfl (.inl hnone)⟩

def mitOrCommercial : List Identifier :=
  [.mit, ⟨"LicenseRef-Commercial".toList, by decide, List.all_eq_true.mp (by decide), by decide⟩]

theorem risk_joined_mitOrCommercial : mitOrCommercial ≠ [] ∧
    risk (joined .and mitOrCommercial) = mostRestrictive (risksOf mitOrCommercial) ∧
    risk (joined .or mitOrCommercial) ≠ mostPermissive (risksOf mitOrCommercial) := by
  have hne : mitOrCommercial ≠ [] := by decide
  obtain ⟨hand, -, hor⟩ := risk_joined hne
  exact ⟨hne, hand, mt hor.mp (by decide)⟩

/-- The free license does not win the choice. -/
theorem choice_outweighed : joined .or mitOrCommercial = "MIT OR LicenseRef-Commercial".toList ∧
    risk "MIT OR LicenseRef-Commercial".toList = proprietary ∧
    mostPermissive (risksOf mitOrCommercial) = permissive := by
  refine ⟨by decide, risk_of_saysProprietary (by decide), ?_⟩
  rw [risksOf, mitOrCommercial, List.map_cons, List.map_singleton, Identifier.risk_eq (by decide),
    risk_of_saysProprietary (by decide)]
  decide

end Attribution.Expression
