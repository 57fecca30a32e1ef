/-
  Attribution.Proofs.Restrictiveness — the order of the risk classes.

  (1) The classes are a chain. The most restrictive of several is their maximum
  (`mostRestrictive_eq_iff`), the most permissive their minimum
  (`mostPermissive_eq_iff`); so only which classes there are counts.

  (2) `beside` puts two lists of alternatives next to each other without grouping them:
  the last of the one and the first of the other become one alternative. The choice
  that is left is never more restrictive than both choices together
  (`mostPermissive_beside_le`).
-/
import Attribution.Risk
import Mathlib.Order.MinMax

namespace Attribution.Risk

/-! ## (1) A chain -/

instance : LinearOrder Risk where
  le_refl a := Nat.le_refl a.rank
  le_trans _ _ _ := Nat.le_trans
  le_antisymm _ _ hab hba := rank_injective (Nat.le_antisymm hab hba)
  le_total a b := Nat.le_total a.rank b.rank
  toDecidableLE := inferInstance
  min_def _ _ := rfl
  max_def _ _ := rfl

theorem le_proprietary (r : Risk) : r ≤ proprietary := by cases r <;> decide

theorem max?_eq_mostRestrictive {rs : List Risk} (h : rs ≠ []) : rs.max? = some (mostRestrictive rs) := by
  cases rs with
  | nil => exact absurd rfl h
  | cons r rs => rfl

theorem min?_eq_mostPermissive {rs : List Risk} (h : rs ≠ []) : rs.min? = some (mostPermissive rs) := by
  cases rs with
  | nil => exact absurd rfl h
  | cons r rs => rfl

theorem mostRestrictive_eq_iff {rs : List Risk} (h : rs ≠ []) {m : Risk} :
    mostRestrictive rs = m ↔ m ∈ rs ∧ ∀ r ∈ rs, r ≤ m := by
  rw [← List.max?_eq_some_iff, max?_eq_mostRestrictive h, Option.some.injEq]

theorem mostPermissive_eq_iff {rs : List Risk} (h : rs ≠ []) {m : Risk} :
    mostPermissive rs = m ↔ m ∈ rs ∧ ∀ r ∈ rs, m ≤ r := by
  rw [← List.min?_eq_some_iff, min?_eq_mostPermissive h, Option.some.injEq]

theorem mostRestrictive_mem {rs : List Risk} (h : rs ≠ []) : mostRestrictive rs ∈ rs :=
  ((mostRestrictive_eq_iff h).mp rfl).1

theorem le_mostRestrictive {rs : List Risk} {r : Risk} (h : r ∈ rs) : r ≤ mostRestrictive rs :=
  ((mostRestrictive_eq_iff (List.ne_nil_of_mem h)).mp rfl).2 r h

theorem mostPermissive_mem {rs : List Risk} (h : rs ≠ []) : mostPermissive rs ∈ rs :=
  ((mostPermissive_eq_iff h).mp rfl).1

theorem mostPermissive_le {rs : List Risk} {r : Risk} (h : r ∈ rs) : mostPermissive rs ≤ r :=
  ((mostPermissive_eq_iff (List.ne_nil_of_mem h)).mp rfl).2 r h

theorem le_mostPermissive_iff {rs : List Risk} (h : rs ≠ []) {m : Risk} :
    m ≤ mostPermissive rs ↔ ∀ r ∈ rs, m ≤ r := by
  constructor
  · intro hm r hr
    exact le_trans hm (mostPermissive_le hr)
  · intro hm
    exact hm _ (mostPermissive_mem h)

/-- Only which classes there are counts. -/
theorem mostRestrictive_congr {rs ss : List Risk} (h : ∀ r, r ∈ rs ↔ r ∈ ss) :
    mostRestrictive rs = mostRestrictive ss := by
  cases rs with
  | nil =>
    have : ss = [] := List.eq_nil_iff_forall_not_mem.mpr fun r hr => by simpa using (h r).mpr hr
    rw [this]
  | cons r rs =>
    have hs : ss ≠ [] := List.ne_nil_of_mem ((h r).mp List.mem_cons_self)
    rw [mostRestrictive_eq_iff (by simp)]
    exact ⟨(h _).mpr (mostRestrictive_mem hs), fun s hr => le_mostRestrictive ((h s).mp hr)⟩

theorem mostRestrictive_cons (r : Risk) {rs : List Risk} (h : rs ≠ []) :
    mostRestrictive (r :: rs) = max r (mostRestrictive rs) := by
  rw [mostRestrictive_eq_iff (by simp)]
  constructor
  · rcases max_choice r (mostRestrictive rs) with e | e
    · rw [e]; exact List.mem_cons_self
    · rw [e]; exact List.mem_cons_of_mem r (mostRestrictive_mem h)
  · intro s hs
    rcases List.mem_cons.mp hs with rfl | hs
    · exact le_max_left _ _
    · exact le_max_of_le_right (le_mostRestrictive hs)

theorem mostPermissive_append {rs ss : List Risk} (hr : rs ≠ []) (hs : ss ≠ []) :
    mostPermissive (rs ++ ss) = min (mostPermissive rs) (mostPermissive ss) := by
  rw [mostPermissive_eq_iff (by simp [hr])]
  constructor
  · rcases min_choice (mostPermissive rs) (mostPermissive ss) with e | e
    · rw [e]; exact List.mem_append_left ss (mostPermissive_mem hr)
    · rw [e]; exact List.mem_append_right rs (mostPermissive_mem hs)
  · intro r hm
    rcases List.mem_append.mp hm with hm | hm
    · exact min_le_of_left_le (mostPermissive_le hm)
    · exact min_le_of_right_le (mostPermissive_le hm)

theorem mostPermissive_cons (r : Risk) {rs : List Risk} (h : rs ≠ []) :
    mostPermissive (r :: rs) = min r (mostPermissive rs) :=
  mostPermissive_append (List.cons_ne_nil r []) h

/-! ## (2) Alternatives side by side -/

/-- The alternatives that are left when two lists of them are put side by side: the
    last of the first list and the first of the second hold together. -/
def beside : List Risk → List Risk → List Risk
  | [], ss => ss
  | [r], [] => [r]
  | [r], s :: ss => max r s :: ss
  | r :: r' :: rs, ss => r :: beside (r' :: rs) ss

theorem beside_ne_nil {rs : List Risk} (ss : List Risk) (h : rs ≠ []) : beside rs ss ≠ [] := by
  fun_cases beside rs ss <;> simp_all

theorem beside_nil (rs : List Risk) : beside rs [] = rs := by
  match rs with
  | [] => rfl
  | [r] => rfl
  | r :: r' :: rs => rw [beside, beside_nil]

/-- Alternatives in front of the last stay as they are. -/
theorem beside_append (qs : List Risk) {rs : List Risk} (ss : List Risk) (h : rs ≠ []) :
    beside (qs ++ rs) ss = qs ++ beside rs ss := by
  induction qs with
  | nil => rfl
  | cons q qs ih =>
    obtain ⟨r, rest, hr⟩ := List.exists_cons_of_ne_nil (show qs ++ rs ≠ [] by simp [h])
    rw [List.cons_append, hr, beside, ← hr, ih]
    rfl

theorem beside_assoc {rs ss ts : List Risk} (hs : ss ≠ []) :
    beside (beside rs ss) ts = beside rs (beside ss ts) := by
  match rs, ss, ts with
  | [], _, _ => rfl
  | [r], [s], [] => rfl
  | [r], [s], t :: ts => simp [beside, max_assoc]
  | [r], s :: s' :: ss, ts => simp [beside]
  | r :: r' :: rs, ss, ts =>
    have ih : beside (beside (r' :: rs) ss) ts = beside (r' :: rs) (beside ss ts) := beside_assoc hs
    obtain ⟨q, rest, hq⟩ := List.exists_cons_of_ne_nil (beside_ne_nil ss (List.cons_ne_nil r' rs))
    rw [beside, hq, beside, ← hq, ih, beside]

theorem beside_append_right {rs ss : List Risk} (ts : List Risk) (hs : ss ≠ []) :
    beside rs (ss ++ ts) = beside rs ss ++ ts := by
  match rs, ss, hs with
  | [], _, _ => rfl
  | [r], s :: ss, _ => rfl
  | r :: r' :: rs, ss, hs =>
    have ih : beside (r' :: rs) (ss ++ ts) = beside (r' :: rs) ss ++ ts := beside_append_right ts hs
    rw [beside, ih, beside]
    rfl

theorem forall_mem_beside {P : Risk → Prop} (hmax : ∀ r s, P r → P s → P (max r s)) {rs ss : List Risk}
    (hr : ∀ r ∈ rs, P r) (hs : ∀ s ∈ ss, P s) : ∀ r ∈ beside rs ss, P r := by
  match rs, ss with
  | [], ss => exact hs
  | [r], [] => exact hr
  | [r], s :: ss =>
    obtain ⟨hs, hss⟩ := List.forall_mem_cons.mp hs
    exact List.forall_mem_cons.mpr ⟨hmax r s (hr r List.mem_cons_self) hs, hss⟩
  | r :: r' :: rs, ss =>
    obtain ⟨hr, hrs⟩ := List.forall_mem_cons.mp hr
    exact List.forall_mem_cons.mpr ⟨hr, forall_mem_beside hmax hrs hs⟩

/-- An alternative of the one side is left if it is no better than those of the other. -/
theorem mem_beside {rs ss : List Risk} {r : Risk} (hr : r ∈ rs) (h : ∀ s ∈ ss, s ≤ r) : r ∈ beside rs ss := by
  match rs, ss with
  | [q], [] => exact hr
  | [q], s :: ss =>
    obtain rfl := List.mem_singleton.mp hr
    rw [beside, max_eq_left (h s List.mem_cons_self)]
    exact List.mem_cons_self
  | q :: q' :: rs, ss =>
    rw [beside]
    rcases List.mem_cons.mp hr with rfl | hr
    · exact List.mem_cons_self
    · exact List.mem_cons_of_mem q (mem_beside hr h)

theorem mem_beside_right {rs ss : List Risk} {r : Risk} (hr : r ∈ ss) (h : ∀ s ∈ rs, s ≤ r) :
    r ∈ beside rs ss := by
  match rs, ss with
  | [], ss => exact hr
  | [q], s :: ss =>
    rw [beside]
    rcases List.mem_cons.mp hr with rfl | hr
    · rw [max_eq_right (h q List.mem_cons_self)]
      exact List.mem_cons_self
    · exact List.mem_cons_of_mem _ hr
  | q :: q' :: rs, ss =>
    rw [beside]
    exact List.mem_cons_of_mem q (mem_beside_right hr fun s hs => h s (List.mem_cons_of_mem q hs))

/-- Without grouping, a choice is never more restrictive than both choices together. -/
theorem mostPermissive_beside_le {rs ss : List Risk} (hr : rs ≠ []) (hs : ss ≠ []) :
    mostPermissive (beside rs ss) ≤ max (mostPermissive rs) (mostPermissive ss) := by
  match rs, ss, hs with
  | [r], [s], _ => exact le_refl _
  | [r], s :: s' :: ss, _ =>
    rw [beside, mostPermissive_cons _ (by simp), mostPermissive_cons s (by simp)]
    rcases le_total s (mostPermissive (s' :: ss)) with h | h
    · rw [min_eq_left h]; exact min_le_left _ _
    · rw [min_eq_right h]; exact le_max_of_le_right (min_le_right _ _)
  | r :: r' :: rs, ss, hs =>
    have ih := mostPermissive_beside_le (List.cons_ne_nil r' rs) hs
    rw [beside, mostPermissive_cons r (beside_ne_nil ss (by simp)), mostPermissive_cons r (by simp)]
    rcases le_total r (mostPermissive (r' :: rs)) with h | h
    · rw [min_eq_left h]; exact le_max_of_le_left (min_le_left _ _)
    · rw [min_eq_right h]; exact le_trans (min_le_right _ _) ih

end Attribution.Risk
