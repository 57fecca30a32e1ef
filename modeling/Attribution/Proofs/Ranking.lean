/-
  Attribution.Proofs.Ranking — which classes of risk stand in the summary.

  (1) A stable sort leaves elements that rank alike in their order
  (`pairwise_mergeSort_and`). The first k of a list in strict order are those that fewer
  than k come before (`mem_take_iff`).

  (2) A class beats another if it is met more often, or as often and has the smaller title
  (`Beats`). The classes met in bundled packages are ranked in this order
  (`pairwise_ranking`), each with its count (`rankedRisks_eq`).

  (3) The summary names those that fewer than two others beat, in this order
  (`topRisks_eq`). It depends on the counts alone (`topRisks_congr`), so neither on the
  order of the packages nor on those that are not bundled (`topRisks_ranked`).
-/
import Attribution.Terminal.Summary
import Mathlib.Data.Set.Card

namespace Attribution

open Text

/-! ## (1) Sorted lists -/

section Lists

variable {α : Type}

theorem pairwise_mergeSort_and {le : α → α → Bool} {R : α → α → Prop} {l : List α} (h : l.Pairwise R)
    (htrans : ∀ a b c, le a b = true → le b c = true → le a c = true) (htotal : ∀ a b, (le a b || le b a) = true) :
    (l.mergeSort le).Pairwise fun a b => le a b = true ∧ (le b a = true → R a b) := by
  induction l with
  | nil =>
    rw [List.mergeSort_nil]
    exact .nil
  | cons a l ih =>
    obtain ⟨hfirst, hrest⟩ := List.pairwise_cons.mp h
    obtain ⟨above, below, hsort, hparts, habove⟩ := List.mergeSort_cons htrans htotal a l
    have hsorted : (above ++ a :: below).Pairwise fun a b => le a b = true :=
      hsort ▸ List.pairwise_mergeSort htrans htotal (a :: l)
    obtain ⟨-, hright, hcross⟩ := List.pairwise_append.mp hsorted
    have hmem : ∀ b ∈ below, b ∈ l := by
      intro b hb
      have hsort : b ∈ l.mergeSort le := hparts ▸ List.mem_append_right _ hb
      exact List.mem_mergeSort.mp hsort
    rw [hparts] at ih
    obtain ⟨ihabove, ihbelow, ihcross⟩ := List.pairwise_append.mp (ih hrest)
    rw [hsort]
    refine List.pairwise_append.mpr ⟨ihabove, List.pairwise_cons.mpr ⟨fun b hb => ?_, ihbelow⟩, fun b hb c hc => ?_⟩
    · exact ⟨(List.pairwise_cons.mp hright).1 b hb, fun _ => hfirst b (hmem b hb)⟩
    · rcases List.mem_cons.mp hc with rfl | hc
      · refine ⟨hcross b hb c List.mem_cons_self, fun hle => ?_⟩
        have hnot := habove b hb
        rw [hle] at hnot
        cases hnot
      · exact ihcross b hb c hc

theorem mem_take_iff {R : α → α → Prop} [DecidableRel R] (hasymm : ∀ a b, R a b → ¬ R b a) {l : List α}
    (h : l.Pairwise R) {c : α} (k : Nat) : c ∈ l.take k ↔ c ∈ l ∧ (l.filter fun d => R d c).length < k := by
  induction l generalizing k with
  | nil => simp
  | cons a l ih =>
    obtain ⟨hfirst, hrest⟩ := List.pairwise_cons.mp h
    cases k with
    | zero => simp
    | succ k =>
      rw [List.take_succ_cons, List.mem_cons, List.mem_cons, ih hrest]
      by_cases hca : c = a
      · subst hca
        have hnone : (c :: l).filter (fun d => R d c) = [] := by
          rw [List.filter_eq_nil_iff]
          intro d hd
          rw [decide_eq_true_eq]
          rcases List.mem_cons.mp hd with rfl | hd
          · exact fun hself => hasymm d d hself hself
          · exact hasymm c d (hfirst d hd)
        simp [hnone]
      · by_cases hc : c ∈ l
        · rw [List.filter_cons_of_pos (by simpa using hfirst c hc)]
          simp [hca, hc]
        · simp [hca, hc]

end Lists

namespace Summary

variable {r r' : Report} {c d : Risk}

/-! ## (2) Which class beats which -/

def count (r : Report) (c : Risk) : Nat := r.bundled.countP fun p => p.risk = c

def Occurs (r : Report) (c : Risk) : Prop := ∃ p ∈ r.bundled, p.risk = c

/-- The first class is met more often, or as often and has the smaller title. -/
def Beats (r : Report) (c d : Risk) : Prop := count r d < count r c ∨ count r c = count r d ∧ c.title < d.title

instance (r : Report) : DecidableRel (Beats r) := fun _ _ => inferInstanceAs (Decidable (_ ∨ _))

theorem count_pos_iff : 0 < count r c ↔ Occurs r c := by simp [count, Occurs, List.countP_pos_iff]

theorem Beats.asymm (h : Beats r c d) : ¬ Beats r d c := by
  rintro (hless | ⟨heq, htitle⟩)
  · rcases h with h | ⟨h, -⟩ <;> omega
  · rcases h with h | ⟨-, h⟩
    · omega
    · exact List.lt_asymm h htitle

def ranking (r : Report) : List Risk := (rankedRisks r).map Prod.fst

theorem mem_rankedRisks_iff {x : Risk × Nat} : x ∈ rankedRisks r ↔ Occurs r x.1 ∧ x.2 = count r x.1 := by
  have hclass : x.1 ∈ classes := by cases x.1 <;> decide
  rw [← count_pos_iff, rankedRisks, List.mem_mergeSort, List.mem_filter, List.mem_map, decide_eq_true_eq]
  constructor
  · rintro ⟨⟨c, -, rfl⟩, hpos⟩
    exact ⟨hpos, rfl⟩
  · rintro ⟨hpos, hcount⟩
    exact ⟨⟨x.1, hclass, Prod.ext rfl hcount.symm⟩, hcount ▸ hpos⟩

theorem mem_ranking_iff : c ∈ ranking r ↔ Occurs r c := by
  rw [ranking, List.mem_map]
  constructor
  · rintro ⟨x, hx, rfl⟩
    exact (mem_rankedRisks_iff.mp hx).1
  · intro hc
    exact ⟨(c, count r c), mem_rankedRisks_iff.mpr ⟨hc, rfl⟩, rfl⟩

theorem rankedRisks_eq (r : Report) : rankedRisks r = (ranking r).map fun c => (c, count r c) := by
  rw [ranking, List.map_map]
  refine (List.map_id' _).symm.trans (List.map_congr_left fun x hx => ?_)
  exact Prod.ext rfl (mem_rankedRisks_iff.mp hx).2

theorem pairwise_ranking (r : Report) : (ranking r).Pairwise (Beats r) := by
  have htitles : classes.Pairwise fun c d => c.title < d.title := by decide
  have hcounted : (classes.map fun c => (c, count r c)).Pairwise fun x y => x.1.title < y.1.title :=
    List.Pairwise.map _ (fun _ _ h => h) htitles
  have hsorted : (rankedRisks r).Pairwise fun x y =>
      decide (y.2 ≤ x.2) = true ∧ (decide (x.2 ≤ y.2) = true → x.1.title < y.1.title) := by
    refine pairwise_mergeSort_and (hcounted.filter _) (fun x y z hxy hyz => ?_) fun x y => ?_
    · simp only [decide_eq_true_eq] at hxy hyz ⊢
      omega
    · simp only [Bool.or_eq_true, decide_eq_true_eq]
      omega
  refine List.pairwise_map.mpr (List.Pairwise.imp_of_mem (fun {x y} hx hy hxy => ?_) hsorted)
  have hxcount : x.2 = count r x.1 := (mem_rankedRisks_iff.mp hx).2
  have hycount : y.2 = count r y.1 := (mem_rankedRisks_iff.mp hy).2
  simp only [decide_eq_true_eq, hxcount, hycount] at hxy
  rcases Nat.lt_or_eq_of_le hxy.1 with hless | heq
  · exact .inl hless
  · exact .inr ⟨heq.symm, hxy.2 (Nat.le_of_eq heq.symm)⟩

theorem nodup_ranking (r : Report) : (ranking r).Nodup :=
  (pairwise_ranking r).imp fun hcd heq => (heq ▸ hcd).asymm (heq ▸ hcd)

theorem length_filter_ranking (r : Report) (c : Risk) :
    ((ranking r).filter fun d => Beats r d c).length = {d | Occurs r d ∧ Beats r d c}.ncard := by
  rw [← List.toFinset_card_of_nodup ((nodup_ranking r).filter _), ← Set.ncard_coe_finset]
  congr 1
  ext d
  simp [mem_ranking_iff]

/-! ## (3) The summary -/

def counted (r : Report) (c : Risk) : Text := c.title ++ " (".toList ++ ofNat (count r c) ++ ")".toList

def bracketed : List Text → Text
  | [] => []
  | items => '[' :: List.intercalate ", ".toList items ++ [']']

theorem bracketed_eq_nil_iff {items : List Text} : bracketed items = [] ↔ items = [] := by
  cases items <;> simp [bracketed]

theorem topRisks_eq (r : Report) : topRisks r = bracketed (((ranking r).take 2).map (counted r)) := by
  rw [topRisks, rankedRisks_eq, ← List.map_take]
  cases (ranking r).take 2 with
  | nil => rfl
  | cons c rest =>
    simp only [List.map_cons, List.map_map, bracketed]
    rfl

theorem topRisks_eq_nil_iff : topRisks r = [] ↔ r.bundled = [] := by
  rw [topRisks_eq, bracketed_eq_nil_iff, List.map_eq_nil_iff, List.take_eq_nil_iff]
  simp only [OfNat.ofNat_ne_zero, false_or, List.eq_nil_iff_forall_not_mem, mem_ranking_iff, Occurs]
  constructor
  · intro hnone p hp
    exact hnone p.risk ⟨p, hp, rfl⟩
  · rintro hnone c ⟨p, hp, -⟩
    exact hnone p hp

/-- The summary reads nothing but the counts. -/
theorem topRisks_congr (h : ∀ c, count r' c = count r c) : topRisks r' = topRisks r := by
  have hranked : rankedRisks r' = rankedRisks r := by
    have hcounts : (fun c => (c, count r' c)) = fun c => (c, count r c) := funext fun c => by rw [h c]
    show ((classes.map fun c => (c, count r' c)).filter _).mergeSort _ = _
    rw [hcounts]
    rfl
  rw [topRisks, hranked, topRisks]

theorem topRisks_of_perm (h : r'.bundled.Perm r.bundled) : topRisks r' = topRisks r :=
  topRisks_congr fun _ => h.countP_eq _

/-- The summary lists, among the classes met in bundled packages, those that fewer than two others
    beat, in the order of beating and with their counts; it is empty iff no package is bundled.
    Neither the order of the packages nor a package without copyright files changes it. -/
theorem topRisks_ranked (r : Report) :
    (∃ top : List Risk, (∀ c, c ∈ top ↔ Occurs r c ∧ {d | Occurs r d ∧ Beats r d c}.ncard < 2) ∧
      top.Pairwise (Beats r) ∧ topRisks r = bracketed (top.map (counted r))) ∧
    (topRisks r = [] ↔ r.bundled = []) ∧
    (∀ ps, ps.Perm r.packages → topRisks { r with packages := ps } = topRisks r) ∧
    ∀ before behind extra, r.packages = before ++ behind → (∀ p ∈ extra, p.isBundled = false) →
      topRisks { r with packages := before ++ extra ++ behind } = topRisks r := by
  refine ⟨⟨(ranking r).take 2, fun c => ?_, (pairwise_ranking r).take, topRisks_eq r⟩, topRisks_eq_nil_iff,
    fun ps hps => topRisks_of_perm (hps.filter _), ?_⟩
  · rw [mem_take_iff (fun _ _ => Beats.asymm) (pairwise_ranking r), mem_ranking_iff, length_filter_ranking]
  · intro before behind extra hparts hextra
    have hnone : extra.filter Package.isBundled = [] := by simpa using hextra
    refine topRisks_of_perm (List.Perm.of_eq ?_)
    simp only [Report.bundled, hparts, List.filter_append, hnone, List.append_nil]

def rated (name : Text) (c : Risk) : Package := ⟨name, encode name, [encode name ++ Path.ofString "/copyright"], none, c⟩

def bare : Package := ⟨"tool".toList, Path.ofString "tool", [], none, .proprietary⟩

def tied : Report :=
  { output := Path.ofString "ALL_LICENSES.txt"
    projectLabel := "AFV Native".toList
    sublicenses := []
    packages := [rated "gtk".toList .weakCopyleft, rated "own".toList .unknown, rated "zlib".toList .permissive] }

/-- The titles decide, and a package that is not bundled does not count. -/
theorem topRisks_ranked_tied : bare.isBundled = false ∧
    topRisks { tied with packages := [] ++ [bare] ++ tied.packages } = topRisks tied ∧
    topRisks tied = "[Permissive (1), Unknown (1)]".toList := by
  have hextra : ∀ p ∈ [bare], p.isBundled = false := by decide
  have hranked : rankedRisks tied = [(.permissive, 1), (.unknown, 1), (.weakCopyleft, 1)] := by
    rw [rankedRisks, List.mergeSort_of_pairwise (by decide)]
    decide
  refine ⟨rfl, (topRisks_ranked tied).2.2.2 [] tied.packages [bare] rfl hextra, ?_⟩
  rw [topRisks, hranked]
  decide

end Summary

end Attribution
