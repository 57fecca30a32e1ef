/-
  Attribution.Proofs.Levels — the rating of a text in three levels.

  (1) The pieces of a text are parts of it, and the separator stands in none of them
  (`infix_of_mem_splitOn`, `not_infix_of_mem_splitOn`). What is stripped off leaves a part as
  well (`strip_infix_self`). So what a text does not mention, no stripped piece of it does
  (`mentions_strip_piece`).

  (2) The rating of a text calls itself on its pieces (`calls`) and sees nothing else of
  what the calls answer (`rateBy_congr`). If no call within it is made beyond a depth, what
  would be answered there does not matter (`iterate_rateBy`).

  (3) The three levels, each stripped once more: what stands between the ORs of a text, what
  stands between the ANDs of that, and an identifier with or without an exception
  (`byLevels`). Below an OR no OR is left, and below an AND neither of both, so this is the
  rating of every text, and it is never more than three calls deep (`risk_levels`).
-/
import Attribution.Proofs.Rating
import Mathlib.Data.List.DropRight
import Mathlib.Logic.Function.Iterate

namespace Attribution

namespace Text

/-! ## (1) Pieces -/

theorem prefix_intercalate (sep p : Text) (ps : List Text) : p <+: List.intercalate sep (p :: ps) := by
  cases ps with
  | nil => exact ⟨[], by simp⟩
  | cons q ps => exact ⟨sep ++ List.intercalate sep (q :: ps), by simp [List.intercalate_cons_cons]⟩

theorem infix_intercalate (sep : Text) {p : Text} {ps : List Text} (h : p ∈ ps) : p <:+: List.intercalate sep ps := by
  induction ps with
  | nil => cases h
  | cons q ps ih =>
    rcases List.mem_cons.mp h with rfl | h
    · exact (prefix_intercalate sep p ps).isInfix
    · obtain ⟨r, rest, hps⟩ := List.exists_cons_of_ne_nil (List.ne_nil_of_mem h)
      rw [hps] at ih h ⊢
      rw [List.intercalate_cons_cons]
      exact (ih h).trans (List.suffix_append _ _).isInfix

/-- A piece is a part of the text. -/
theorem infix_of_mem_splitOn {sep s p : Text} (hsep : sep ≠ []) (h : p ∈ splitOn sep s) : p <:+: s := by
  have hin := infix_intercalate sep h
  rwa [intercalate_splitOn hsep] at hin

theorem not_infix_of_mem_splitFrom {sep s : Text} {skip : Nat} (hsep : sep ≠ []) :
    ∀ p ∈ splitFrom sep skip s, ¬ sep <:+: p := by
  have hnil : ¬ sep <:+: [] := fun h => hsep (List.infix_nil.mp h)
  fun_induction splitFrom sep skip s with
  | case1 skip => exact List.forall_mem_singleton.mpr hnil
  | case2 skip c s ih => exact ih
  | case3 c s hpre ih => exact List.forall_mem_cons.mpr ⟨hnil, ih⟩
  | case4 c s hpre ih =>
    obtain ⟨q, qs, hq⟩ := List.exists_cons_of_ne_nil (splitFrom_ne_nil sep 0 s)
    have hstart : q <+: s := by
      have hfirst := prefix_intercalate sep q qs
      rwa [← hq, intercalate_splitFrom hsep, List.drop_zero] at hfirst
    rw [hq, consHead]
    obtain ⟨hhead, htail⟩ := List.forall_mem_cons.mp (hq ▸ ih)
    refine List.forall_mem_cons.mpr ⟨?_, htail⟩
    -- A separator at the start of the first piece would stand at the start of the text.
    rw [List.infix_cons_iff, not_or]
    refine ⟨fun hp => hpre ?_, hhead⟩
    exact List.isPrefixOf_iff_prefix.mpr (hp.trans ((List.prefix_cons_inj c).mpr hstart))

/-- The separator stands in no piece. -/
theorem not_infix_of_mem_splitOn {sep s p : Text} (hsep : sep ≠ []) (h : p ∈ splitOn sep s) : ¬ sep <:+: p :=
  not_infix_of_mem_splitFrom hsep p h

theorem trim_infix_self (s : Text) : trim s <:+: s := by
  have hend : trim s <+: trimStart s := List.rdropWhile_prefix isBlank _
  exact hend.isInfix.trans (List.dropWhile_suffix isBlank).isInfix

end Text

namespace Expression

open Text

theorem strip_infix_self (s : Text) : strip s <:+: s := by
  have hopen : (trim s).dropWhile (· == '(') <:+: s := (List.dropWhile_suffix _).isInfix.trans (trim_infix_self s)
  have hclose : dropEndWhile (· == ')') ((trim s).dropWhile (· == '(')) <+: (trim s).dropWhile (· == '(') :=
    List.rdropWhile_prefix _ _
  exact (trim_infix_self _).trans (hclose.isInfix.trans hopen)

section Piece

variable {sep t p : Text} (hsep : sep ≠ []) (hp : p ∈ splitOn sep t)

include hsep hp

theorem strip_piece_infix_text : strip p <:+: t := (strip_infix_self p).trans (infix_of_mem_splitOn hsep hp)

/-- What a text does not mention, no stripped piece of it does. -/
theorem mentions_strip_piece {w : Text} (h : mentions w t = false) : mentions w (strip p) = false := by
  rw [mentions_eq_false_iff] at h ⊢
  exact fun hin => h (hin.trans (strip_piece_infix_text hsep hp))

theorem mentions_sep_strip_piece : mentions sep (strip p) = false := by
  rw [mentions_eq_false_iff]
  exact fun hin => not_infix_of_mem_splitOn hsep hp (hin.trans (strip_infix_self p))

theorem saysProprietary_strip_piece (h : saysProprietary t = false) : saysProprietary (strip p) = false :=
  not_saysProprietary_part (strip_piece_infix_text hsep hp) h

end Piece

/-! ## (2) Calls -/

/-- The texts for which the rating of a text calls itself. -/
def calls (s : Text) : List Text :=
  let t := strip s
  if isUnknown t then []
  else if saysProprietary t then []
  else if mentions orWord t then splitOn orWord t
  else if mentions andWord t then splitOn andWord t
  else []

/-- The rating of a text with the calls answered by `rate`. -/
def rateBy (rate : Text → Risk) (s : Text) : Risk :=
  let t := strip s
  if isUnknown t then .unknown
  else if saysProprietary t then .proprietary
  else if mentions orWord t then .mostPermissive ((splitOn orWord t).map rate)
  else if mentions andWord t then .mostRestrictive ((splitOn andWord t).map rate)
  else riskOfId (baseId t)

/-- The calls of a rating are nested no deeper than n, itself included. -/
inductive Within : Nat → Text → Prop
  | call {n : Nat} {s : Text} (h : ∀ p ∈ calls s, Within n p) : Within (n + 1) s

theorem rateBy_risk (s : Text) : rateBy risk s = risk s := (risk_eq s).symm

/-- Which texts the rating calls itself for, and what it makes of the answers. -/
theorem rateBy_cases (s : Text) :
    (calls s = [] ∧ ∀ f g, rateBy f s = rateBy g s) ∨
    (mentions orWord (strip s) = true ∧ calls s = splitOn orWord (strip s) ∧
      ∀ f, rateBy f s = .mostPermissive ((calls s).map f)) ∨
    (mentions orWord (strip s) = false ∧ calls s = splitOn andWord (strip s) ∧
      ∀ f, rateBy f s = .mostRestrictive ((calls s).map f)) := by
  simp only [calls, rateBy]
  by_cases hu : isUnknown (strip s) = true
  · exact .inl (by simp [hu])
  by_cases hsay : saysProprietary (strip s) = true
  · exact .inl (by simp [hu, hsay])
  by_cases hor : mentions orWord (strip s) = true
  · exact .inr (.inl (by simp [hu, hsay, hor]))
  by_cases hand : mentions andWord (strip s) = true
  · exact .inr (.inr (by simp [hu, hsay, hor, hand]))
  · exact .inl (by simp [hu, hsay, hor, hand])

/-- The rating sees nothing of what would be answered beside its calls. -/
theorem rateBy_congr {f g : Text → Risk} {s : Text} (h : ∀ p ∈ calls s, f p = g p) : rateBy f s = rateBy g s := by
  have hmap : (calls s).map f = (calls s).map g := List.map_congr_left h
  rcases rateBy_cases s with ⟨-, hrate⟩ | ⟨-, -, hrate⟩ | ⟨-, -, hrate⟩
  · exact hrate f g
  · rw [hrate, hrate, hmap]
  · rw [hrate, hrate, hmap]

/-- What would be answered beyond the depth of the calls does not matter. -/
theorem iterate_rateBy {n : Nat} {s : Text} (h : Within n s) (rate : Text → Risk) : rateBy^[n] rate s = risk s := by
  induction h with
  | call h ih =>
    rw [Function.iterate_succ_apply', ← rateBy_risk]
    exact rateBy_congr ih

theorem orWord_ne_nil : orWord ≠ [] := by decide

theorem andWord_ne_nil : andWord ≠ [] := by decide

/-- Without AND and OR, the rating makes no call. -/
theorem within_one {q : Text} (hor : mentions orWord (strip q) = false) (hand : mentions andWord (strip q) = false) :
    Within 1 q := by
  have hnone : calls q = [] := by simp [calls, hor, hand]
  exact .call (hnone ▸ nofun)

/-- Without OR, the pieces between the ANDs make no call. -/
theorem within_two {p : Text} (hor : mentions orWord (strip p) = false) : Within 2 p := by
  refine .call fun q hq => ?_
  rcases rateBy_cases p with ⟨hcalls, -⟩ | ⟨hor', -, -⟩ | ⟨-, hcalls, -⟩
  · rw [hcalls] at hq
    cases hq
  · rw [hor] at hor'
    cases hor'
  · rw [hcalls] at hq
    exact within_one (mentions_strip_piece andWord_ne_nil hq hor) (mentions_sep_strip_piece andWord_ne_nil hq)

/-- The pieces between the ORs have no OR, and those between the ANDs of a text without OR neither. -/
theorem within_three (s : Text) : Within 3 s := by
  refine .call fun p hp => ?_
  rcases rateBy_cases s with ⟨hcalls, -⟩ | ⟨-, hcalls, -⟩ | ⟨hor, hcalls, -⟩
  · rw [hcalls] at hp
    cases hp
  · rw [hcalls] at hp
    exact within_two (mentions_sep_strip_piece orWord_ne_nil hp)
  · rw [hcalls] at hp
    exact within_two (mentions_strip_piece andWord_ne_nil hp hor)

/-! ## (3) Levels -/

def leaf (t : Text) : Risk := if isUnknown t then .unknown else riskOfId (baseId t)

def conjunction (t : Text) : Risk :=
  if isUnknown t then .unknown
  else if mentions andWord t then .mostRestrictive ((splitOn andWord t).map fun q => leaf (strip q))
  else leaf t

def byLevels (s : Text) : Risk :=
  let t := strip s
  if isUnknown t then .unknown
  else if saysProprietary t then .proprietary
  else if mentions orWord t then .mostPermissive ((splitOn orWord t).map fun p => conjunction (strip p))
  else conjunction t

theorem risk_leaf {q : Text} (hsay : saysProprietary (strip q) = false) (hor : mentions orWord (strip q) = false)
    (hand : mentions andWord (strip q) = false) : risk q = leaf (strip q) := by
  rw [risk_eq, hsay, hor, hand, leaf]
  simp

theorem risk_conjunction {p : Text} (hsay : saysProprietary (strip p) = false) (hor : mentions orWord (strip p) = false) :
    risk p = conjunction (strip p) := by
  have hpieces : (splitOn andWord (strip p)).map risk = (splitOn andWord (strip p)).map fun q => leaf (strip q) := by
    refine List.map_congr_left fun q hq => risk_leaf ?_ ?_ ?_
    · exact saysProprietary_strip_piece andWord_ne_nil hq hsay
    · exact mentions_strip_piece andWord_ne_nil hq hor
    · exact mentions_sep_strip_piece andWord_ne_nil hq
  rw [risk_eq, hsay, hor, hpieces, conjunction, leaf]
  by_cases hu : isUnknown (strip p) = true
  · rw [if_pos hu, if_pos hu]
  · simp [hu]

theorem risk_eq_byLevels (s : Text) : risk s = byLevels s := by
  by_cases hu : isUnknown (strip s) = true
  · rw [risk_eq, byLevels, if_pos hu, if_pos hu]
  by_cases hsay : saysProprietary (strip s) = true
  · rw [risk_eq, byLevels, if_neg hu, if_neg hu, if_pos hsay, if_pos hsay]
  by_cases hor : mentions orWord (strip s) = true
  · have hpieces :
        (splitOn orWord (strip s)).map risk = (splitOn orWord (strip s)).map fun p => conjunction (strip p) := by
      refine List.map_congr_left fun p hp => risk_conjunction ?_ ?_
      · exact saysProprietary_strip_piece orWord_ne_nil hp (Bool.eq_false_iff.mpr hsay)
      · exact mentions_sep_strip_piece orWord_ne_nil hp
    rw [risk_eq, byLevels, if_neg hu, if_neg hu, if_neg hsay, if_neg hsay, if_pos hor, if_pos hor, hpieces]
  · rw [risk_conjunction (Bool.eq_false_iff.mpr hsay) (Bool.eq_false_iff.mpr hor), byLevels, if_neg hu, if_neg hsay,
      if_neg hor]

/-- The rating of any text is that of its three levels. It is at most three calls deep: whatever
    would be answered to a fourth, the rating is the same. -/
theorem risk_levels (s : Text) :
    risk s = byLevels s ∧ Within 3 s ∧ ∀ rate : Text → Risk, rateBy^[3] rate s = risk s :=
  ⟨risk_eq_byLevels s, within_three s, iterate_rateBy (within_three s)⟩

-- A third call is made below an OR and an AND.
example : "ISC AND curl".toList ∈ calls "MIT OR ISC AND curl".toList ∧
    "curl".toList ∈ calls "ISC AND curl".toList := by
  decide

end Expression

end Attribution
