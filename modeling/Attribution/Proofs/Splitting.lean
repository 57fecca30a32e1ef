/-
  Attribution.Proofs.Splitting — what cutting a text at a separator gives back.

  (1) A text mentions a word if the word is an infix of it (`mentions_iff`). A word
  without the character c cannot lie across it (`mentions_append_cons`).

  (2) A text is cut at a separator if none stands in what comes before, nor starts in it
  (`splitOn_append_sep`), and always at a separator of one character (`splitOn_append_cons`);
  one without the separator stays whole (`splitOn_eq_self`).

  (3) The words of a text are the pieces between its spaces (`words_append_space`). A
  word with spaces on both sides stands only in a text that has it as a word
  (`mem_words_of_spaced`), and what is put at the ends of a text adds no word but one
  that starts or ends with it (`mem_words_of_cons`, `mem_words_of_snoc`).
-/
import Attribution.Text.Basic

namespace Attribution.Text

/-! ## (1) Mentioning -/

theorem mentions_iff {w s : Text} : mentions w s = true ↔ w <:+: s := by
  induction s with
  | nil => simp [mentions, List.isEmpty_iff]
  | cons c s ih => rw [mentions, Bool.or_eq_true, List.isPrefixOf_iff_prefix, ih, List.infix_cons_iff]

theorem mentions_eq_false_iff {w s : Text} : mentions w s = false ↔ ¬ w <:+: s := by
  rw [← mentions_iff, Bool.not_eq_true]

theorem mentions_mono {w s t : Text} (h : mentions w s = true) (hst : s <:+: t) : mentions w t = true :=
  mentions_iff.mpr ((mentions_iff.mp h).trans hst)

theorem infix_append_cons {w a b : Text} {c : Char} (hc : c ∉ w) :
    w <:+: a ++ c :: b ↔ w <:+: a ∨ w <:+: b := by
  constructor
  · rintro ⟨x, y, h⟩
    rcases List.append_eq_append_iff.mp h with ⟨d, ha, -⟩ | ⟨d, hxw, hd⟩
    · exact Or.inl ⟨x, d, ha.symm⟩
    rcases d with _ | ⟨e, d⟩
    · exact Or.inl ⟨x, [], by simpa using hxw⟩
    obtain ⟨rfl, hb⟩ := List.cons.inj hd
    rcases List.append_eq_append_iff.mp hxw with ⟨u, -, hw⟩ | ⟨u, -, hu⟩
    · exact absurd (hw ▸ List.mem_append_right u List.mem_cons_self) hc
    rcases u with _ | ⟨f, u⟩
    · exact absurd ((show c :: d = w from hu) ▸ List.mem_cons_self) hc
    · obtain ⟨rfl, rfl⟩ := List.cons.inj hu
      exact Or.inr ⟨u, y, hb.symm⟩
  · rintro (h | h)
    · exact h.trans (List.prefix_append a _).isInfix
    · exact h.trans ((List.suffix_cons c b).trans (List.suffix_append a _)).isInfix

/-- A word without a character does not lie across it. -/
theorem mentions_append_cons {w a b : Text} {c : Char} (hc : c ∉ w) :
    mentions w (a ++ c :: b) = (mentions w a || mentions w b) := by
  rw [Bool.eq_iff_iff, Bool.or_eq_true, mentions_iff, mentions_iff, mentions_iff, infix_append_cons hc]

/-! ## (2) Cutting -/

variable {sep : Text}

theorem splitOn_eq_self {s : Text} (h : ¬ sep <:+: s) : splitOn sep s = [s] := by
  unfold splitOn
  induction s with
  | nil => rfl
  | cons c s ih =>
    rw [List.infix_cons_iff, not_or] at h
    have hno : sep.isPrefixOf (c :: s) = false := by
      rw [← Bool.not_eq_true, List.isPrefixOf_iff_prefix]; exact h.1
    rw [splitFrom, hno, ih h.2]
    rfl

theorem splitOn_of_not_mem {d : Char} {s : Text} (h : d ∉ s) : splitOn [d] s = [s] :=
  splitOn_eq_self fun hin => h (hin.subset (List.mem_singleton.mpr rfl))

theorem splitFrom_length_append (x s : Text) : splitFrom sep x.length (x ++ s) = splitFrom sep 0 s := by
  induction x with
  | nil => rfl
  | cons c x ih => exact ih

theorem splitOn_sep_append (hsep : sep ≠ []) (s : Text) : splitOn sep (sep ++ s) = [] :: splitOn sep s := by
  cases sep with
  | nil => exact absurd rfl hsep
  | cons c w =>
    have hpre : (c :: w).isPrefixOf (c :: (w ++ s)) = true :=
      List.isPrefixOf_iff_prefix.mpr ⟨s, rfl⟩
    rw [splitOn, List.cons_append, splitFrom, if_pos hpre]
    exact congrArg _ (splitFrom_length_append w s)

/-- The first cut is made at a separator if none lies in what stands before it, the
    separator without its last character included. -/
theorem splitOn_append_sep {a : Text} (hsep : sep ≠ []) (ha : ¬ sep <:+: a ++ sep.dropLast) (b : Text) :
    splitOn sep (a ++ (sep ++ b)) = a :: splitOn sep b := by
  induction a with
  | nil => exact splitOn_sep_append hsep b
  | cons c a ih =>
    rw [List.cons_append, List.infix_cons_iff, not_or] at ha
    have hno : sep.isPrefixOf (c :: (a ++ (sep ++ b))) = false := by
      rw [← Bool.not_eq_true, List.isPrefixOf_iff_prefix]
      intro hp
      refine ha.1 (List.prefix_of_prefix_length_le hp ⟨sep.drop (sep.length - 1) ++ b, ?_⟩ ?_)
      · rw [List.dropLast_eq_take, List.cons_append, List.append_assoc, ← List.append_assoc (List.take _ _),
          List.take_append_drop]
      · have := List.length_pos_iff.mpr hsep
        simp; omega
    have := ih ha.2
    unfold splitOn at this ⊢
    rw [List.cons_append, splitFrom, hno, this]
    rfl

/-- A text is cut at every character that is a separator by itself. -/
theorem splitOn_append_cons (d : Char) (a b : Text) : splitOn [d] (a ++ d :: b) = splitOn [d] a ++ splitOn [d] b := by
  unfold splitOn
  induction a with
  | nil => simp [splitFrom]
  | cons c a ih =>
    rw [List.cons_append, splitFrom, splitFrom]
    by_cases hc : c = d
    · subst hc
      rw [if_pos (by simp), if_pos (by simp)]
      simpa using ih
    · have hno : ∀ s : Text, List.isPrefixOf [d] (c :: s) = false := by
        intro s; simp [List.isPrefixOf, Ne.symm hc]
      rw [if_neg (by simp [hno]), if_neg (by simp [hno])]
      obtain ⟨p, ps, hp⟩ := List.exists_cons_of_ne_nil (splitFrom_ne_nil [d] 0 a)
      rw [ih, hp]; rfl

/-! ## (3) Words -/

def words (s : Text) : List Text := splitOn [' '] s

def spaced (w : Text) : Text := ' ' :: w ++ [' ']

theorem words_append_space (a b : Text) : words (a ++ ' ' :: b) = words a ++ words b := splitOn_append_cons ' ' a b

theorem eq_nil_of_mem_words_nil {w : Text} (h : w ∈ words []) : w = [] := List.mem_singleton.mp h

theorem words_of_no_space {w : Text} (hw : ' ' ∉ w) : words w = [w] := splitOn_of_not_mem hw

variable {w : Text}

theorem append_spaced (a w b : Text) : a ++ spaced w ++ b = a ++ ' ' :: (w ++ ' ' :: b) := by simp [spaced]

theorem words_append_spaced (hw : ' ' ∉ w) (a b : Text) : words (a ++ spaced w ++ b) = words a ++ w :: words b := by
  rw [append_spaced, words_append_space, words_append_space, words_of_no_space hw]
  rfl

/-- A word between spaces is one of the words. -/
theorem mem_words_of_spaced {s : Text} (hw : ' ' ∉ w) (h : spaced w <:+: s) : w ∈ words s := by
  obtain ⟨x, y, rfl⟩ := h
  rw [words_append_spaced hw]
  exact List.mem_append_right _ List.mem_cons_self

/-- A character in front makes no word but one that starts with it. -/
theorem mem_words_of_cons {c : Char} {s : Text} (hw : w ∈ words (c :: s)) (hne : w ≠ [])
    (hc : ∀ t, w ≠ c :: t) : w ∈ words s := by
  by_cases hsp : c = ' '
  · subst hsp
    have := words_append_space [] s
    rw [List.nil_append] at this
    rw [this, List.mem_append] at hw
    exact hw.resolve_left fun h => hne (eq_nil_of_mem_words_nil h)
  · by_cases hs : ' ' ∈ s
    · obtain ⟨a, b, rfl, ha⟩ := List.eq_append_cons_of_mem hs
      have hca : ' ' ∉ c :: a := by simp [Ne.symm hsp, ha]
      rw [← List.cons_append, words_append_space, words_of_no_space hca, List.mem_append] at hw
      rw [words_append_space, List.mem_append]
      exact Or.inr (hw.resolve_left fun h => hc a (List.mem_singleton.mp h))
    · have hcs : ' ' ∉ c :: s := by simp [Ne.symm hsp, hs]
      rw [words_of_no_space hcs] at hw
      exact absurd (List.mem_singleton.mp hw) (hc s)

/-- A character behind makes no word but one that ends with it. -/
theorem mem_words_of_snoc {c : Char} {s : Text} (hw : w ∈ words (s ++ [c])) (hne : w ≠ [])
    (hc : ∀ t, w ≠ t ++ [c]) : w ∈ words s := by
  by_cases hsp : c = ' '
  · subst hsp
    rw [words_append_space, List.mem_append] at hw
    exact hw.resolve_right fun h => hne (eq_nil_of_mem_words_nil h)
  · by_cases hs : ' ' ∈ s
    · obtain ⟨a, b, hab, ha⟩ := List.eq_append_cons_of_mem (List.mem_reverse.mpr hs)
      obtain rfl : s = b.reverse ++ ' ' :: a.reverse := by
        simpa using congrArg List.reverse hab
      have hca : ' ' ∉ a.reverse ++ [c] := by simp [Ne.symm hsp, ha]
      rw [List.append_assoc, List.cons_append, words_append_space, words_of_no_space hca, List.mem_append] at hw
      rw [words_append_space, List.mem_append]
      exact Or.inl (hw.resolve_right fun h => hc _ (List.mem_singleton.mp h))
    · have hcs : ' ' ∉ s ++ [c] := by simp [Ne.symm hsp, hs]
      rw [words_of_no_space hcs] at hw
      exact absurd (List.mem_singleton.mp hw) (hc s)

/-- What ends with a space reaches no further than the last space. -/
theorem infix_left_of_append {s a b : Text} (h : s ++ [' '] <:+: a ++ b) (hb : ' ' ∉ b) : s ++ [' '] <:+: a := by
  obtain ⟨x, y, h⟩ := h
  rcases List.append_eq_append_iff.mp h with ⟨d, ha, -⟩ | ⟨d, hd, hby⟩
  · exact ⟨x, d, ha.symm⟩
  · rcases List.eq_nil_or_concat d with rfl | ⟨d, c, rfl⟩
    · exact ⟨x, [], by simpa using hd⟩
    · have hc : ' ' = c := by
        have := congrArg List.getLast? hd
        simpa using this
      exact absurd (by rw [hby, ← hc]; simp) hb

/-- A word between spaces does not start in a text that does not have it. -/
theorem mem_words_of_spaced_dropLast {s : Text} (hw : ' ' ∉ w) (hne : w ≠ [])
    (h : spaced w <:+: s ++ (spaced w).dropLast) : w ∈ words s := by
  have hlast : (spaced w).dropLast = [' '] ++ w := List.dropLast_concat
  rw [hlast, ← List.append_assoc] at h
  have hmem := mem_words_of_spaced hw (infix_left_of_append (s := ' ' :: w) h hw)
  rw [words_append_space, List.mem_append] at hmem
  exact hmem.resolve_right fun hnil => hne (eq_nil_of_mem_words_nil hnil)

end Attribution.Text
