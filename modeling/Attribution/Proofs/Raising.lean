/-
  Attribution.Proofs.Raising — expressions with more restrictive identifiers.

  (1) Alternatives that are no better one by one are no better side by side, nor is the best
  of them (`forall₂_beside`, `mostPermissive_le_of_forall₂`).

  (2) An expression as it is written has single spaces around its operators, and parentheses
  wherever they are put (`Written`). It is a chain, in which the parentheses do not group
  (`Written.framed`).

  (3) If each identifier is replaced by one that is at least as restrictive, no alternative
  gets better (`Raised.alternatives`), and what says that its license is not free still says
  so. So the expression is at least as restrictive as before (`risk_raised`): that grouping is
  not seen makes a rating too low, but never turns the order of two ratings round.
-/
import Attribution.Proofs.Joining
import Mathlib.Data.List.Forall2

namespace Attribution

namespace Risk

/-! ## (1) Alternatives one by one -/

theorem forall₂_beside {rs rs' ss ss' : List Risk} (hr : List.Forall₂ (· ≤ ·) rs rs')
    (hs : List.Forall₂ (· ≤ ·) ss ss') : List.Forall₂ (· ≤ ·) (beside rs ss) (beside rs' ss') := by
  induction hr with
  | nil => exact hs
  | cons hle hrest ih =>
    cases hrest with
    | nil =>
      cases hs with
      | nil => exact .cons hle .nil
      | cons hle' hs => exact .cons (max_le_max hle hle') hs
    | cons _ _ => exact .cons hle ih

theorem mostPermissive_le_of_forall₂ {rs ss : List Risk} (h : List.Forall₂ (· ≤ ·) rs ss) :
    mostPermissive rs ≤ mostPermissive ss := by
  induction h with
  | nil => exact le_refl _
  | cons hle hrest ih =>
    cases hrest with
    | nil => exact hle
    | cons _ _ =>
      rw [mostPermissive_cons _ (List.cons_ne_nil _ _), mostPermissive_cons _ (List.cons_ne_nil _ _)]
      exact min_le_min hle ih

end Risk

namespace Expression

open Text Risk

/-! ## (2) Expressions as they are written -/

/-- An expression as it is written. Which of two operators binds tighter cannot be told from the
    text, so that a text may be written in several ways. -/
inductive Written where
  | id (i : Identifier)
  /-- An identifier `WITH` an exception. -/
  | exception (i x : Identifier)
  | joined (a : Written) (j : Joint) (b : Written)
  /-- An expression in parentheses. -/
  | group (a : Written)

namespace Written

def text : Written → Text
  | id i => i.text
  | exception i x => i.text ++ withWord ++ x.text
  | joined a j b => a.text ++ j.word ++ b.text
  | group a => '(' :: a.text ++ [')']

def framed : Written → Framed
  | id i => ⟨noBlanks, 0, ⟨.id i, []⟩, 0, noBlanks⟩
  | exception i x => ⟨noBlanks, 0, ⟨.exception i noBlanks noBlanks x, []⟩, 0, noBlanks⟩
  | joined a j b => a.framed.join j b.framed
  | group a => a.framed.enclosed

def alternatives (w : Written) : List Risk := w.framed.chain.alternatives

theorem after_framed (w : Written) : w.framed.after = noBlanks := by
  induction w with
  | id i => rfl
  | exception i x => rfl
  | joined a j b iha _ => exact iha
  | group a _ => rfl

theorem before_framed (w : Written) : w.framed.before = noBlanks := by
  induction w with
  | id i => rfl
  | exception i x => rfl
  | joined a j b _ ihb => exact ihb
  | group a _ => rfl

theorem text_framed (w : Written) : w.framed.text = w.text := by
  induction w with
  | id i => simp [framed, text, Framed.text, Chain.text, Atom.text, opening, closing, noBlanks]
  | exception i x => simp [framed, text, Framed.text, Chain.text, Atom.text, opening, closing, noBlanks]
  | joined a j b iha ihb => rw [framed, text, Framed.text_join, iha, ihb]
  | group a ih => rw [framed, text, Framed.text_enclosed a.after_framed a.before_framed, ih]

theorem alternatives_or (a b : Written) : (joined a .or b).alternatives = a.alternatives ++ b.alternatives :=
  alternativesFrom_or _ _ rfl _ _

theorem alternatives_and (a b : Written) : (joined a .and b).alternatives = beside a.alternatives b.alternatives :=
  alternativesFrom_and _ _ rfl _ _

theorem saysProprietary_joined (a : Written) (j : Joint) (b : Written) :
    saysProprietary (joined a j b).text = (saysProprietary a.text || saysProprietary b.text) := by
  have hkey : saysProprietary j.key = false := by cases j <;> decide
  exact saysProprietary_spaced hkey a.text b.text

theorem saysProprietary_exception (i x : Identifier) :
    saysProprietary (exception i x).text = (saysProprietary i.text || saysProprietary x.text) :=
  saysProprietary_spaced (w := "WITH".toList) (by decide) i.text x.text

theorem saysProprietary_group (a : Written) : saysProprietary (group a).text = saysProprietary a.text :=
  saysProprietary_grouped true a.text

/-- What is written is rated by its alternatives, unless it says that its license is not free. -/
theorem risk_text {w : Written} (h : saysProprietary w.text = false) :
    risk w.text = mostPermissive w.alternatives := by
  rw [← text_framed] at h ⊢
  exact Framed.risk_text h

/-! ## (3) More restrictive identifiers -/

/-- The same expression with identifiers that are at least as restrictive. -/
inductive Raised : Written → Written → Prop
  | id {i j : Identifier} : risk i.text ≤ risk j.text → Raised (.id i) (.id j)
  | exception {i j : Identifier} (x : Identifier) : risk i.text ≤ risk j.text →
      Raised (.exception i x) (.exception j x)
  | joined {a b a' b' : Written} (j : Joint) : Raised a a' → Raised b b' → Raised (.joined a j b) (.joined a' j b')
  | group {a a' : Written} : Raised a a' → Raised (.group a) (.group a')

/-- An identifier that says that its license is not free is only replaced by such a one. -/
theorem saysProprietary_of_le {i j : Identifier} (hle : risk i.text ≤ risk j.text)
    (h : saysProprietary i.text = true) : saysProprietary j.text = true := by
  rw [risk_of_saysProprietary h] at hle
  exact Identifier.risk_eq_proprietary_iff.mp (le_antisymm (le_proprietary _) hle)

theorem Raised.saysProprietary_text {w w' : Written} (h : Raised w w') :
    saysProprietary w.text = true → saysProprietary w'.text = true := by
  induction h with
  | id hle => exact saysProprietary_of_le hle
  | exception x hle =>
    rw [saysProprietary_exception, saysProprietary_exception, Bool.or_eq_true, Bool.or_eq_true]
    exact Or.imp_left (saysProprietary_of_le hle)
  | joined j _ _ iha ihb =>
    rw [saysProprietary_joined, saysProprietary_joined, Bool.or_eq_true, Bool.or_eq_true]
    exact Or.imp iha ihb
  | group _ ih =>
    rw [saysProprietary_group, saysProprietary_group]
    exact ih

theorem riskOfId_le {i j : Identifier} (hle : risk i.text ≤ risk j.text)
    (h : saysProprietary j.text = false) : riskOfId i.text ≤ riskOfId j.text := by
  have hi : saysProprietary i.text = false := by
    by_contra hi
    rw [saysProprietary_of_le hle (Bool.eq_true_of_not_eq_false hi)] at h
    cases h
  rwa [Identifier.risk_eq hi, Identifier.risk_eq h] at hle

/-- No alternative gets better. -/
theorem Raised.alternatives {w w' : Written} (h : Raised w w') : saysProprietary w'.text = false →
    List.Forall₂ (· ≤ ·) w.alternatives w'.alternatives := by
  induction h with
  | id hle =>
    intro hfree
    exact .cons (riskOfId_le hle hfree) .nil
  | exception x hle =>
    intro hfree
    rw [saysProprietary_exception, Bool.or_eq_false_iff] at hfree
    exact .cons (riskOfId_le hle hfree.1) .nil
  | joined j _ _ iha ihb =>
    intro hfree
    rw [saysProprietary_joined, Bool.or_eq_false_iff] at hfree
    cases j with
    | or =>
      rw [alternatives_or, alternatives_or]
      exact List.rel_append (iha hfree.1) (ihb hfree.2)
    | and =>
      rw [alternatives_and, alternatives_and]
      exact forall₂_beside (iha hfree.1) (ihb hfree.2)
  | group _ ih =>
    intro hfree
    rw [saysProprietary_group] at hfree
    exact ih hfree

/-- An expression whose identifiers are replaced by others that are at least as restrictive is
    itself at least as restrictive. -/
theorem risk_raised {w w' : Written} (h : Raised w w') : risk w.text ≤ risk w'.text := by
  by_cases hsay : saysProprietary w'.text = true
  · rw [risk_of_saysProprietary hsay]
    exact le_proprietary _
  · have hfree' : saysProprietary w'.text = false := Bool.eq_false_of_not_eq_true hsay
    have hfree : saysProprietary w.text = false := Bool.eq_false_of_not_eq_true (mt h.saysProprietary_text hsay)
    rw [risk_text hfree, risk_text hfree']
    exact mostPermissive_le_of_forall₂ (h.alternatives hfree')

def choiceWith (i : Identifier) : Written :=
  .joined (.group (.joined (.exception i ⟨"Classpath-exception-2.0".toList, by decide,
    List.all_eq_true.mp (by decide), by decide⟩) .or (.id .gpl))) .and (.id .apache)

theorem risk_raised_choice :
    (choiceWith .mit).text = "(MIT WITH Classpath-exception-2.0 OR GPL-3.0) AND Apache-2.0".toList ∧
      Raised (choiceWith .mit) (choiceWith .gpl) ∧
      risk (choiceWith .mit).text ≤ risk (choiceWith .gpl).text ∧
      risk (choiceWith .mit).text = permissive ∧ risk (choiceWith .gpl).text = strongCopyleft := by
  have hmit : risk Identifier.mit.text = permissive := (Identifier.risk_eq (by decide)).trans (by decide)
  have hgpl : risk Identifier.gpl.text = strongCopyleft := (Identifier.risk_eq (by decide)).trans (by decide)
  have hle : risk Identifier.mit.text ≤ risk Identifier.gpl.text := by
    rw [hmit, hgpl]
    decide
  have hraised : Raised (choiceWith .mit) (choiceWith .gpl) :=
    .joined .and (.group (.joined .or (.exception _ hle) (.id (le_refl _)))) (.id (le_refl _))
  refine ⟨by decide, hraised, risk_raised hraised, ?_, ?_⟩
  · exact (risk_text (by decide)).trans (by decide)
  · exact (risk_text (by decide)).trans (by decide)

end Written

end Expression

end Attribution
