/-
  Attribution.Proofs.Formula — license expressions as trees.

  (1) A formula is made of identifiers, with or without an exception, by OR and AND.
  It is printed with single spaces; an OR that AND is applied to stands in
  parentheses, since AND binds tighter. Its value is read off the tree: an exception
  does not count, OR takes the most permissive side and AND the most restrictive.

  (2) Its alternatives are what is left of that when the parentheses are forgotten:
  the sides of each OR, where AND joins only its nearest neighbours. The best of them
  is never more restrictive than the value (`mostPermissive_alternatives_le`), and is
  the value if no OR stands below an AND (`mostPermissive_alternatives`).

  (3) A text spells a formula if it is written by the rules of expressions, with any
  blanks beyond one space around the operators and with any balanced parentheses, but
  with no blank just inside of a parenthesis: such blanks are stripped only in part. What
  is printed is spelled (`spells_print`).
-/
import Attribution.Proofs.Rating
import Attribution.Proofs.Restrictiveness

namespace Attribution.Expression

open Text Risk

def keywords : List Text := ["OR".toList, "AND".toList, "WITH".toList]

structure Identifier where
  text : Text
  ne_nil : text ≠ []
  solid : ∀ c ∈ text, isSolid c = true
  notKeyword : text ∉ keywords

namespace Identifier

theorem firm (i : Identifier) : Firm i.text := by
  obtain ⟨c, t, hc⟩ := List.exists_cons_of_ne_nil i.ne_nil
  obtain ⟨t', d, hd⟩ := (List.eq_nil_or_concat i.text).resolve_left i.ne_nil
  rw [List.concat_eq_append] at hd
  exact ⟨⟨c, t, hc, i.solid c (by simp [hc])⟩, ⟨t', d, hd, i.solid d (by simp [hd])⟩⟩

theorem isBlank_of_mem (i : Identifier) : ∀ c ∈ i.text, isBlank c = false :=
  fun c hc => isBlank_of_isSolid (i.solid c hc)

theorem space_not_mem (i : Identifier) : ' ' ∉ i.text := by
  intro h
  have := i.isBlank_of_mem ' ' h
  revert this
  decide

def mit : Identifier := ⟨"MIT".toList, by decide, List.all_eq_true.mp (by decide), by decide⟩

def apache : Identifier := ⟨"Apache-2.0".toList, by decide, List.all_eq_true.mp (by decide), by decide⟩

def gpl : Identifier := ⟨"GPL-3.0".toList, by decide, List.all_eq_true.mp (by decide), by decide⟩

end Identifier

abbrev Blanks := {s : Text // ∀ c ∈ s, isBlank c = true}

def noBlanks : Blanks := ⟨[], by simp⟩

/-! ## (1) Formulas -/

inductive Formula where
  | id (i : Identifier)
  /-- An identifier `WITH` an exception. -/
  | exception (i x : Identifier)
  | or (a b : Formula)
  | and (a b : Formula)

def grouped (needed : Bool) (s : Text) : Text := if needed then '(' :: s ++ [')'] else s

theorem saysProprietary_grouped (b : Bool) (s : Text) : saysProprietary (grouped b s) = saysProprietary s := by
  cases b with
  | false => rfl
  | true =>
    have hopen := saysProprietary_append_cons (c := '(') (by decide) [] (s ++ [')'])
    have hclose := saysProprietary_append_cons (c := ')') (by decide) s []
    rw [List.nil_append, saysProprietary_nil, Bool.false_or] at hopen
    rw [saysProprietary_nil, Bool.or_false] at hclose
    exact hopen.trans hclose

namespace Formula

def isChoice : Formula → Bool
  | or _ _ => true
  | _ => false

def print : Formula → Text
  | id i => i.text
  | exception i x => i.text ++ withWord ++ x.text
  | or a b => a.print ++ orWord ++ b.print
  | and a b => grouped a.isChoice a.print ++ andWord ++ grouped b.isChoice b.print

def eval : Formula → Risk
  | id i => riskOfId i.text
  | exception i _ => riskOfId i.text
  | or a b => min a.eval b.eval
  | and a b => max a.eval b.eval

def Free : Formula → Prop
  | id i => saysProprietary i.text = false
  | exception i x => saysProprietary i.text = false ∧ saysProprietary x.text = false
  | or a b => a.Free ∧ b.Free
  | and a b => a.Free ∧ b.Free

instance decidableFree : (e : Formula) → Decidable e.Free
  | id i => inferInstanceAs (Decidable (saysProprietary i.text = false))
  | exception i x =>
    inferInstanceAs (Decidable (saysProprietary i.text = false ∧ saysProprietary x.text = false))
  | or a b =>
    have := decidableFree a
    have := decidableFree b
    inferInstanceAs (Decidable (a.Free ∧ b.Free))
  | and a b =>
    have := decidableFree a
    have := decidableFree b
    inferInstanceAs (Decidable (a.Free ∧ b.Free))

/-- AND is nowhere applied to an OR, so that nothing is in parentheses. -/
def Ungrouped : Formula → Prop
  | id _ => True
  | exception _ _ => True
  | or a b => a.Ungrouped ∧ b.Ungrouped
  | and a b => a.isChoice = false ∧ b.isChoice = false ∧ a.Ungrouped ∧ b.Ungrouped

inductive Similar : Formula → Formula → Prop
  | id (i j : Identifier) : Similar (.id i) (.id j)
  | exception (i x j y : Identifier) : Similar (.exception i x) (.exception j y)
  | or {a b a' b' : Formula} : Similar a a' → Similar b b' → Similar (.or a b) (.or a' b')
  | and {a b a' b' : Formula} : Similar a a' → Similar b b' → Similar (.and a b) (.and a' b')

theorem Similar.isChoice_eq {a b : Formula} (h : Similar a b) : b.isChoice = a.isChoice := by cases h <;> rfl

theorem Similar.ungrouped_iff {a b : Formula} (h : Similar a b) : b.Ungrouped ↔ a.Ungrouped := by
  induction h with
  | id i j => exact Iff.rfl
  | exception i x j y => exact Iff.rfl
  | or _ _ iha ihb => exact and_congr iha ihb
  | and ha hb iha ihb => rw [Ungrouped, Ungrouped, ha.isChoice_eq, hb.isChoice_eq, iha, ihb]

/-! ## (2) Alternatives -/

def alternatives : Formula → List Risk
  | id i => [riskOfId i.text]
  | exception i _ => [riskOfId i.text]
  | or a b => a.alternatives ++ b.alternatives
  | and a b => beside a.alternatives b.alternatives

theorem alternatives_ne_nil (e : Formula) : e.alternatives ≠ [] := by
  induction e with
  | id i => simp [alternatives]
  | exception i x => simp [alternatives]
  | or a b iha _ => simp [alternatives, iha]
  | and a b iha _ => exact beside_ne_nil _ iha

/-- Forgetting the parentheses never makes a formula more restrictive. -/
theorem mostPermissive_alternatives_le (e : Formula) : mostPermissive e.alternatives ≤ e.eval := by
  induction e with
  | id i => exact le_refl _
  | exception i x => exact le_refl _
  | or a b iha ihb =>
    rw [alternatives, mostPermissive_append a.alternatives_ne_nil b.alternatives_ne_nil]
    exact min_le_min iha ihb
  | and a b iha ihb =>
    exact le_trans (mostPermissive_beside_le a.alternatives_ne_nil b.alternatives_ne_nil) (max_le_max iha ihb)

/-- A formula without OR has one alternative, or an OR at the top. -/
theorem Ungrouped.alternatives_eq {e : Formula} (h : e.Ungrouped) (hc : e.isChoice = false) :
    e.alternatives = [e.eval] := by
  induction e with
  | id i => rfl
  | exception i x => rfl
  | or a b _ _ => cases hc
  | and a b iha ihb =>
    obtain ⟨hca, hcb, ha, hb⟩ := h
    rw [alternatives, iha ha hca, ihb hb hcb]
    rfl

theorem mostPermissive_alternatives {e : Formula} (h : e.Ungrouped) :
    mostPermissive e.alternatives = e.eval := by
  induction e with
  | id i => rfl
  | exception i x => rfl
  | or a b iha ihb =>
    rw [alternatives, mostPermissive_append a.alternatives_ne_nil b.alternatives_ne_nil, iha h.1, ihb h.2]
    rfl
  | and a b _ _ =>
    rw [Ungrouped.alternatives_eq h rfl]
    rfl

/-! ## (3) Spelling -/

/-- A text spells a formula. `true`: AND may be applied to it as it stands. -/
inductive Spells : Bool → Formula → Text → Prop
  | id (i : Identifier) : Spells true (.id i) i.text
  | exception (i x : Identifier) (u v : Blanks) :
      Spells true (.exception i x) (i.text ++ u.val ++ withWord ++ (v.val ++ x.text))
  | or {p q : Bool} {a b : Formula} {s t : Text} (u v : Blanks) : Spells p a s → Spells q b t →
      Spells false (.or a b) (s ++ u.val ++ orWord ++ (v.val ++ t))
  | and {a b : Formula} {s t : Text} (u v : Blanks) : Spells true a s → Spells true b t →
      Spells true (.and a b) (s ++ u.val ++ andWord ++ (v.val ++ t))
  | group {p : Bool} {e : Formula} {s : Text} : Spells p e s → Spells true e ('(' :: s ++ [')'])

/-- The text is an expression, with no blank beside a parenthesis but those around an operator. -/
def WellFormed (s : Text) : Prop := ∃ p e, Spells p e s

theorem Spells.grouped {e : Formula} {s : Text} (h : Spells (!e.isChoice) e s) :
    Spells true e (grouped e.isChoice s) := by
  cases hc : e.isChoice with
  | false => rwa [hc] at h
  | true => exact h.group

theorem spells_print (e : Formula) : Spells (!e.isChoice) e e.print := by
  induction e with
  | id i => exact .id i
  | exception i x => simpa [noBlanks, print, isChoice] using Spells.exception i x noBlanks noBlanks
  | or a b iha ihb => simpa [noBlanks, print, isChoice] using Spells.or noBlanks noBlanks iha ihb
  | and a b iha ihb => simpa [noBlanks, print, isChoice] using Spells.and noBlanks noBlanks iha.grouped ihb.grouped

theorem wellFormed_print (e : Formula) : WellFormed e.print := ⟨_, e, spells_print e⟩

end Formula

end Attribution.Expression
