/-
  Attribution.Proofs.Grouping — what the rating makes of a printed formula.

  (1) A printed formula says that its license is not free if one of its identifiers
  does (`saysProprietary_print`).

  (2) A formula of any shape that has an OR below an AND can be filled with identifiers
  such that forgetting the parentheses makes it more permissive (`exists_misread`).

  (3) The rating of a printed formula is the best of its alternatives: the parentheses
  around an OR are printed, but not read. So the rating is never more restrictive than
  the value of the formula, and is the value for all formulas of a shape only if no OR
  stands below an AND (`risk_print`).
-/
import Attribution.Proofs.Chain

namespace Attribution.Expression

open Text Risk

namespace Formula

open Identifier (mit apache gpl)

/-! ## (1) Saying that a license is not free -/

theorem saysProprietary_print (e : Formula) : saysProprietary e.print = false ↔ e.Free := by
  induction e with
  | id i => exact Iff.rfl
  | exception i x =>
    have := saysProprietary_spaced (w := "WITH".toList) (by decide) i.text x.text
    rw [print, show withWord = spaced "WITH".toList from rfl, this, Bool.or_eq_false_iff]
    exact Iff.rfl
  | or a b iha ihb =>
    have := saysProprietary_spaced (w := "OR".toList) (by decide) a.print b.print
    rw [print, show orWord = spaced "OR".toList from rfl, this, Bool.or_eq_false_iff, iha, ihb]
    exact Iff.rfl
  | and a b iha ihb =>
    have := saysProprietary_spaced (w := "AND".toList) (by decide) (grouped a.isChoice a.print)
      (grouped b.isChoice b.print)
    rw [print, show andWord = spaced "AND".toList from rfl, this, Bool.or_eq_false_iff,
      saysProprietary_grouped, saysProprietary_grouped, iha, ihb]
    exact Iff.rfl

/-! ## (2) Shapes -/

def fill (i : Identifier) : Formula → Formula
  | id _ => id i
  | exception _ _ => exception i i
  | or a b => or (a.fill i) (b.fill i)
  | and a b => and (a.fill i) (b.fill i)

theorem similar_fill (i : Identifier) (e : Formula) : Similar e (e.fill i) := by
  induction e with
  | id j => exact .id j i
  | exception j x => exact .exception j x i i
  | or a b iha ihb => exact .or iha ihb
  | and a b iha ihb => exact .and iha ihb

theorem free_fill {i : Identifier} (hi : saysProprietary i.text = false) (e : Formula) : (e.fill i).Free := by
  induction e with
  | id j => exact hi
  | exception j x => exact ⟨hi, hi⟩
  | or a b iha ihb => exact ⟨iha, ihb⟩
  | and a b iha ihb => exact ⟨iha, ihb⟩

theorem eval_fill (i : Identifier) (e : Formula) : (e.fill i).eval = riskOfId i.text := by
  induction e with
  | id j => rfl
  | exception j x => rfl
  | or a b iha ihb => rw [fill, eval, iha, ihb, min_self]
  | and a b iha ihb => rw [fill, eval, iha, ihb, max_self]

theorem alternatives_fill (i : Identifier) (e : Formula) : ∀ r ∈ (e.fill i).alternatives, r = riskOfId i.text := by
  induction e with
  | id j =>
    intro r hr
    exact List.mem_singleton.mp hr
  | exception j x =>
    intro r hr
    exact List.mem_singleton.mp hr
  | or a b iha ihb =>
    intro r hr
    rcases List.mem_append.mp hr with hr | hr
    · exact iha r hr
    · exact ihb r hr
  | and a b iha ihb => exact forall_mem_beside (fun r s hr hs => by rw [hr, hs, max_self]) iha ihb

theorem free_mit (e : Formula) : (e.fill mit).Free := free_fill (by decide) e

theorem free_gpl (e : Formula) : (e.fill gpl).Free := free_fill (by decide) e

theorem eval_mit (e : Formula) : (e.fill mit).eval = permissive := (eval_fill mit e).trans (by decide)

theorem eval_gpl (e : Formula) : (e.fill gpl).eval = strongCopyleft := (eval_fill gpl e).trans (by decide)

theorem alternatives_mit (e : Formula) : ∀ r ∈ (e.fill mit).alternatives, r = permissive :=
  fun r hr => (alternatives_fill mit e r hr).trans (by decide)

theorem permissive_mem_mit (e : Formula) : permissive ∈ (e.fill mit).alternatives := by
  obtain ⟨r, hr⟩ := List.exists_mem_of_ne_nil _ (alternatives_ne_nil (e.fill mit))
  exact alternatives_mit e r hr ▸ hr

structure Misread (e e' : Formula) : Prop where
  similar : Similar e e'
  free : e'.Free
  restrictive : e'.eval = strongCopyleft
  alternative : permissive ∈ e'.alternatives

namespace Misread

variable {a b a' b' : Formula}

theorem or_left (h : Misread a a') (b : Formula) : Misread (.or a b) (.or a' (b.fill gpl)) where
  similar := .or h.similar (similar_fill gpl b)
  free := ⟨h.free, free_gpl b⟩
  restrictive := by rw [eval, eval_gpl, h.restrictive, min_self]
  alternative := List.mem_append_left _ h.alternative

theorem or_right (h : Misread b b') (a : Formula) : Misread (.or a b) (.or (a.fill gpl) b') where
  similar := .or (similar_fill gpl a) h.similar
  free := ⟨free_gpl a, h.free⟩
  restrictive := by rw [eval, eval_gpl, h.restrictive, min_self]
  alternative := List.mem_append_right _ h.alternative

theorem and_left (h : Misread a a') (b : Formula) : Misread (.and a b) (.and a' (b.fill mit)) where
  similar := .and h.similar (similar_fill mit b)
  free := ⟨h.free, free_mit b⟩
  restrictive := by
    rw [eval, eval_mit, h.restrictive]
    rfl
  alternative := mem_beside h.alternative fun r hr => (alternatives_mit b r hr).le

theorem and_right (h : Misread b b') (a : Formula) : Misread (.and a b) (.and (a.fill mit) b') where
  similar := .and (similar_fill mit a) h.similar
  free := ⟨free_mit a, h.free⟩
  restrictive := by
    rw [eval, eval_mit, h.restrictive]
    rfl
  alternative := mem_beside_right h.alternative fun r hr => (alternatives_mit a r hr).le

/-- The first side of a choice comes loose from what AND joins to the choice. -/
theorem choice_left (a₁ a₂ b : Formula) :
    Misread (.and (.or a₁ a₂) b) (.and (.or (a₁.fill mit) (a₂.fill gpl)) (b.fill gpl)) where
  similar := .and (.or (similar_fill mit a₁) (similar_fill gpl a₂)) (similar_fill gpl b)
  free := ⟨⟨free_mit a₁, free_gpl a₂⟩, free_gpl b⟩
  restrictive := by
    rw [eval, eval, eval_mit, eval_gpl, eval_gpl]
    rfl
  alternative := by
    rw [alternatives, alternatives, beside_append _ _ (alternatives_ne_nil _)]
    exact List.mem_append_left _ (permissive_mem_mit a₁)

theorem choice_right (a b₁ b₂ : Formula) :
    Misread (.and a (.or b₁ b₂)) (.and (a.fill gpl) (.or (b₁.fill gpl) (b₂.fill mit))) where
  similar := .and (similar_fill gpl a) (.or (similar_fill gpl b₁) (similar_fill mit b₂))
  free := ⟨free_gpl a, free_gpl b₁, free_mit b₂⟩
  restrictive := by
    rw [eval, eval, eval_mit, eval_gpl, eval_gpl]
    rfl
  alternative := by
    rw [alternatives, alternatives, beside_append_right _ (alternatives_ne_nil _)]
    exact List.mem_append_right _ (permissive_mem_mit b₂)

end Misread

/-- A shape with an OR below an AND has a formula that is misread. -/
theorem exists_misread {e : Formula} (h : ¬ e.Ungrouped) : ∃ e', Misread e e' := by
  induction e with
  | id i => exact absurd trivial h
  | exception i x => exact absurd trivial h
  | or a b iha ihb =>
    by_cases ha : a.Ungrouped
    · obtain ⟨b', hb⟩ := ihb fun hb => h ⟨ha, hb⟩
      exact ⟨_, hb.or_right a⟩
    · obtain ⟨a', ha⟩ := iha ha
      exact ⟨_, ha.or_left b⟩
  | and a b iha ihb =>
    by_cases ha : a.Ungrouped
    case neg =>
      obtain ⟨a', ha⟩ := iha ha
      exact ⟨_, ha.and_left b⟩
    by_cases hb : b.Ungrouped
    case neg =>
      obtain ⟨b', hb⟩ := ihb hb
      exact ⟨_, hb.and_right a⟩
    -- The operands are fine by themselves, so one of them is a choice.
    cases hca : a.isChoice with
    | true =>
      cases a with
      | or a₁ a₂ => exact ⟨_, .choice_left a₁ a₂ b⟩
      | _ => cases hca
    | false =>
      cases b with
      | or b₁ b₂ => exact ⟨_, .choice_right a b₁ b₂⟩
      | _ => exact absurd ⟨hca, rfl, ha, hb⟩ h

/-! ## (3) The rating -/

/-- What is printed is rated by its alternatives. -/
theorem risk_print_eq {e : Formula} (h : e.Free) : risk e.print = mostPermissive e.alternatives := by
  obtain ⟨f, hf, -, -, halt⟩ := (spells_print e).exists_framed
  rw [← hf, Framed.risk_text, halt]
  rw [hf]
  exact (saysProprietary_print e).mpr h

/-- The rating of a printed formula is its best alternative, which is its value if no
    alternative is better than the value. It is so for a whole shape if the shape needs no
    parentheses, and only then. -/
theorem risk_print {e : Formula} (h : e.Free) :
    risk e.print = mostPermissive e.alternatives ∧ risk e.print ≤ e.eval ∧
      (risk e.print = e.eval ↔ ∀ r ∈ e.alternatives, e.eval ≤ r) ∧
      (e.Ungrouped ↔ ∀ e', Similar e e' → e'.Free → risk e'.print = e'.eval) := by
  have hle := mostPermissive_alternatives_le e
  rw [risk_print_eq h]
  refine ⟨rfl, hle, ?_, ?_⟩
  · rw [← le_mostPermissive_iff (alternatives_ne_nil e)]
    constructor
    · intro heq
      exact heq.ge
    · intro hge
      exact le_antisymm hle hge
  · constructor
    · intro hu e' hsim hfree
      rw [risk_print_eq hfree, mostPermissive_alternatives (hsim.ungrouped_iff.mpr hu)]
    · intro hall
      by_contra hu
      obtain ⟨e', he⟩ := exists_misread hu
      have hrisk : strongCopyleft ≤ permissive := by
        rw [← he.restrictive, ← hall e' he.similar he.free, risk_print_eq he.free]
        exact mostPermissive_le he.alternative
      exact absurd hrisk (by decide)

def gplAndChoice : Formula := .and (.id gpl) (.or (.id mit) (.id apache))

theorem risk_print_gplAndChoice : gplAndChoice.Free ∧ risk gplAndChoice.print = permissive :=
  ⟨by decide, (risk_print (by decide)).1.trans (by decide)⟩

/-- The parentheses that are printed are not read. -/
theorem parentheses_not_read : gplAndChoice.Free ∧
    gplAndChoice.print = "GPL-3.0 AND (MIT OR Apache-2.0)".toList ∧ gplAndChoice.eval = strongCopyleft ∧
    risk gplAndChoice.print = permissive :=
  ⟨by decide, by decide, by decide, (risk_print_eq (by decide)).trans (by decide)⟩

end Formula

end Attribution.Expression
