/-
  Attribution.Proofs.Recovering — the licenses behind a combined expression.

  (1) Texts joined by a word between spaces are cut apart again if the word is none of their
  own (`splitOn_intercalate_spaced`).

  (2) The distinct elements of a list in the order in which they are first seen (`FirstSeen`)
  are those that combining keeps, and no other list is (`firstSeen_iff`).

  (3) The parentheses around a choice are told from those of the choice itself: only a piece
  with an OR in it has got any (`ungrouped_grouped`). So the licenses that were combined are
  read off the expression (`parts`), and no two lists of different licenses have the same
  expression (`combine_firstSeen`).
-/
import Attribution.Proofs.Combining
import Mathlib.Data.List.Induction

namespace Attribution

namespace Text

/-! ## (1) Joined texts -/

variable {w : Text}

theorem splitOn_intercalate_spaced (hw : ' ' ∉ w) (hne : w ≠ []) {ps : List Text} (hps : ps ≠ [])
    (h : ∀ p ∈ ps, w ∉ words p) : splitOn (spaced w) (List.intercalate (spaced w) ps) = ps := by
  have hcut : ∀ p : Text, w ∉ words p → ¬ spaced w <:+: p ++ (spaced w).dropLast := by
    intro p hp hin
    exact hp (mem_words_of_spaced_dropLast hw hne hin)
  induction ps with
  | nil => exact absurd rfl hps
  | cons p ps ih =>
    obtain ⟨hp, h⟩ := List.forall_mem_cons.mp h
    by_cases hrest : ps = []
    · rw [hrest, List.intercalate_singleton]
      exact splitOn_eq_self fun hin => hp (mem_words_of_spaced hw hin)
    · have ih := ih hrest h
      obtain ⟨q, qs, hq⟩ := List.exists_cons_of_ne_nil hrest
      rw [hq, List.intercalate_cons_cons, ← hq, List.append_assoc,
        splitOn_append_sep (by simp [spaced]) (hcut p hp), ih]

end Text

namespace Detection

open Text Expression

/-! ## (2) First seen -/

structure FirstSeen (ids ds : List Text) : Prop where
  mem_iff : ∀ id, id ∈ ds ↔ id ∈ ids
  ordered : ds.Pairwise fun a b => ids.idxOf a < ids.idxOf b

theorem FirstSeen.nodup {ids ds : List Text} (h : FirstSeen ids ds) : ds.Nodup := by
  refine h.ordered.imp fun hlt heq => ?_
  rw [heq] at hlt
  exact Nat.lt_irrefl _ hlt

theorem FirstSeen.unique {ids ds ds' : List Text} (h : FirstSeen ids ds) (h' : FirstSeen ids ds') : ds = ds' := by
  have hperm : ds.Perm ds' := (List.perm_ext_iff_of_nodup h.nodup h'.nodup).mpr fun id => by
    rw [h.mem_iff, h'.mem_iff]
  refine hperm.eq_of_pairwise ?_ h.ordered h'.ordered
  intro a b _ _ hab hba
  exact absurd hab (Nat.lt_asymm hba)

theorem firstSeen_eraseDups (ids : List Text) : FirstSeen ids ids.eraseDups where
  mem_iff _ := List.mem_eraseDups
  ordered := by
    induction ids using List.reverseRecOn with
    | nil => exact .nil
    | append_singleton ids id ih =>
      have hold : ∀ a ∈ ids, (ids ++ [id]).idxOf a = ids.idxOf a := fun a ha => by
        rw [List.idxOf_append, if_pos ha]
      have hkept : ids.eraseDups.Pairwise fun a b => (ids ++ [id]).idxOf a < (ids ++ [id]).idxOf b := by
        refine ih.imp_of_mem fun ha hb hlt => ?_
        rwa [hold _ (List.mem_eraseDups.mp ha), hold _ (List.mem_eraseDups.mp hb)]
      rw [List.eraseDups_append]
      by_cases hid : id ∈ ids
      · have hgone : [id].removeAll ids = [] := by simp [List.removeAll, hid]
        rw [hgone, List.eraseDups_nil, List.append_nil]
        exact hkept
      · have hleft : [id].removeAll ids = [id] := by simp [List.removeAll, hid]
        rw [hleft, show [id].eraseDups = [id] from rfl, List.pairwise_append]
        refine ⟨hkept, List.pairwise_singleton _ _, fun a ha b hb => ?_⟩
        have ha : a ∈ ids := List.mem_eraseDups.mp ha
        rw [List.mem_singleton.mp hb, hold a ha, List.idxOf_append, if_neg hid]
        exact Nat.lt_of_lt_of_le (List.idxOf_lt_length_iff.mpr ha) (Nat.le_add_left _ _)

theorem firstSeen_iff {ids ds : List Text} : FirstSeen ids ds ↔ ds = ids.eraseDups := by
  constructor
  · intro h
    exact h.unique (firstSeen_eraseDups ids)
  · intro h
    rw [h]
    exact firstSeen_eraseDups ids

/-! ## (3) Taking apart -/

/-- AND is none of the words of the license. -/
def Undivided (id : Text) : Prop := Joint.and.key ∉ words id

instance : DecidablePred Undivided := fun id => inferInstanceAs (Decidable (Joint.and.key ∉ words id))

def ungrouped (p : Text) : Text := if mentions orWord p then p.tail.dropLast else p

def parts (e : Text) : List Text :=
  let pieces := splitOn andWord e
  if 2 ≤ pieces.length then pieces.map ungrouped else pieces

theorem ungrouped_grouped (id : Text) : ungrouped (grouped id) = id := by
  rw [grouped]
  by_cases hor : mentions orWord id = true
  · have hin : mentions orWord ('(' :: id ++ [')']) = true := mentions_mono hor ⟨['('], [')'], rfl⟩
    rw [if_pos hor, ungrouped, if_pos hin]
    simp
  · rw [if_neg hor, ungrouped, if_neg hor]

/-- The parentheses make no word AND. -/
theorem Undivided.grouped {id : Text} (h : Undivided id) : Undivided (grouped id) := by
  rw [Detection.grouped]
  split
  · intro hw
    have hframed : Joint.and.key ∈ words (['('] ++ id ++ [')']) := hw
    refine h (mem_words_of_framed Joint.and.firm ?_ ?_ hframed)
    · exact List.forall_mem_singleton.mpr rfl
    · exact List.forall_mem_singleton.mpr rfl
  · exact h

section Apart

variable {ids : List Text} {e : Text} (h : ∀ id ∈ ids, Undivided id) (he : combine ids = some e)

include h he

theorem splitOn_combine :
    splitOn andWord e = if 2 ≤ ids.eraseDups.length then ids.eraseDups.map grouped else ids.eraseDups := by
  have hd : ∀ id ∈ ids.eraseDups, Undivided id := fun id hid => h id (List.mem_eraseDups.mp hid)
  have hne : ids ≠ [] := by
    intro hnil
    rw [combine_eq_none_iff.mpr hnil] at he
    cases he
  rcases combine_cases hne with ⟨id, hone, hc⟩ | ⟨hseveral, hc⟩
  · obtain rfl : id = e := Option.some.inj (hc.symm.trans he)
    rw [hone] at hd ⊢
    exact splitOn_eq_self fun hin =>
      hd id (List.mem_singleton.mpr rfl) (mem_words_of_spaced Joint.and.space_not_mem_key hin)
  · obtain rfl := Option.some.inj (hc.symm.trans he)
    have hds : ids.eraseDups.map grouped ≠ [] := mt List.map_eq_nil_iff.mp (eraseDups_ne_nil hne)
    rw [if_pos hseveral]
    refine splitOn_intercalate_spaced Joint.and.space_not_mem_key Joint.and.key_ne_nil hds ?_
    exact List.forall_mem_map.mpr fun id hid => (hd id hid).grouped

/-- The licenses are read off what they are combined to. -/
theorem parts_combine : parts e = ids.eraseDups := by
  rw [parts, splitOn_combine h he]
  by_cases hseveral : 2 ≤ ids.eraseDups.length
  · have hback : (ids.eraseDups.map grouped).map ungrouped = ids.eraseDups := by
      rw [List.map_map]
      exact List.map_id'' ungrouped_grouped _
    rw [if_pos hseveral, List.length_map, if_pos hseveral, hback]
  · rw [if_neg hseveral, if_neg hseveral]

end Apart

/-- Licenses without the word AND are combined to an expression iff there are any. Cut at its ANDs,
    the expression gives the distinct licenses in the order in which they are first seen, with
    parentheses around those that are a choice if there are several; and they can be read off it.
    So lists are combined to the same expression iff they have the same distinct licenses, first
    seen in the same order. -/
theorem combine_firstSeen {ids ds : List Text} (hds : FirstSeen ids ds) (h : ∀ id ∈ ids, Undivided id) :
    (combine ids = none ↔ ids = []) ∧
    (∀ e, combine ids = some e → parts e = ds ∧ splitOn andWord e =
      ds.map fun id => if mentions orWord id = true ∧ 2 ≤ ds.length then '(' :: id ++ [')'] else id) ∧
    ∀ ids' ds', FirstSeen ids' ds' → (∀ id ∈ ids', Undivided id) →
      (combine ids = combine ids' ↔ ds = ds') := by
  obtain rfl := firstSeen_iff.mp hds
  refine ⟨combine_eq_none_iff, ?_, ?_⟩
  · intro e he
    refine ⟨parts_combine h he, (splitOn_combine h he).trans ?_⟩
    by_cases hseveral : 2 ≤ ids.eraseDups.length
    · rw [if_pos hseveral]
      exact List.map_congr_left fun id _ => by simp [grouped, hseveral]
    · rw [if_neg hseveral]
      simp [hseveral]
  · intro ids' ds' hds' h'
    obtain rfl := firstSeen_iff.mp hds'
    constructor
    · intro hsame
      cases he : combine ids with
      | none =>
        have hnil := combine_eq_none_iff.mp he
        have hnil' := combine_eq_none_iff.mp (hsame.symm.trans he)
        rw [hnil, hnil']
      | some e => rw [← parts_combine h he, ← parts_combine h' (hsame.symm.trans he)]
    · intro hds
      rw [combine, combine, hds]

def choiceTwice : List Text := ["MIT OR Apache-2.0".toList, "Zlib".toList, "MIT OR Apache-2.0".toList]

theorem combine_firstSeen_choiceTwice :
    FirstSeen choiceTwice ["MIT OR Apache-2.0".toList, "Zlib".toList] ∧ (∀ id ∈ choiceTwice, Undivided id) ∧
      combine choiceTwice = some "(MIT OR Apache-2.0) AND Zlib".toList ∧
      parts "(MIT OR Apache-2.0) AND Zlib".toList = ["MIT OR Apache-2.0".toList, "Zlib".toList] := by
  have hds : FirstSeen choiceTwice ["MIT OR Apache-2.0".toList, "Zlib".toList] := firstSeen_iff.mpr (by decide)
  have h : ∀ id ∈ choiceTwice, Undivided id := by decide
  have he : combine choiceTwice = some "(MIT OR Apache-2.0) AND Zlib".toList := by decide
  obtain ⟨-, hparts, -⟩ := combine_firstSeen hds h
  exact ⟨hds, h, he, (hparts _ he).1⟩

-- A license with the word AND in it cannot be told from two.
example : combine ["MIT AND Zlib".toList] = combine ["MIT".toList, "Zlib".toList] := by decide

end Detection

end Attribution
