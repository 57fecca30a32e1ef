/-
  Attribution.Proofs.Surrounding — a license text among other text.

  (1) What a pattern reads at the start of a text it reads in front of any more text
  (`Reads.append`), and what heads a line still heads it below other lines
  (`Headed.below`).

  (2) So a phrase found in a text is found wherever the text starts on a line of its own, no
  matter what follows (`Portable.foundIn_surrounded`). No phrase looks ahead, and a title
  looks back no further than to the start of its line.

  (3) The phrase that decides is never further down the list than one that is found
  (`exists_byPhrase_eq`). So text around a license that is recognized leaves it recognized,
  as that license or as one that is tried before it (`license_surrounded`).
-/
import Attribution.Proofs.Rewrapping
import Mathlib.Data.List.Nodup

namespace Attribution

open Text
open Pattern (EndsLine Headed)

namespace Pattern

/-! ## (1) More text -/

/-- What is read is read whatever follows. -/
theorem Reads.append {p : Pattern} {s r : Text} (h : p.Reads s r) (b : Text) : p.Reads (s ++ b) (r ++ b) := by
  induction h with
  | empty s => exact .empty _
  | one hx r => exact .one hx _
  | many hu r =>
    rw [List.append_assoc]
    exact .many hu _
  | few hu r =>
    rw [List.append_assoc]
    exact .few hu _
  | seq _ _ ihp ihq => exact .seq ihp ihq
  | left q _ ih => exact .left q ih
  | right p _ ih => exact .right p ih

/-- Whole lines in front of a line start leave it a line start. -/
theorem EndsLine.append {a b : Text} (ha : EndsLine a) (hb : EndsLine b) : EndsLine (a ++ b) := by
  rcases hb with rfl | hlast
  · rwa [List.append_nil]
  · right
    rw [List.getLast?_append, hlast, Option.some_or]

theorem Headed.below {a t : Text} (ht : Headed t) (ha : EndsLine a) : Headed (a ++ t) := by
  obtain ⟨b, u, rfl, hb, hu⟩ := ht
  exact ⟨a ++ b, u, (List.append_assoc a b u).symm, ha.append hb, hu⟩

/-! ## (2) Phrases -/

/-- A phrase found in a text is found in any text that has it on lines of its own. -/
theorem Portable.foundIn_surrounded {p : Pattern} (hp : Portable p) {a t : Text} (ha : EndsLine a) (b : Text)
    (hfound : p.foundIn t = true) : p.foundIn (a ++ t ++ b) = true := by
  have hsplit : ∀ c r : Text, a ++ (c ++ r) ++ b = a ++ c ++ (r ++ b) := by simp
  cases hp with
  | body h =>
    obtain ⟨c, r, r', rfl, hreads⟩ := (foundIn_iff_reads h.unanchored).mp hfound
    exact (foundIn_iff_reads h.unanchored).mpr ⟨a ++ c, r ++ b, r' ++ b, hsplit c r, hreads.append b⟩
  | title h =>
    obtain ⟨c, r, r', rfl, hhead, hreads⟩ := (foundIn_lineHead_iff h.unanchored).mp hfound
    exact (foundIn_lineHead_iff h.unanchored).mpr
      ⟨a ++ c, r ++ b, r' ++ b, hsplit c r, hhead.below ha, hreads.append b⟩

end Pattern

/-! ## (3) The phrase that decides -/

namespace Detection

theorem nodup_ids : (Phrase.all.map Phrase.id).Nodup := by decide

/-- A phrase that is found is the one that decides, or one that is tried before it does. -/
theorem exists_byPhrase_eq {s : Text} {i : Fin Phrase.all.length} (hfound : Phrase.all[i].pattern.foundIn s = true) :
    ∃ j ≤ i, byPhrase s = some Phrase.all[j].id := by
  have hsome : (Phrase.all.find? fun p => p.pattern.foundIn s).isSome = true :=
    List.find?_isSome.mpr ⟨_, List.getElem_mem i.isLt, hfound⟩
  obtain ⟨x, hx⟩ := Option.isSome_iff_exists.mp hsome
  obtain ⟨-, j, hj, rfl, hbefore⟩ := List.find?_eq_some_iff_getElem.mp hx
  refine ⟨⟨j, hj⟩, ?_, congrArg (Option.map Phrase.id) hx⟩
  by_contra hlt
  have hmissing := hbefore i (not_le.mp hlt)
  rw [Bool.not_eq_true'] at hmissing
  exact Bool.false_ne_true (hmissing.symm.trans hfound)

/-- The phrase whose license is named is found. -/
theorem foundIn_of_byPhrase_eq {s : Text} {i : Fin Phrase.all.length} (h : byPhrase s = some Phrase.all[i].id) :
    Phrase.all[i].pattern.foundIn s = true := by
  obtain ⟨x, hx, hid⟩ := Option.map_eq_some_iff.mp h
  have hx' := List.inj_on_of_nodup_map nodup_ids (List.mem_of_find?_eq_some hx) (List.getElem_mem i.isLt) hid
  have hfound := List.find?_some hx
  rwa [hx'] at hfound

/-- A license that is recognized in a text without a tag stays recognized among other text without
    one, if it stands on lines of its own: as the same license, or as one whose phrase is tried before.
    (The text itself has no tag if the whole has none.) -/
theorem license_surrounded {a t b : Text} (ha : EndsLine a) (h : mentions Tag.mark (a ++ t ++ b) = false)
    {i : Fin Phrase.all.length} (hlicense : license t = some Phrase.all[i].id) :
    ∃ j ≤ i, license (a ++ t ++ b) = some Phrase.all[j].id := by
  have ht : mentions Tag.mark t = false := by
    rw [mentions_eq_false_iff] at h ⊢
    exact fun hin => h (hin.trans ⟨a, b, rfl⟩)
  rw [license_of_unmarked ht] at hlicense
  rw [license_of_unmarked h]
  have hportable := Phrase.portable_of_mem_all _ (List.getElem_mem i.isLt)
  exact exists_byPhrase_eq (hportable.foundIn_surrounded ha b (foundIn_of_byPhrase_eq hlicense))

/-- A license of two clauses, below a line of its own and above what makes a third. -/
theorem license_surrounded_clauses :
    license "Redistribution and use in source and binary forms".toList = some "BSD-2-Clause".toList ∧
      ∃ j ≤ (⟨15, by decide⟩ : Fin Phrase.all.length), license ("Copyright 2020\n".toList ++
        "Redistribution and use in source and binary forms".toList ++ "\nNeither the name".toList) =
          some Phrase.all[j].id := by
  have htwo : license "Redistribution and use in source and binary forms".toList = some "BSD-2-Clause".toList := by
    decide +kernel
  exact ⟨htwo, license_surrounded (.inr (by decide)) (by decide +kernel) htwo⟩

end Detection

end Attribution
