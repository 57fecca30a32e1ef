/-
  Attribution.Proofs.Naming — where the name of a tag stands.

  (1) A name stands in the line of a tag if no line break parts it from the mark, something
  in it is visible, and no white space is at its ends (`InLine`). A line of white space has
  no such name (`InLine.not_blank_line`); a line with something visible has the name that is
  read from it (`inLine_of_visible`).

  (2) A tag whose line has nothing visible is empty. Read line by line, an empty tag is none,
  and the first other one counts (`firstInLine?`).

  (3) The search does not stop at the end of the line: behind an empty tag it goes on to the
  next thing that is visible, or names the last white space (`Strays`). That is the one case
  in which a name is not in the line of its tag; in all others tags are read line by line
  (`license_tag`).
-/
import Attribution.Proofs.Wording

namespace Attribution

open Text

namespace Tag

/-! ## (1) Names in a line -/

structure InLine (r name : Text) : Prop where
  visible : ¬ Blank name
  trimmed : trim name = name
  placed : ∃ gap rest, r = gap ++ name ++ rest ∧ '\n' ∉ gap ++ name

theorem notNewline_of_not_mem {s : Text} (h : '\n' ∉ s) : ∀ c ∈ s, notNewline c = true := by
  intro c hc
  rw [notNewline, bne_iff_ne]
  intro heq
  exact h (heq ▸ hc)

theorem InLine.not_blank_line {r name : Text} (h : InLine r name) : ¬ Blank (line r) := by
  obtain ⟨gap, rest, hr, hnone⟩ := h.placed
  intro hblank
  rw [hr, line_append (notNewline_of_not_mem hnone)] at hblank
  exact h.visible fun c hc => hblank c (List.mem_append_left _ (List.mem_append_right gap hc))

/-- White space, if any, stands before the first visible character. -/
theorem exists_visible_of_not_blank {s : Text} (h : ¬ Blank s) :
    ∃ u x t, s = u ++ x :: t ∧ Blank u ∧ isBlank x = false ∧ s.dropWhile isBlank = x :: t := by
  have hs := (List.takeWhile_append_dropWhile (p := isBlank) (l := s)).symm
  cases ht : s.dropWhile isBlank with
  | nil => exact absurd (List.dropWhile_eq_nil_iff.mp ht) h
  | cons x t =>
    have hx := List.head?_dropWhile_not isBlank s
    rw [ht] at hs hx
    exact ⟨_, x, t, hs, fun _ => List.mem_takeWhile_imp, by simpa using hx, rfl⟩

theorem not_mem_newline_line (s : Text) : '\n' ∉ line s := by
  intro h
  have := List.mem_takeWhile_imp h
  cases this

/-- What is read behind white space in a line is a name in the line. -/
theorem inLine_of_visible {u t : Text} {x : Char} (hno : '\n' ∉ u) (hx : isBlank x = false) :
    InLine (u ++ x :: t) (withoutCloser (trimEnd (line (x :: t)))) := by
  have hline := line_cons_of_visible hx t
  have hnot : ¬ Blank (line (x :: t)) := by
    intro hblank
    rw [hblank x (hline ▸ List.mem_cons_self)] at hx
    cases hx
  obtain ⟨q, hsplit, -, d', e, hname, he⟩ := exists_name hnot
  obtain ⟨r, hr, -, -⟩ := exists_eq_line_append (x :: t)
  have hnone := not_mem_newline_line (x :: t)
  generalize withoutCloser (trimEnd (line (x :: t))) = name at hsplit hname ⊢
  obtain ⟨y, name', hcons⟩ := List.exists_cons_of_ne_nil (show name ≠ [] by simp [hname])
  have hy : y = x := by
    rw [hline, hcons] at hsplit
    exact (List.cons.inj hsplit).1.symm
  refine ⟨?_, ?_, u, q ++ r, ?_, ?_⟩
  · intro hblank
    rw [hblank e (by simp [hname])] at he
    cases he
  · have hfirst : ∃ x t, name = x :: t ∧ isBlank x = false := ⟨y, name', hcons, hy ▸ hx⟩
    have htrim := Expression.trim_append (u := []) (v := []) (by simp) (by simp) hfirst ⟨d', e, hname, he⟩
    simpa using htrim
  · rw [hr, hsplit]
    simp
  · rw [hsplit, List.mem_append, not_or] at hnone
    simp only [List.mem_append, not_or]
    exact ⟨hno, hnone.1⟩

/-! ## (2) Reading line by line -/

/-- What is named by the first tag with something visible in its line. -/
def firstInLine? : Text → Option Text
  | [] => none
  | c :: s =>
    if mark.isPrefixOf (c :: s) then
      let rest := trim (line ((c :: s).drop mark.length))
      if rest = [] then firstInLine? s else some (withoutCloser rest)
    else firstInLine? s

theorem firstInLine?_eq_none {s : Text} (h : ∀ t, t <:+ s → ¬ mark <+: t) : firstInLine? s = none := by
  induction s with
  | nil => rfl
  | cons c s ih =>
    have hno := h (c :: s) (List.suffix_refl _)
    rw [firstInLine?, if_neg (fun hp => hno (List.isPrefixOf_iff_prefix.mp hp))]
    exact ih fun t ht => h t (ht.trans (List.suffix_cons c s))

theorem no_mark_of_behindMark {s : Text} (hs : behindMark s = none) : ∀ t, t <:+ s → ¬ mark <+: t := by
  induction s with
  | nil =>
    intro t ht
    rw [List.suffix_nil.mp ht]
    decide
  | cons c s ih =>
    rw [behindMark] at hs
    split at hs
    · cases hs
    · next hno =>
      intro t ht
      rcases List.suffix_cons_iff.mp ht with rfl | ht
      · exact fun hp => hno (List.isPrefixOf_iff_prefix.mpr hp)
      · exact ih hs t ht

/-- Behind the first mark, what its line has decides, if it has something visible. -/
theorem firstInLine?_of_visible {s r : Text} (hs : behindMark s = some r) (h : trim (line r) ≠ []) :
    firstInLine? s = some (withoutCloser (trim (line r))) := by
  induction s with
  | nil => cases hs
  | cons c s ih =>
    rw [behindMark] at hs
    rw [firstInLine?]
    split at hs
    · next hm =>
      obtain rfl := Option.some.inj hs
      rw [if_pos hm, if_neg h]
    · next hm =>
      rw [if_neg hm]
      exact ih hs

/-- Behind the first mark with line breaks only, there is no further one. -/
theorem firstInLine?_of_newlines {s r : Text} (hs : behindMark s = some r) (h : r.all (· == '\n') = true) :
    firstInLine? s = none := by
  induction s with
  | nil => rfl
  | cons c s ih =>
    rw [behindMark] at hs
    rw [firstInLine?]
    split at hs
    · next hm =>
      obtain ⟨r', hr'⟩ := List.isPrefixOf_iff_prefix.mp hm
      obtain rfl : r' = r := by
        rw [← hr', List.drop_left] at hs
        exact Option.some.inj hs
      have hblank : trim (line ((c :: s).drop mark.length)) = [] := by
        rw [← hr', List.drop_left, line_eq_nil (atLineEnd_of_newlines (by simpa using h))]
        rfl
      rw [if_pos hm, if_pos hblank]
      exact firstInLine?_eq_none fun t ht => no_mark_of_newlines hr'.symm h ht
    · next hm =>
      rw [if_neg hm]
      exact ih hs

/-! ## (3) Names elsewhere -/

/-- The first tag is empty, and something other than line breaks stands behind it. -/
def Strays (s : Text) : Prop := ∃ r, behindMark s = some r ∧ Blank (line r) ∧ ∃ c ∈ r, c ≠ '\n'

/-- In a line with something visible, the name is read from the line alone. -/
theorem read?_of_line {r : Text} (h : ¬ Blank (line r)) :
    read? r = some (withoutCloser (trim (line r))) ∧ InLine r (withoutCloser (trim (line r))) := by
  have hr : ¬ Blank r := fun hr => h fun c hc => hr c ((List.takeWhile_prefix _).subset hc)
  obtain ⟨u, x, t, rfl, hu, hx, hdrop⟩ := exists_visible_of_not_blank hr
  have hline : line (u ++ x :: t) = u ++ line (x :: t) := (line_blank_append hu (x :: t)).resolve_left h
  have hno : '\n' ∉ u := fun hmem => not_mem_newline_line _ (hline ▸ List.mem_append_left _ hmem)
  have htrim : trim (line (u ++ x :: t)) = trimEnd (line (x :: t)) := by
    rw [trim, hline, trimStart, line_cons_of_visible hx, Expression.dropWhile_append_cons hu hx]
  have hall : ¬ (u ++ x :: t).all (· == '\n') = true := by
    intro hall
    have hbreak := List.all_eq_true.mp hall x (by simp)
    rw [beq_iff_eq.mp hbreak] at hx
    cases hx
  rw [htrim]
  refine ⟨?_, inLine_of_visible hno hx⟩
  rw [read?, if_neg hall, hdrop]

/-- Behind an empty tag, what is named is blank or stands in a line further down. -/
theorem read?_of_stray {r : Text} (hline : Blank (line r)) (h : ∃ c ∈ r, c ≠ '\n') :
    ∃ name, read? r = some name ∧
      (Blank name ∨ ∃ above below, r = above ++ below ∧ '\n' ∈ above ∧ InLine below name) := by
  obtain ⟨c, hc, hne⟩ := h
  have hall : ¬ r.all (· == '\n') = true := fun hall => hne (beq_iff_eq.mp (List.all_eq_true.mp hall c hc))
  by_cases hr : Blank r
  · have hmem : c ∈ r.filter notNewline := List.mem_filter.mpr ⟨hc, bne_iff_ne.mpr hne⟩
    obtain ⟨x, hx⟩ := Option.isSome_iff_exists.mp (List.getLast?_isSome.mpr (List.ne_nil_of_mem hmem))
    have hxr : x ∈ r := (List.mem_filter.mp (List.mem_of_getLast? hx)).1
    refine ⟨[x], ?_, .inl fun y hy => ?_⟩
    · rw [read?, if_neg hall, List.dropWhile_eq_nil_iff.mpr hr, hx]
      rfl
    · rw [List.mem_singleton.mp hy]
      exact hr x hxr
  · obtain ⟨u, x, t, rfl, hu, hx, hdrop⟩ := exists_visible_of_not_blank hr
    have hname : InLine (x :: t) (withoutCloser (trimEnd (line (x :: t)))) := inLine_of_visible (u := []) (by simp) hx
    refine ⟨_, ?_, .inr ⟨u, x :: t, rfl, ?_, hname⟩⟩
    · rw [read?, if_neg hall, hdrop]
    · -- Without a line break before it, something in the line of the tag would be visible.
      by_contra hno
      have := inLine_of_visible (t := t) hno hx
      exact this.not_blank_line hline

/-- Unless the first tag is such an empty one, the search reads line by line. -/
theorem find?_of_not_strays {s : Text} (h : ¬ Strays s) :
    find? s = firstInLine? s ∧ ∀ name, find? s = some name → ∃ r, behindMark s = some r ∧ InLine r name := by
  rw [find?_eq_read]
  cases hs : behindMark s with
  | none =>
    rw [firstInLine?_eq_none (no_mark_of_behindMark hs)]
    exact ⟨rfl, nofun⟩
  | some r =>
    rw [Option.bind_some]
    by_cases hline : Blank (line r)
    · have hall : r.all (· == '\n') = true := by
        rw [List.all_eq_true]
        intro c hc
        by_contra hne
        exact h ⟨r, hs, hline, c, hc, fun heq => hne (beq_iff_eq.mpr heq)⟩
      rw [read?_eq_none_iff.mpr hall, firstInLine?_of_newlines hs hall]
      exact ⟨rfl, nofun⟩
    · obtain ⟨hread, hname⟩ := read?_of_line hline
      have hne : trim (line r) ≠ [] := by
        intro hnil
        rw [hnil, show withoutCloser [] = [] by decide] at hname
        exact hname.visible nofun
      rw [hread, firstInLine?_of_visible hs hne]
      refine ⟨rfl, fun name heq => ⟨r, rfl, ?_⟩⟩
      rwa [← Option.some.inj heq]

end Tag

namespace Detection

open Tag (Blank InLine Strays behindMark firstInLine? line)

/-- What a tag names is a visible name in the line of the tag iff the first tag does not stray;
    then empty tags are none, and what the first other one names decides, or the phrases. A tag
    that strays names something blank, or something in a line further down. -/
theorem license_tag (s : Text) :
    ((∀ name, Tag.find? s = some name → ∃ r, behindMark s = some r ∧ InLine r name) ↔ ¬ Strays s) ∧
    (¬ Strays s → license s = (firstInLine? s).or (byPhrase s)) ∧
    (Strays s → ∃ r name, behindMark s = some r ∧ license s = some name ∧ ¬ InLine r name ∧
      (Blank name ∨ ∃ above below, r = above ++ below ∧ '\n' ∈ above ∧ InLine below name)) := by
  have hlicense : license s = (Tag.find? s).or (byPhrase s) := by
    rw [license, Option.orElse_eq_orElse, Option.orElse_eq_or]
  have hstray : Strays s → ∃ r name, behindMark s = some r ∧ Tag.find? s = some name ∧ ¬ InLine r name ∧
      (Blank name ∨ ∃ above below, r = above ++ below ∧ '\n' ∈ above ∧ InLine below name) := by
    rintro ⟨r, hr, hline, hvisible⟩
    obtain ⟨name, hread, hwhere⟩ := Tag.read?_of_stray hline hvisible
    refine ⟨r, name, hr, ?_, fun h => h.not_blank_line hline, hwhere⟩
    rw [Tag.find?_eq_read, hr, Option.bind_some, hread]
  refine ⟨⟨fun hall h => ?_, fun h => (Tag.find?_of_not_strays h).2⟩, fun h => ?_, fun h => ?_⟩
  · obtain ⟨r, name, hr, hfind, hnot, -⟩ := hstray h
    obtain ⟨r', hr', hname⟩ := hall name hfind
    rw [hr] at hr'
    exact hnot (Option.some.inj hr' ▸ hname)
  · rw [hlicense, (Tag.find?_of_not_strays h).1]
  · obtain ⟨r, name, hr, hfind, hnot, hwhere⟩ := hstray h
    exact ⟨r, name, hr, by rw [hlicense, hfind, Option.some_or], hnot, hwhere⟩

def emptyTag : Text := "SPDX-License-Identifier:\nGNU GENERAL PUBLIC LICENSE\nVersion 2, June 1991\n".toList

theorem strays_emptyTag : Strays emptyTag :=
  ⟨"\nGNU GENERAL PUBLIC LICENSE\nVersion 2, June 1991\n".toList, by decide, nofun, 'G', by decide, by decide⟩

theorem license_tag_emptyTag :
    ∃ r name, behindMark emptyTag = some r ∧ license emptyTag = some name ∧ ¬ InLine r name := by
  obtain ⟨r, name, hr, hname, hnot, -⟩ := (license_tag emptyTag).2.2 strays_emptyTag
  exact ⟨r, name, hr, hname, hnot⟩

/-- An empty tag takes the next line for its name, where the phrases would know the license and
    where the next tag would be read; and a tag with one space in its line names the space. -/
theorem empty_tag_not_skipped :
    (byPhrase emptyTag = some "GPL-2.0".toList ∧ firstInLine? emptyTag = none ∧
      license emptyTag = some "GNU GENERAL PUBLIC LICENSE".toList) ∧
    (firstInLine? "SPDX-License-Identifier:\nSPDX-License-Identifier: MIT".toList = some "MIT".toList ∧
      license "SPDX-License-Identifier:\nSPDX-License-Identifier: MIT".toList =
        some "SPDX-License-Identifier: MIT".toList) ∧
    license "SPDX-License-Identifier: ".toList = some " ".toList := by
  refine ⟨⟨?_, ?_, ?_⟩, ⟨?_, ?_⟩, ?_⟩
  all_goals decide +kernel

end Detection

end Attribution
