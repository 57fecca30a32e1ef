/-
  Attribution.Proofs.Wording — what the phrases read.

  (1) A pattern that does not ask for the ends of lines reads a start of a text and leaves
  the rest, wherever the text stands (`Pattern.Reads`). That is what the search does with
  it (`reads_iff`).

  (2) Such a pattern is found in a text iff it reads from some place in it
  (`foundIn_iff_reads`). As the title of a line it is found iff it reads from a place that
  only white space parts from the start of a line (`foundIn_lineHead_iff`).

  (3) The characters of a phrase are read one by one, and a space in it as white space
  (`reads_spelled_cons`).

  (4) A text without the mark of a tag is judged by its phrases alone
  (`license_of_unmarked`).
-/
import Attribution.Detection
import Attribution.Proofs.Tagging

namespace Attribution

open Text
open Tag (Blank)

namespace Pattern

/-! ## (1) Reading -/

def isUnanchored : Pattern → Bool
  | lineStart | lineEnd => false
  | seq p q | alt p q => p.isUnanchored && q.isUnanchored
  | _ => true

/-- A pattern reads a start of a text and leaves the rest. -/
inductive Reads : Pattern → Text → Text → Prop
  | empty (s : Text) : Reads .empty s s
  | one {kind : Char → Bool} {x : Char} (hx : kind x = true) (r : Text) : Reads (.one kind) (x :: r) r
  | many {kind : Char → Bool} {u : Text} (hu : ∀ x ∈ u, kind x = true) (r : Text) : Reads (.many kind) (u ++ r) r
  | few {kind : Char → Bool} {u : Text} (hu : ∀ x ∈ u, kind x = true) (r : Text) : Reads (.few kind) (u ++ r) r
  | seq {p q : Pattern} {s m r : Text} : Reads p s m → Reads q m r → Reads (.seq p q) s r
  | left {p : Pattern} (q : Pattern) {s r : Text} : Reads p s r → Reads (.alt p q) s r
  | right (p : Pattern) {q : Pattern} {s r : Text} : Reads q s r → Reads (.alt p q) s r

theorem mem_stretch_iff {kind : Char → Bool} {fresh : Bool} {s r : Text} :
    (∃ fresh', ⟨fresh', r⟩ ∈ stretch kind fresh s) ↔ ∃ u, s = u ++ r ∧ ∀ x ∈ u, kind x = true := by
  constructor
  · intro ⟨fresh', h⟩
    exact mem_stretch h
  · rintro ⟨u, rfl, hu⟩
    obtain ⟨passed, fresh', heq, -⟩ := stretch_append hu fresh r
    obtain ⟨further, hcons, -⟩ := stretch_eq_cons kind fresh' r
    refine ⟨fresh', ?_⟩
    rw [heq, hcons]
    exact List.mem_append_right _ List.mem_cons_self

/-- What a pattern reads is what the search passes over, at the start of a line or not. -/
theorem reads_iff {p : Pattern} (h : p.isUnanchored = true) (fresh : Bool) {s r : Text} :
    p.Reads s r ↔ ∃ fresh', ⟨fresh', r⟩ ∈ p.ends ⟨fresh, s⟩ := by
  induction p generalizing fresh s r with
  | empty =>
    constructor
    · intro hreads
      cases hreads
      exact ⟨fresh, List.mem_singleton.mpr rfl⟩
    · intro hends
      obtain ⟨fresh', hr⟩ := hends
      cases List.mem_singleton.mp hr
      exact .empty s
  | one kind =>
    constructor
    · intro hreads
      cases hreads with
      | one hx r => exact ⟨_, by simpa only [ends, if_pos hx] using List.mem_singleton.mpr rfl⟩
    · intro hends
      obtain ⟨fresh', hr⟩ := hends
      cases s with
      | nil => cases hr
      | cons x s =>
        simp only [ends] at hr
        split at hr
        · next hx =>
          cases List.mem_singleton.mp hr
          exact .one hx _
        · cases hr
  | many kind =>
    simp only [ends, List.mem_reverse]
    rw [mem_stretch_iff]
    constructor
    · intro hreads
      cases hreads with
      | many hu r => exact ⟨_, rfl, hu⟩
    · rintro ⟨u, rfl, hu⟩
      exact .many hu r
  | few kind =>
    rw [ends, mem_stretch_iff]
    constructor
    · intro hreads
      cases hreads with
      | few hu r => exact ⟨_, rfl, hu⟩
    · rintro ⟨u, rfl, hu⟩
      exact .few hu r
  | lineStart => cases h
  | lineEnd => cases h
  | seq p q ihp ihq =>
    rw [isUnanchored, Bool.and_eq_true] at h
    simp only [mem_ends_seq]
    constructor
    · intro hreads
      cases hreads with
      | seq hp hq =>
        obtain ⟨fresh₁, h₁⟩ := (ihp h.1 fresh).mp hp
        obtain ⟨fresh₂, h₂⟩ := (ihq h.2 fresh₁).mp hq
        exact ⟨fresh₂, _, h₁, h₂⟩
    · intro hends
      obtain ⟨fresh', c, h₁, h₂⟩ := hends
      exact .seq ((ihp h.1 fresh).mpr ⟨c.fresh, h₁⟩) ((ihq h.2 c.fresh).mpr ⟨fresh', h₂⟩)
  | alt p q ihp ihq =>
    rw [isUnanchored, Bool.and_eq_true] at h
    simp only [ends, List.mem_append, exists_or, ← ihp h.1, ← ihq h.2]
    constructor
    · intro hreads
      cases hreads with
      | left _ hp => exact .inl hp
      | right _ hq => exact .inr hq
    · intro hor
      exact hor.elim (.left q) (.right p)

theorem reads_seqAll_cons {p : Pattern} {ps : List Pattern} {s r : Text} :
    (seqAll (p :: ps)).Reads s r ↔ ∃ m, p.Reads s m ∧ (seqAll ps).Reads m r := by
  cases ps with
  | nil =>
    constructor
    · intro h
      exact ⟨r, h, .empty r⟩
    · intro ⟨m, hp, hm⟩
      cases hm
      exact hp
  | cons q qs =>
    constructor
    · intro h
      cases h with
      | seq hp hq => exact ⟨_, hp, hq⟩
    · intro ⟨m, hp, hm⟩
      exact .seq hp hm

/-! ## (2) Places -/

def EndsLine (a : Text) : Prop := a = [] ∨ a.getLast? = some '\n'

/-- White space alone stands between the start of a line and the end of the text. -/
def Headed (a : Text) : Prop := ∃ b u, a = b ++ u ∧ EndsLine b ∧ Blank u

theorem headed_append_blank {a g : Text} (hg : Blank g) : Headed (a ++ g) ↔ Headed a ∨ '\n' ∈ g := by
  constructor
  · rintro ⟨b, u, h, hb, hu⟩
    rcases List.append_eq_append_iff.mp h with ⟨c, rfl, rfl⟩ | ⟨c, rfl, rfl⟩
    · rcases List.eq_nil_or_concat c with rfl | ⟨c, x, rfl⟩
      · rw [List.append_nil] at hb
        exact .inl ⟨a, [], by simp, hb, by simp [Blank]⟩
      · rw [EndsLine, List.concat_eq_append] at hb
        have hx : x = '\n' := by simpa using hb
        exact .inr (by simp [hx])
    · exact .inl ⟨b, c, rfl, hb, fun x hx => hu x (List.mem_append_left g hx)⟩
  · rintro (⟨b, u, rfl, hb, hu⟩ | hmem)
    · exact ⟨b, u ++ g, by simp, hb, List.forall_mem_append.mpr ⟨hu, hg⟩⟩
    · obtain ⟨c, d, rfl⟩ := List.append_of_mem hmem
      exact ⟨a ++ c ++ ['\n'], d, by simp, .inr (by simp), fun x hx => hg x (by simp [hx])⟩

theorem not_headed_append_visible {x : Char} (hx : isBlank x = false) (a : Text) : ¬ Headed (a ++ [x]) := by
  rintro ⟨b, u, h, hb, hu⟩
  have hlast := congrArg List.getLast? h
  rw [List.getLast?_concat] at hlast
  rcases List.eq_nil_or_concat u with rfl | ⟨u, y, rfl⟩
  · rw [List.append_nil] at hlast h
    rcases hb with rfl | hb
    · simp at h
    · rw [← hlast] at hb
      rw [Option.some.inj hb] at hx
      cases hx
  · rw [List.concat_eq_append, ← List.append_assoc, List.getLast?_concat] at hlast
    rw [Option.some.inj hlast, hu y (by simp)] at hx
    cases hx

theorem mem_cursors_iff {c : Cursor} {fresh : Bool} {s : Text} : c ∈ cursors fresh s ↔
    ∃ a, s = a ++ c.rest ∧ (c.fresh = true ↔ a = [] ∧ fresh = true ∨ a.getLast? = some '\n') := by
  induction s generalizing fresh with
  | nil =>
    rw [cursors, List.mem_singleton]
    constructor
    · rintro rfl
      exact ⟨[], rfl, by simp⟩
    · intro h
      obtain ⟨a, hs, hfresh⟩ := h
      obtain ⟨rfl, hrest⟩ := List.append_eq_nil_iff.mp hs.symm
      obtain ⟨f, r⟩ := c
      have hf : f = fresh := Bool.eq_iff_iff.mpr (by simpa using hfresh)
      rw [hf, show r = [] from hrest]
  | cons x s ih =>
    rw [cursors, List.mem_cons, ih]
    constructor
    · rintro (rfl | ⟨a, rfl, hfresh⟩)
      · exact ⟨[], rfl, by simp⟩
      · refine ⟨x :: a, rfl, hfresh.trans ?_⟩
        cases a with
        | nil => simp
        | cons y a => simp
    · rintro ⟨a, hs, hfresh⟩
      cases a with
      | nil =>
        left
        obtain ⟨f, r⟩ := c
        have hf : f = fresh := Bool.eq_iff_iff.mpr (by simpa using hfresh)
        rw [hf, hs, List.nil_append]
      | cons y a =>
        obtain ⟨rfl, rfl⟩ := List.cons.inj hs
        refine .inr ⟨a, rfl, hfresh.trans ?_⟩
        cases a with
        | nil => simp
        | cons z a => simp

theorem ends_ne_nil_iff {p : Pattern} (h : p.isUnanchored = true) (c : Cursor) :
    p.ends c ≠ [] ↔ ∃ r, p.Reads c.rest r := by
  simp only [reads_iff h c.fresh]
  constructor
  · intro hne
    obtain ⟨e, he⟩ := List.exists_mem_of_ne_nil _ hne
    exact ⟨e.rest, e.fresh, he⟩
  · rintro ⟨r, fresh, he⟩
    exact List.ne_nil_of_mem he

/-- An unanchored pattern is found iff it reads from some place on. -/
theorem foundIn_iff_reads {p : Pattern} (h : p.isUnanchored = true) {s : Text} :
    p.foundIn s = true ↔ ∃ a r r', s = a ++ r ∧ p.Reads r r' := by
  simp only [foundIn_iff, ends_ne_nil_iff h]
  constructor
  · intro ⟨c, hc, r', hreads⟩
    obtain ⟨a, hs, -⟩ := mem_cursors_iff.mp hc
    exact ⟨a, c.rest, r', hs, hreads⟩
  · rintro ⟨a, r, r', rfl, hreads⟩
    exact ⟨⟨_, r⟩, mem_cursors_iff.mpr ⟨a, rfl, decide_eq_true_iff⟩, r', hreads⟩

theorem reads_blanks_iff {p : Pattern} {s r' : Text} :
    (seqAll [many isBlank, p]).Reads s r' ↔ ∃ u r, s = u ++ r ∧ Blank u ∧ p.Reads r r' := by
  rw [reads_seqAll_cons]
  constructor
  · rintro ⟨m, hblanks, hp⟩
    cases hblanks with
    | many hu m => exact ⟨_, m, rfl, hu, hp⟩
  · rintro ⟨u, r, rfl, hu, hp⟩
    exact ⟨r, .many hu r, hp⟩

theorem ends_lineStart_ne_nil_iff {p : Pattern} (h : p.isUnanchored = true) (c : Cursor) :
    (seq lineStart p).ends c ≠ [] ↔ c.fresh = true ∧ ∃ r, p.Reads c.rest r := by
  have hends : (seq lineStart p).ends c = if c.fresh then p.ends c else [] := by
    show (lineStart.ends c).flatMap p.ends = _
    rw [ends]
    split
    · rw [List.flatMap_singleton]
    · rfl
  rw [hends]
  split
  · next hfresh => rw [ends_ne_nil_iff h, and_iff_right hfresh]
  · next hfresh => simp [hfresh]

/-- Behind the start of a line and white space, an unanchored pattern is found iff it reads from
    there on. -/
theorem foundIn_lineHead_iff {p : Pattern} (h : p.isUnanchored = true) {s : Text} :
    (seqAll [lineStart, many isBlank, p]).foundIn s = true ↔ ∃ a r r', s = a ++ r ∧ Headed a ∧ p.Reads r r' := by
  have hrest : (seqAll [many isBlank, p]).isUnanchored = true := h
  have hends : ∀ c, (seqAll [lineStart, many isBlank, p]).ends c ≠ [] ↔ _ := ends_lineStart_ne_nil_iff hrest
  simp only [foundIn_iff, hends]
  constructor
  · rintro ⟨c, hc, hfresh, r', hr'⟩
    obtain ⟨a, hs, hline⟩ := mem_cursors_iff.mp hc
    obtain ⟨u, r, hu, hblank, hp⟩ := reads_blanks_iff.mp hr'
    have hend : EndsLine a := (hline.mp hfresh).imp_left And.left
    exact ⟨a ++ u, r, r', by rw [hs, hu, List.append_assoc], ⟨a, u, rfl, hend, hblank⟩, hp⟩
  · rintro ⟨_, r, r', rfl, ⟨a, u, rfl, hend, hu⟩, hp⟩
    have hc : (⟨true, u ++ r⟩ : Cursor) ∈ cursors true (a ++ u ++ r) :=
      mem_cursors_iff.mpr ⟨a, List.append_assoc a u r, iff_of_true rfl (hend.imp_left fun ha => ⟨ha, rfl⟩)⟩
    exact ⟨_, hc, rfl, r', reads_blanks_iff.mpr ⟨u, r, rfl, hu, hp⟩⟩

end Pattern

/-! ## (3) Phrases -/

namespace Phrase

open Pattern

theorem reads_gap {s r : Text} : gap.Reads s r ↔ ∃ g, s = g ++ r ∧ g ≠ [] ∧ Blank g := by
  constructor
  · intro h
    cases h with
    | seq hone hmany =>
      cases hone with
      | one hx _ =>
        cases hmany with
        | many hu _ => exact ⟨_ :: _, rfl, List.cons_ne_nil _ _, List.forall_mem_cons.mpr ⟨hx, hu⟩⟩
  · rintro ⟨g, rfl, hne, hg⟩
    obtain ⟨x, u, rfl⟩ := List.exists_cons_of_ne_nil hne
    obtain ⟨hx, hu⟩ := List.forall_mem_cons.mp hg
    exact .seq (.one hx _) (.many hu r)

def letter (c : Char) : Pattern := if c == ' ' then gap else one (sameLetter c)

theorem spelled_eq (w : Text) : spelled w = seqAll (w.map letter) := rfl

theorem isUnanchored_letter (c : Char) : (letter c).isUnanchored = true := by
  unfold letter
  split
  · rfl
  · rfl

theorem isUnanchored_spelled (w : Text) : (spelled w).isUnanchored = true := by
  rw [spelled_eq]
  induction w with
  | nil => rfl
  | cons c w ih =>
    cases w with
    | nil => exact isUnanchored_letter c
    | cons d w => exact Bool.and_eq_true_iff.mpr ⟨isUnanchored_letter c, ih⟩

theorem reads_spelled_nil {s r : Text} : (spelled []).Reads s r ↔ s = r := by
  constructor
  · intro h
    cases h
    rfl
  · rintro rfl
    exact .empty s

theorem reads_spelled_cons {c : Char} {w s r : Text} :
    (spelled (c :: w)).Reads s r ↔ ∃ m, (letter c).Reads s m ∧ (spelled w).Reads m r :=
  reads_seqAll_cons

theorem reads_letter {c : Char} (hc : c ≠ ' ') {s r : Text} :
    (letter c).Reads s r ↔ ∃ x, s = x :: r ∧ fold x = fold c := by
  rw [letter, if_neg (by simpa using hc)]
  constructor
  · intro h
    cases h with
    | one hx r => exact ⟨_, rfl, (beq_iff_eq.mp hx).symm⟩
  · rintro ⟨x, rfl, hx⟩
    have hsame : sameLetter c x = true := beq_iff_eq.mpr hx.symm
    exact .one hsame r

theorem reads_space {s r : Text} : (letter ' ').Reads s r ↔ ∃ g, s = g ++ r ∧ g ≠ [] ∧ Blank g := reads_gap

end Phrase

/-! ## (4) Texts without a tag -/

namespace Detection

theorem behindMark_of_unmarked {s : Text} (h : mentions Tag.mark s = false) : Tag.behindMark s = none := by
  induction s with
  | nil => rfl
  | cons c s ih =>
    rw [mentions, Bool.or_eq_false_iff] at h
    rw [Tag.behindMark, h.1, ih h.2]
    rfl

/-- A text without the mark of a tag is judged by its phrases. -/
theorem license_of_unmarked {s : Text} (h : mentions Tag.mark s = false) : license s = byPhrase s := by
  have hnone : Tag.find? s = none := by
    rw [Tag.find?, Pattern.capture?_eq, Tag.findSome?_captureAt, behindMark_of_unmarked h]
    rfl
  rw [license, hnone, Option.orElse_eq_orElse, Option.orElse_eq_or, Option.none_or]

end Detection

end Attribution
