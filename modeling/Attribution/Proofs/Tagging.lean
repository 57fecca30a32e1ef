/-
  Attribution.Proofs.Tagging — what a tag names, read directly.

  (1) The direct reading (`behindMark`, `read?`). What counts is the text behind the
  first mark. It names what stands from its first visible character to the end of the
  line, without the white space there and without the end of a comment. Where
  nothing is visible, the last white space that is no newline is what is named.

  (2) The end of a comment and the white space around it: what may follow a name on its
  line (`closing_ends_ne_nil_iff`), and the shortest start of a line that it can follow
  (`exists_name`).

  (3) The tag pattern finds what the direct reading finds (`find?_eq_read`).
-/
import Attribution.Detection.Tag
import Attribution.Proofs.Matching
import Attribution.Proofs.Rating
import Mathlib.Data.List.DropRight

namespace Attribution.Tag

open Text Pattern

/-! ## (1) The direct reading -/

def behindMark : Text → Option Text
  | [] => none
  | c :: s => if mark.isPrefixOf (c :: s) then some ((c :: s).drop mark.length) else behindMark s

def closer : Text := "*/".toList

/-- A text without an end of a comment and the white space before it, if something is
    left. -/
def withoutCloser (l : Text) : Text :=
  if closer.isSuffixOf l then
    let rest := trimEnd (l.take (l.length - closer.length))
    if rest = [] then l else rest
  else l

def line (s : Text) : Text := s.takeWhile notNewline

def read? (r : Text) : Option Text :=
  if r.all (· == '\n') then none
  else match r.dropWhile isBlank with
    | [] => (r.filter notNewline).getLast?.map ([·])
    | visible => some (withoutCloser (trimEnd (line visible)))

/-! ## (2) Ends of lines -/

def Blank (s : Text) : Prop := ∀ c ∈ s, isBlank c = true

/-- White space with at most one end of a comment in it. -/
def Closes (l : Text) : Prop :=
  ∃ u v, Blank u ∧ Blank v ∧ (l = u ++ v ∨ l = u ++ closer ++ v)

def AtLineEnd (s : Text) : Prop := s.head?.all (· == '\n') = true

theorem line_append {a : Text} (h : ∀ c ∈ a, notNewline c = true) (b : Text) : line (a ++ b) = a ++ line b :=
  List.takeWhile_append_of_pos h

theorem line_eq_nil {s : Text} (h : AtLineEnd s) : line s = [] := by
  cases s with
  | nil => rfl
  | cons c s =>
    have hc : notNewline c = false := by simpa [AtLineEnd, notNewline, bne] using h
    rw [line, List.takeWhile_cons, hc]
    rfl

theorem atLineEnd_of_newlines {s : Text} (h : ∀ c ∈ s, c = '\n') : AtLineEnd s := by
  cases s with
  | nil => rfl
  | cons c s => simp [AtLineEnd, h c List.mem_cons_self]

theorem line_append_of_atLineEnd {a b : Text} (ha : ∀ c ∈ a, notNewline c = true) (hb : AtLineEnd b) :
    line (a ++ b) = a := by
  rw [line_append ha, line_eq_nil hb, List.append_nil]

theorem exists_eq_line_append (s : Text) :
    ∃ r, s = line s ++ r ∧ AtLineEnd r ∧ ∀ c ∈ line s, notNewline c = true := by
  refine ⟨s.dropWhile notNewline, List.takeWhile_append_dropWhile.symm, ?_, fun c hc => List.mem_takeWhile_imp hc⟩
  unfold AtLineEnd
  cases h : (s.dropWhile notNewline).head? with
  | none => rfl
  | some c =>
    have := List.head?_dropWhile_not notNewline s
    rw [h] at this
    simpa [notNewline, bne] using this

/-- The line of white space before something goes on with it or ends in the white
    space. -/
theorem line_blank_append {u : Text} (hu : Blank u) (b : Text) :
    Blank (line (u ++ b)) ∨ line (u ++ b) = u ++ line b := by
  by_cases h : ∀ c ∈ u, notNewline c = true
  · exact Or.inr (line_append h b)
  · left
    have hlt : (u.takeWhile notNewline).length ≠ u.length := by
      intro heq
      refine h fun c hc => ?_
      have : u.takeWhile notNewline = u := (List.takeWhile_prefix _).eq_of_length heq
      rw [← this] at hc
      exact List.mem_takeWhile_imp hc
    rw [line, List.takeWhile_append, if_neg hlt]
    exact fun c hc => hu c ((List.takeWhile_prefix _).subset hc)

theorem blank_line_append {v r : Text} (hv : Blank v) (hr : AtLineEnd r) : Blank (line (v ++ r)) := by
  rcases line_blank_append hv r with h | h
  · exact h
  · rw [h, line_eq_nil hr, List.append_nil]
    exact hv

theorem notNewline_of_mem_closer : ∀ c ∈ closer, notNewline c = true := by simp [closer, notNewline]

theorem closes_line {u x v r : Text} (hu : Blank u) (hx : x = [] ∨ x = closer) (hv : Blank v) (hr : AtLineEnd r) :
    Closes (line (u ++ (x ++ (v ++ r)))) := by
  rcases line_blank_append hu (x ++ (v ++ r)) with h | h
  · exact ⟨_, [], h, by simp [Blank], Or.inl (List.append_nil _).symm⟩
  · rw [h]
    rcases hx with rfl | rfl
    · exact ⟨u, _, hu, blank_line_append hv hr, Or.inl rfl⟩
    · rw [line_append notNewline_of_mem_closer]
      exact ⟨u, _, hu, blank_line_append hv hr, Or.inr (List.append_assoc _ _ _).symm⟩

/-! ### What can follow a name -/

theorem ends_seqAll_cons (p : Pattern) (ps : List Pattern) (c : Cursor) :
    (seqAll (p :: ps)).ends c = (p.ends c).flatMap (seqAll ps).ends := by
  cases ps with
  | nil => simp [seqAll, ends]
  | cons q qs => rfl

theorem ends_literal_append (w r : Text) (fresh : Bool) :
    ∃ fresh', (literal w).ends ⟨fresh, w ++ r⟩ = [⟨fresh', r⟩] := by
  induction w generalizing fresh with
  | nil => exact ⟨fresh, rfl⟩
  | cons x w ih =>
    obtain ⟨fresh', h⟩ := ih (x == '\n')
    refine ⟨fresh', ?_⟩
    rw [literal, List.map_cons, ends_seqAll_cons]
    simpa [ends, literal] using h

theorem mem_ends_literal {w : Text} {c c' : Cursor} (h : c' ∈ (literal w).ends c) : c.rest = w ++ c'.rest := by
  induction w generalizing c with
  | nil =>
    obtain rfl : c' = c := List.mem_singleton.mp h
    rfl
  | cons x w ih =>
    rw [literal, List.map_cons, ends_seqAll_cons] at h
    obtain ⟨c₁, h₁, h⟩ := List.mem_flatMap.mp h
    obtain ⟨fresh, _ | ⟨y, s⟩⟩ := c
    · cases h₁
    · simp only [ends] at h₁
      split at h₁
      · next hy =>
        obtain rfl := List.mem_singleton.mp h₁
        rw [List.cons_append, ← ih h, beq_iff_eq.mp hy]
      · cases h₁

theorem mem_ends_lineEnd {c c' : Cursor} : c' ∈ lineEnd.ends c ↔ c' = c ∧ AtLineEnd c.rest := by
  rw [ends, AtLineEnd]
  split
  · next h => simp [h]
  · next h => simp [h]

theorem mem_ends_closer {c c' : Cursor} (h : c' ∈ (opt (literal closer)).ends c) :
    ∃ x, (x = [] ∨ x = closer) ∧ c.rest = x ++ c'.rest := by
  rcases List.mem_append.mp h with h | h
  · exact ⟨closer, Or.inr rfl, mem_ends_literal h⟩
  · obtain rfl := List.mem_singleton.mp h
    exact ⟨[], Or.inl rfl, rfl⟩

theorem exists_mem_ends_closer {x r : Text} (hx : x = [] ∨ x = closer) (fresh : Bool) :
    ∃ fresh', ⟨fresh', r⟩ ∈ (opt (literal closer)).ends ⟨fresh, x ++ r⟩ := by
  rcases hx with rfl | rfl
  · exact ⟨fresh, List.mem_append_right _ (List.mem_singleton.mpr rfl)⟩
  · obtain ⟨fresh', h⟩ := ends_literal_append closer r fresh
    exact ⟨fresh', List.mem_append_left _ (h ▸ List.mem_singleton.mpr rfl)⟩

theorem mem_ends_blanks {c c' : Cursor} (h : c' ∈ (many isBlank).ends c) :
    ∃ u, Blank u ∧ c.rest = u ++ c'.rest := by
  obtain ⟨u, hrest, hu⟩ := mem_stretch (List.mem_reverse.mp h)
  exact ⟨u, hu, hrest⟩

theorem exists_mem_ends_blanks {u : Text} (hu : Blank u) (r : Text) (fresh : Bool) :
    ∃ fresh', ⟨fresh', r⟩ ∈ (many isBlank).ends ⟨fresh, u ++ r⟩ := by
  obtain ⟨passed, fresh', heq, -⟩ := stretch_append hu fresh r
  obtain ⟨further, hcons, -⟩ := stretch_eq_cons isBlank fresh' r
  refine ⟨fresh', List.mem_reverse.mpr ?_⟩
  rw [heq, hcons]
  exact List.mem_append_right _ List.mem_cons_self

theorem mem_ends_closing {c c' : Cursor} : c' ∈ closing.ends c ↔
    ∃ c₁ ∈ (many isBlank).ends c, ∃ c₂ ∈ (opt (literal closer)).ends c₁, ∃ c₃ ∈ (many isBlank).ends c₂,
      c' ∈ lineEnd.ends c₃ := by
  rw [show closing = seq (many isBlank) (seq (opt (literal closer)) (seq (many isBlank) lineEnd)) from rfl]
  simp only [mem_ends_seq]

/-- The rest of a line can follow a name iff it is white space with at most one end of a
    comment in it. -/
theorem closing_ends_ne_nil_iff {c : Cursor} : closing.ends c ≠ [] ↔ Closes (line c.rest) := by
  constructor
  · intro h
    obtain ⟨c', hc'⟩ := List.exists_mem_of_ne_nil _ h
    obtain ⟨c₁, h₁, c₂, h₂, c₃, h₃, h₄⟩ := mem_ends_closing.mp hc'
    obtain ⟨u, hu, hrest₁⟩ := mem_ends_blanks h₁
    obtain ⟨x, hx, hrest₂⟩ := mem_ends_closer h₂
    obtain ⟨v, hv, hrest₃⟩ := mem_ends_blanks h₃
    rw [hrest₁, hrest₂, hrest₃]
    exact closes_line hu hx hv (mem_ends_lineEnd.mp h₄).2
  · rintro ⟨u, v, hu, hv, hline⟩
    obtain ⟨r, hr, hend, -⟩ := exists_eq_line_append c.rest
    obtain ⟨x, hx, hrest⟩ : ∃ x, (x = [] ∨ x = closer) ∧ c.rest = u ++ (x ++ (v ++ r)) := by
      rcases hline with h | h
      · exact ⟨[], Or.inl rfl, by rw [hr, h]; simp⟩
      · exact ⟨closer, Or.inr rfl, by rw [hr, h]; simp⟩
    obtain ⟨fresh₁, h₁⟩ := exists_mem_ends_blanks hu (x ++ (v ++ r)) c.fresh
    obtain ⟨fresh₂, h₂⟩ := exists_mem_ends_closer (r := v ++ r) hx fresh₁
    obtain ⟨fresh₃, h₃⟩ := exists_mem_ends_blanks hv r fresh₂
    rw [← hrest] at h₁
    exact List.ne_nil_of_mem (mem_ends_closing.mpr ⟨_, h₁, _, h₂, _, h₃, mem_ends_lineEnd.mpr ⟨rfl, hend⟩⟩)

/-! ### The shortest name -/

theorem trimEnd_append {u : Text} (hu : Blank u) (s : Text) : trimEnd (s ++ u) = trimEnd s := by
  unfold trimEnd dropEndWhile
  rw [List.reverse_append, List.dropWhile_append_of_pos]
  exact fun c hc => hu c (List.mem_reverse.mp hc)

theorem exists_eq_trimEnd_append (s : Text) : ∃ v, Blank v ∧ s = trimEnd s ++ v :=
  ⟨s.rtakeWhile isBlank, fun _ hc => List.mem_rtakeWhile_imp hc, List.rdropWhile_append_rtakeWhile.symm⟩

theorem trimEnd_eq_nil_iff {s : Text} : trimEnd s = [] ↔ Blank s := List.rdropWhile_eq_nil_iff

def EndsVisible (s : Text) : Prop := ∃ t d, s = t ++ [d] ∧ isBlank d = false

theorem endsVisible_trimEnd {s : Text} (h : trimEnd s ≠ []) : EndsVisible (trimEnd s) :=
  ⟨_, _, (List.dropLast_append_getLast h).symm, Bool.eq_false_iff.mpr (List.rdropWhile_last_not isBlank s h)⟩

theorem EndsVisible.trimEnd_eq {s : Text} (h : EndsVisible s) : trimEnd s = s := by
  obtain ⟨t, d, rfl, hd⟩ := h
  rw [trimEnd]
  simpa using Expression.dropEndWhile_snoc_append (u := []) (s := t) (by simp) hd

theorem endsVisible_append_closer (s : Text) : EndsVisible (s ++ closer) := ⟨s ++ ['*'], '/', by simp [closer], by decide⟩

theorem withoutCloser_append (a : Text) :
    withoutCloser (a ++ closer) = if trimEnd a = [] then a ++ closer else trimEnd a := by
  have hsuffix : closer.isSuffixOf (a ++ closer) = true := by simp
  rw [withoutCloser, if_pos hsuffix, List.length_append, Nat.add_sub_cancel, List.take_left]

theorem withoutCloser_of_not {l : Text} (h : ¬ closer <:+ l) : withoutCloser l = l := by
  rw [withoutCloser, if_neg]
  rwa [List.isSuffixOf_iff_suffix]

/-- A line that begins with something visible is the name on it and what can follow. -/
theorem exists_name {l : Text} (hl : ¬ Blank l) :
    ∃ q, l = withoutCloser (trimEnd l) ++ q ∧ Closes q ∧ EndsVisible (withoutCloser (trimEnd l)) := by
  obtain ⟨v, hv, hl'⟩ := exists_eq_trimEnd_append l
  have hne : trimEnd l ≠ [] := fun h => hl (trimEnd_eq_nil_iff.mp h)
  have hwhole : ∃ q, l = trimEnd l ++ q ∧ Closes q ∧ EndsVisible (trimEnd l) :=
    ⟨v, hl', ⟨[], v, by simp [Blank], hv, Or.inl rfl⟩, endsVisible_trimEnd hne⟩
  by_cases hc : closer <:+ trimEnd l
  case neg => rwa [withoutCloser_of_not hc]
  obtain ⟨a, ha⟩ := hc
  rw [← ha, withoutCloser_append]
  by_cases hempty : trimEnd a = []
  · rw [if_pos hempty, ha]
    exact hwhole
  · rw [if_neg hempty]
    obtain ⟨u, hu, ha'⟩ := exists_eq_trimEnd_append a
    refine ⟨u ++ closer ++ v, ?_, ⟨u, v, hu, hv, Or.inr rfl⟩, endsVisible_trimEnd hempty⟩
    rw [hl', ← ha]
    conv_lhs => rw [ha']
    simp

/-- What comes behind a shorter start of the line cannot follow a name. -/
theorem not_closes_shorter {a b q : Text} (ha : ¬ Blank a) (hne : b ≠ [])
    (hname : withoutCloser (trimEnd (a ++ b ++ q)) = a ++ b) (hvisible : EndsVisible (a ++ b)) :
    ¬ Closes (b ++ q) := by
  obtain ⟨d, hd, hmem⟩ : ∃ d, isBlank d = false ∧ d ∈ b := by
    obtain ⟨t, d, h, hd⟩ := hvisible
    have hlast := congrArg List.getLast? h
    rw [List.getLast?_append_of_ne_nil _ hne, List.getLast?_concat] at hlast
    exact ⟨d, hd, List.mem_of_getLast? hlast⟩
  rintro ⟨u, v, hu, hv, h | h⟩
  · have := (h ▸ List.mem_append_left q hmem : d ∈ u ++ v)
    rcases List.mem_append.mp this with h' | h'
    · rw [hu d h'] at hd; cases hd
    · rw [hv d h'] at hd; cases hd
  · -- The name would end before the end of the comment, within the shorter start.
    have hline : trimEnd (a ++ b ++ q) = a ++ u ++ closer := by
      rw [List.append_assoc, h, ← List.append_assoc, ← List.append_assoc, trimEnd_append hv]
      exact (endsVisible_append_closer _).trimEnd_eq
    rw [hline, withoutCloser_append, trimEnd_append hu, if_neg (fun h0 => ha (trimEnd_eq_nil_iff.mp h0))] at hname
    have hle : (trimEnd a).length ≤ a.length := length_dropEndWhile_le isBlank a
    have hpos := List.length_pos_iff.mpr hne
    rw [hname, List.length_append] at hle
    omega

/-! ## (3) The search for a tag -/

def nameAt (start : Cursor) : Option Text :=
  (named.ends start).findSome? fun stop =>
    if closing.ends stop = [] then none
    else some (start.rest.take (start.rest.length - stop.rest.length))

theorem captureAt_eq (c : Cursor) : captureAt opening named closing c = (opening.ends c).findSome? nameAt := rfl

/-- No name starts in front of a newline or at the end. -/
theorem nameAt_eq_none {start : Cursor} (h : AtLineEnd start.rest) : nameAt start = none := by
  obtain ⟨fresh, _ | ⟨x, s⟩⟩ := start
  · rfl
  · have hx : notNewline x = false := by simpa [AtLineEnd, notNewline, bne] using h
    simp [nameAt, named, ends, hx]

/-- A name is the shortest start of a line that the rest of the line can follow. -/
theorem nameAt_eq_some {start : Cursor} {x : Char} {p q : Text} (hline : line start.rest = x :: p ++ q)
    (hq : Closes q) (hshorter : ∀ p₁ p₂, p = p₁ ++ p₂ → p₂ ≠ [] → ¬ Closes (p₂ ++ q)) :
    nameAt start = some (x :: p) := by
  obtain ⟨r, hr, hend, hnn⟩ := exists_eq_line_append start.rest
  rw [hline] at hr hnn
  obtain ⟨fresh, s⟩ := start
  obtain rfl : s = x :: (p ++ (q ++ r)) := by simpa using hr
  rw [List.cons_append, List.forall_mem_cons, List.forall_mem_append] at hnn
  obtain ⟨hx, hp, hq'⟩ := hnn
  have hclosing : ∀ u : Text, (∀ c ∈ u, notNewline c = true) → ∀ c : Cursor, c.rest = u ++ (q ++ r) →
      (closing.ends c ≠ [] ↔ Closes (u ++ q)) := by
    intro u hu c hc
    rw [closing_ends_ne_nil_iff, hc, line_append hu, line_append_of_atLineEnd hq' hend]
  have hone : (one notNewline).ends ⟨fresh, x :: (p ++ (q ++ r))⟩ = [⟨x == '\n', p ++ (q ++ r)⟩] := by
    simp [ends, hx]
  rw [nameAt, named, ends, hone, List.flatMap_singleton]
  refine findSome?_few rfl hp ?_ ?_
  · intro p₁ p₂ hp' hne c hc
    have hp₂ : ∀ c ∈ p₂, notNewline c = true := fun c hc => hp c (hp' ▸ List.mem_append_right _ hc)
    rw [if_pos]
    by_contra hends
    exact hshorter p₁ p₂ hp' hne ((hclosing p₂ hp₂ c hc).mp hends)
  · intro c hc
    have hends : closing.ends c ≠ [] := (hclosing [] (by simp) c hc).mpr hq
    rw [if_neg hends, hc]
    have hlen : (x :: (p ++ (q ++ r))).length - (q ++ r).length = (x :: p).length := by
      simp only [List.length_cons, List.length_append]
      omega
    rw [hlen, ← List.cons_append, List.take_left]

theorem notNewline_of_visible {x : Char} (hx : isBlank x = false) : notNewline x = true := by
  rw [notNewline, bne_iff_ne]
  intro heq
  rw [heq] at hx
  cases hx

theorem line_cons_of_visible {x : Char} (hx : isBlank x = false) (t : Text) : line (x :: t) = x :: line t :=
  List.takeWhile_cons_of_pos (notNewline_of_visible hx)

/-- From something visible on, the name is the line without the end of a comment. -/
theorem nameAt_of_visible {start : Cursor} {x : Char} {s : Text} (hstart : start.rest = x :: s)
    (hx : isBlank x = false) : nameAt start = some (withoutCloser (trimEnd (line start.rest))) := by
  have hline : line start.rest = x :: line s := hstart ▸ line_cons_of_visible hx s
  have hblank : ¬ Blank (line start.rest) := by
    intro h
    have := h x (hline ▸ List.mem_cons_self)
    rw [hx] at this
    cases this
  obtain ⟨q, hsplit, hq, hvisible⟩ := exists_name hblank
  obtain ⟨d, t, hd⟩ := List.exists_cons_of_ne_nil (show withoutCloser (trimEnd (line start.rest)) ≠ [] by
    obtain ⟨t, d, h, -⟩ := hvisible
    simp [h])
  rw [hd] at hsplit hvisible ⊢
  obtain rfl : d = x := by
    rw [hline] at hsplit
    exact (List.cons.inj hsplit).1.symm
  refine nameAt_eq_some hsplit hq fun p₁ p₂ hp hne => ?_
  refine not_closes_shorter (a := d :: p₁) (fun h => ?_) hne ?_ ?_
  · rw [h d List.mem_cons_self] at hx
    cases hx
  · rw [List.cons_append, ← hp, ← hsplit, hd]
  · rwa [List.cons_append, ← hp]

/-- A last white space before newlines is a name of its own. -/
theorem nameAt_of_blank {start : Cursor} {x : Char} {s : Text} (hstart : start.rest = x :: s)
    (hx : notNewline x = true) (hs : ∀ c ∈ s, c = '\n') : nameAt start = some [x] := by
  have hline : line start.rest = [x] := by
    rw [hstart]
    exact line_append_of_atLineEnd (a := [x]) (by simpa using hx) (atLineEnd_of_newlines hs)
  refine nameAt_eq_some (q := []) (by rw [hline, List.append_nil]) ⟨[], [], by simp [Blank], by simp [Blank], Or.inl rfl⟩ ?_
  intro p₁ p₂ hp hne
  exact absurd (List.append_eq_nil_iff.mp hp.symm).2 hne

theorem exists_last_not_newline {r : Text} (h : ¬ r.all (· == '\n') = true) :
    ∃ u x v, r = u ++ x :: v ∧ notNewline x = true ∧ ∀ c ∈ v, c = '\n' := by
  induction r with
  | nil => simp at h
  | cons c r ih =>
    by_cases hr : r.all (· == '\n') = true
    · have hc : notNewline c = true := by simpa [notNewline, hr] using h
      exact ⟨[], c, r, rfl, hc, by simpa using hr⟩
    · obtain ⟨u, x, v, rfl, hx, hv⟩ := ih hr
      exact ⟨c :: u, x, v, rfl, hx, hv⟩

theorem findSome?_nameAt_of_newlines {c : Cursor} (h : ∀ y ∈ c.rest, y = '\n') :
    ((many isBlank).ends c).findSome? nameAt = none := by
  rw [List.findSome?_eq_none_iff]
  intro start hstart
  obtain ⟨u, -, hrest⟩ := mem_ends_blanks hstart
  exact nameAt_eq_none (atLineEnd_of_newlines fun y hy => h y (hrest ▸ List.mem_append_right u hy))

theorem findSome?_nameAt_of_visible {c : Cursor} {x : Char} {s : Text} (h : c.rest.dropWhile isBlank = x :: s) :
    ((many isBlank).ends c).findSome? nameAt = some (withoutCloser (trimEnd (line (x :: s)))) := by
  have hx : isBlank x = false := by
    have := List.head?_dropWhile_not isBlank c.rest
    rw [h] at this
    simpa using this
  have hrest : c.rest = c.rest.takeWhile isBlank ++ x :: s := by rw [← h, List.takeWhile_append_dropWhile]
  refine findSome?_many hrest (fun _ => List.mem_takeWhile_imp) ?_ ?_
  · intro y v₁ v₂ hv hkind
    obtain ⟨rfl, -⟩ := List.cons.inj hv
    rw [hkind x List.mem_cons_self] at hx
    cases hx
  · intro c' hc'
    rw [nameAt_of_visible hc' hx, hc']

theorem findSome?_nameAt_of_blank {c : Cursor} {u v : Text} {x : Char} (hrest : c.rest = u ++ x :: v)
    (hblank : ∀ y ∈ c.rest, isBlank y = true) (hx : notNewline x = true) (hv : ∀ y ∈ v, y = '\n') :
    ((many isBlank).ends c).findSome? nameAt = some [x] := by
  refine findSome?_many hrest (fun y hy => hblank y (hrest ▸ List.mem_append_left _ hy)) ?_ ?_
  · intro y v₁ v₂ hsplit _ c' hc'
    obtain ⟨-, rfl⟩ := List.cons.inj hsplit
    exact nameAt_eq_none (atLineEnd_of_newlines fun y hy => hv y (List.mem_append_right _ (hc' ▸ hy)))
  · intro c' hc'
    exact nameAt_of_blank hc' hx hv

/-- Behind a mark, the pattern finds the name that is read. -/
theorem findSome?_nameAt (c : Cursor) : ((many isBlank).ends c).findSome? nameAt = read? c.rest := by
  by_cases hall : c.rest.all (· == '\n') = true
  · rw [read?, if_pos hall, findSome?_nameAt_of_newlines (by simpa using hall)]
  rw [read?, if_neg hall]
  cases hvisible : c.rest.dropWhile isBlank with
  | cons x s => exact findSome?_nameAt_of_visible hvisible
  | nil =>
    obtain ⟨u, x, v, hrest, hx, hv⟩ := exists_last_not_newline hall
    have hnone : v.filter notNewline = [] := by
      rw [List.filter_eq_nil_iff]
      intro y hy
      simp [hv y hy, notNewline]
    have hlast : (c.rest.filter notNewline).getLast? = some x := by
      rw [hrest, List.filter_append, List.filter_cons_of_pos hx, hnone, List.getLast?_concat]
    rw [hlast]
    exact findSome?_nameAt_of_blank hrest (List.dropWhile_eq_nil_iff.mp hvisible) hx hv

theorem captureAt_of_mark {c : Cursor} {r : Text} (h : c.rest = mark ++ r) :
    captureAt opening named closing c = read? r := by
  obtain ⟨fresh, s⟩ := c
  obtain rfl : s = mark ++ r := h
  obtain ⟨fresh', hmark⟩ := ends_literal_append mark r fresh
  rw [captureAt_eq, opening, ends, hmark, List.flatMap_singleton, findSome?_nameAt]

theorem captureAt_of_no_mark {c : Cursor} (h : ¬ mark <+: c.rest) : captureAt opening named closing c = none := by
  have hnil : (literal mark).ends c = [] := by
    refine List.eq_nil_iff_forall_not_mem.mpr fun c' hc' => h ?_
    rw [mem_ends_literal hc']
    exact List.prefix_append _ _
  rw [captureAt_eq, opening, ends, hnil]
  rfl

/-- Behind a mark with newlines only there is no further mark. -/
theorem no_mark_of_newlines {c : Char} {s r t : Text} (hs : c :: s = mark ++ r)
    (hr : r.all (· == '\n') = true) (ht : t <:+ s) : ¬ mark <+: t := by
  rintro ⟨t', rfl⟩
  obtain ⟨y, rfl⟩ := ht
  have hsplit : c :: y ++ mark ++ t' = mark ++ r := by rw [← hs]; simp
  -- The last character of the later mark would be one of the newlines.
  rcases List.append_eq_append_iff.mp hsplit with ⟨z, hmark, -⟩ | ⟨z, hz, rfl⟩
  · have := congrArg List.length hmark
    simp only [List.length_append, List.length_cons] at this
    omega
  · have hne : z ≠ [] := by
      rintro rfl
      have := congrArg List.length hz
      simp only [List.length_append, List.length_cons, List.length_nil] at this
      omega
    have hlast := congrArg List.getLast? hz
    rw [List.getLast?_append_of_ne_nil _ (by decide), List.getLast?_append_of_ne_nil _ hne] at hlast
    have hmem : ':' ∈ z := List.mem_of_getLast? (hlast.symm.trans (by decide))
    have := List.all_eq_true.mp hr ':' (List.mem_append_left _ hmem)
    cases this

theorem read?_eq_none_iff {r : Text} : read? r = none ↔ r.all (· == '\n') = true := by
  constructor
  · intro h
    by_contra hall
    obtain ⟨u, x, v, rfl, hx, -⟩ := exists_last_not_newline hall
    rw [read?, if_neg hall] at h
    split at h
    · simp [List.filter_append, List.filter_cons_of_pos hx] at h
    · cases h
  · intro h
    rw [read?, if_pos h]

theorem findSome?_captureAt (fresh : Bool) (s : Text) :
    (cursors fresh s).findSome? (captureAt opening named closing) = (behindMark s).bind read? := by
  induction s generalizing fresh with
  | nil =>
    have hnone : captureAt opening named closing ⟨fresh, []⟩ = none := captureAt_of_no_mark (show ¬ mark <+: [] by decide)
    rw [cursors, List.findSome?_singleton, hnone]
    rfl
  | cons c s ih =>
    rw [cursors, List.findSome?_cons, behindMark]
    by_cases hm : mark <+: c :: s
    · obtain ⟨r, hr⟩ := hm
      have hbehind : (c :: s).drop mark.length = r := by rw [← hr, List.drop_left]
      rw [if_pos (List.isPrefixOf_iff_prefix.mpr ⟨r, hr⟩), hbehind, captureAt_of_mark hr.symm, Option.bind_some]
      cases hread : read? r with
      | some name => rfl
      | none =>
        rw [List.findSome?_eq_none_iff]
        intro c' hc'
        exact captureAt_of_no_mark (no_mark_of_newlines hr.symm (read?_eq_none_iff.mp hread) (suffix_of_mem_cursors hc'))
    · rw [captureAt_of_no_mark hm, if_neg (fun h => hm (List.isPrefixOf_iff_prefix.mp h))]
      exact ih _

/-- The tag pattern finds what is read behind the first mark. -/
theorem find?_eq_read (s : Text) : find? s = (behindMark s).bind read? := by
  rw [find?, capture?_eq, findSome?_captureAt]

example : (behindMark "/* SPDX-License-Identifier: */ */\r\n".toList).bind read? = some "*/".toList := by decide

end Attribution.Tag
