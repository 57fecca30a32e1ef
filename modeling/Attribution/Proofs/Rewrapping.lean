/-
  Attribution.Proofs.Rewrapping — how a license text is wrapped does not matter.

  (1) A text is its words and the white space between them (`splitBlanks`, `gaps`). Two
  texts have the same wording if their words are the same up to the case of ASCII letters
  and line breaks stand in the same gaps (`SameWording`).

  (2) Such texts go along with each other character by character and gap by gap, once the
  white space before the first word is left out (`Rewrapped`,
  `rewrapped_of_sameWording`). Where the one is cut in front of something visible, so
  can the other be (`exists_cut`).

  (3) A pattern carries over if, where it reads from the one text, it reads from the other
  too, up to a place that goes along with where it ended (`Carries`). It may end inside white
  space as long as what comes next begins with something visible. Each character of a
  phrase carries over, and so does what is put together from patterns that do
  (`Carries.seq`, `carries_spelled`).

  (4) All the phrases are such patterns, or titles with such a pattern
  (`portable_of_mem_all`). So texts of the same wording are detected as the same license
  (`license_sameWording`).
-/
import Attribution.Proofs.Wording
import Mathlib.Data.List.Find
import Mathlib.Data.List.Forall2

namespace Attribution

open Tag (Blank)

namespace Text

/-! ## (1) Words and gaps -/

def runs (kind : Char → Bool) (s : Text) : List Text := (s.splitOnP kind).filter (· ≠ [])

def splitBlanks (s : Text) : List Text := runs isBlank s

def gaps (s : Text) : List Text := runs (!isBlank ·) (trim s)

/-- The same words up to letter case, with line breaks in the same gaps. -/
structure SameWording (s s' : Text) : Prop where
  words : List.Forall₂ (fun w w' => lower w = lower w') (splitBlanks s) (splitBlanks s')
  breaks : List.Forall₂ (fun g g' => '\n' ∈ g ↔ '\n' ∈ g') (gaps s) (gaps s')

theorem SameWording.symm {s s' : Text} (h : SameWording s s') : SameWording s' s where
  words := h.words.flip.imp fun _ _ => Eq.symm
  breaks := h.breaks.flip.imp fun _ _ => Iff.symm

/-! ### Runs -/

section Runs

variable {kind : Char → Bool}

theorem runs_append_cons {x : Char} (hx : kind x = true) (a b : Text) :
    runs kind (a ++ x :: b) = runs kind a ++ runs kind b := by
  rw [runs, List.splitOnP_append_cons a b hx, List.filter_append]
  rfl

theorem runs_append {u : Text} (hu : ∀ x ∈ u, kind x = true) (s : Text) : runs kind (u ++ s) = runs kind s := by
  induction u with
  | nil => rfl
  | cons x u ih =>
    obtain ⟨hx, hu⟩ := List.forall_mem_cons.mp hu
    exact (runs_append_cons hx [] (u ++ s)).trans (ih hu)

theorem runs_eq_nil {u : Text} (hu : ∀ x ∈ u, kind x = true) : runs kind u = [] := by
  have h := runs_append hu []
  rwa [List.append_nil] at h

theorem runs_eq_singleton {w : Text} (hne : w ≠ []) (hw : ∀ x ∈ w, kind x = false) : runs kind w = [w] := by
  rw [runs, List.splitOnP_eq_singleton hw, List.filter_singleton]
  simp [hne]

theorem runs_append_run {w u : Text} (hne : w ≠ []) (hw : ∀ x ∈ w, kind x = false) (hune : u ≠ [])
    (hu : ∀ x ∈ u, kind x = true) (s : Text) : runs kind (w ++ (u ++ s)) = w :: runs kind s := by
  obtain ⟨x, u, rfl⟩ := List.exists_cons_of_ne_nil hune
  obtain ⟨hx, hu⟩ := List.forall_mem_cons.mp hu
  rw [List.cons_append, runs_append_cons hx, runs_eq_singleton hne hw, runs_append hu]
  rfl

end Runs

/-! ### Layout -/

def BeginsVisible (s : Text) : Prop := ∃ x t, s = x :: t ∧ isBlank x = false

structure IsWord (w : Text) : Prop where
  ne_nil : w ≠ []
  visible : ∀ c ∈ w, isBlank c = false

structure IsGap (g : Text) : Prop where
  ne_nil : g ≠ []
  blank : Blank g

inductive Layout : List Text → List Text → Text → Prop
  | last {w u : Text} (hw : IsWord w) (hu : Blank u) : Layout [w] [] (w ++ u)
  | cons {w g : Text} {ws gs : List Text} {s : Text} (hw : IsWord w) (hg : IsGap g) :
      Layout ws gs s → Layout (w :: ws) (g :: gs) (w ++ (g ++ s))

theorem IsWord.beginsVisible {w : Text} (h : IsWord w) (s : Text) : BeginsVisible (w ++ s) := by
  obtain ⟨x, t, rfl⟩ := List.exists_cons_of_ne_nil h.ne_nil
  exact ⟨x, t ++ s, rfl, h.visible x List.mem_cons_self⟩

theorem Layout.beginsVisible {ws gs : List Text} {s : Text} (h : Layout ws gs s) : BeginsVisible s := by
  cases h with
  | last hw hu => exact hw.beginsVisible _
  | cons hw hg hs => exact hw.beginsVisible _

theorem BeginsVisible.trim_eq {s : Text} (h : BeginsVisible s) : trim s = trimEnd s := by
  obtain ⟨x, t, rfl, hx⟩ := h
  rw [trim, trimStart, List.dropWhile_cons_of_neg (by simp [hx])]

theorem BeginsVisible.trimEnd_ne_nil {s : Text} (h : BeginsVisible s) : trimEnd s ≠ [] := by
  obtain ⟨x, t, rfl, hx⟩ := h
  intro hnil
  rw [Tag.trimEnd_eq_nil_iff.mp hnil x List.mem_cons_self] at hx
  cases hx

theorem BeginsVisible.trimEnd_append {s : Text} (h : BeginsVisible s) (a : Text) : trimEnd (a ++ s) = a ++ trimEnd s := by
  obtain ⟨v, hv, hs⟩ := Tag.exists_eq_trimEnd_append s
  obtain ⟨t, d, ht, hd⟩ := Tag.endsVisible_trimEnd h.trimEnd_ne_nil
  have hends : Tag.EndsVisible (a ++ trimEnd s) := ⟨a ++ t, d, by rw [ht, List.append_assoc], hd⟩
  conv_lhs => rw [hs, ← List.append_assoc, Tag.trimEnd_append hv, hends.trimEnd_eq]

theorem BeginsVisible.trimEnd {s : Text} (h : BeginsVisible s) : BeginsVisible (trimEnd s) := by
  obtain ⟨y, t', ht'⟩ := List.exists_cons_of_ne_nil h.trimEnd_ne_nil
  obtain ⟨v, -, hs⟩ := Tag.exists_eq_trimEnd_append s
  obtain ⟨x, t, hxs, hx⟩ := h
  rw [ht', hxs] at hs
  exact ⟨y, t', ht', (List.cons.inj hs).1 ▸ hx⟩

theorem splitBlanks_last {w u : Text} (hw : IsWord w) (hu : Blank u) : splitBlanks (w ++ u) = [w] := by
  cases u with
  | nil => rw [List.append_nil, splitBlanks, runs_eq_singleton hw.ne_nil hw.visible]
  | cons x u =>
    have h := runs_append_run hw.ne_nil hw.visible (List.cons_ne_nil x u) hu []
    rwa [List.append_nil] at h

theorem gaps_last {w u : Text} (hw : IsWord w) (hu : Blank u) : gaps (w ++ u) = [] := by
  have hvisible : BeginsVisible w := by
    have h := hw.beginsVisible []
    rwa [List.append_nil] at h
  have htrim : trim (w ++ u) = trimEnd w := by rw [(hw.beginsVisible u).trim_eq, Tag.trimEnd_append hu]
  have hall : ∀ x ∈ trimEnd w, (!isBlank x) = true := by
    intro x hx
    obtain ⟨v, -, hv⟩ := Tag.exists_eq_trimEnd_append w
    rw [hw.visible x (hv ▸ List.mem_append_left v hx)]
    rfl
  rw [gaps, htrim, runs_eq_nil hall]

theorem gaps_cons {w g s : Text} (hw : IsWord w) (hg : IsGap g) (hs : BeginsVisible s) :
    gaps (w ++ (g ++ s)) = g :: gaps s := by
  have hword : ∀ x ∈ w, (!isBlank x) = true := fun x hx => by rw [hw.visible x hx]; rfl
  have hgap : ∀ x ∈ g, (!isBlank x) = false := fun x hx => by rw [hg.blank x hx]; rfl
  obtain ⟨x, t, hxt, hx⟩ := hs.trimEnd
  have hx' : ∀ y ∈ [x], (!isBlank y) = true := by simpa using hx
  have hrun := runs_append_run hg.ne_nil hgap (List.cons_ne_nil x []) hx' t
  have hdrop := runs_append hx' t
  rw [gaps, gaps, (hw.beginsVisible _).trim_eq, hs.trim_eq, ← List.append_assoc, hs.trimEnd_append, List.append_assoc,
    runs_append hword, hxt]
  exact hrun.trans (congrArg _ hdrop.symm)

/-- A text that begins with something visible begins with a word, and white space parts the
    word from the next. -/
theorem BeginsVisible.exists_word {s : Text} (h : BeginsVisible s) : ∃ w g t, s = w ++ (g ++ t) ∧ IsWord w ∧ Blank g ∧
    (t = [] ∨ g ≠ [] ∧ BeginsVisible t) := by
  have hword : IsWord (s.takeWhile (!isBlank ·)) := by
    obtain ⟨x, t, rfl, hx⟩ := h
    refine ⟨?_, fun c hc => ?_⟩
    · rw [List.takeWhile_cons_of_pos (by simp [hx])]
      exact List.cons_ne_nil _ _
    · simpa using List.mem_takeWhile_imp hc
  refine ⟨s.takeWhile (!isBlank ·), (s.dropWhile (!isBlank ·)).takeWhile isBlank,
    (s.dropWhile (!isBlank ·)).dropWhile isBlank, ?_, hword, fun _ => List.mem_takeWhile_imp, ?_⟩
  · rw [List.takeWhile_append_dropWhile, List.takeWhile_append_dropWhile]
  · cases ht : (s.dropWhile (!isBlank ·)).dropWhile isBlank with
    | nil => exact .inl rfl
    | cons x t =>
      have hx := List.head?_dropWhile_not isBlank (s.dropWhile (!isBlank ·))
      rw [ht] at hx
      refine .inr ⟨?_, x, t, rfl, by simpa using hx⟩
      -- Without white space behind it, the word would go on with x.
      intro hnil
      have hrest : s.dropWhile (!isBlank ·) = x :: t := by
        rw [← ht]
        conv_lhs => rw [← List.takeWhile_append_dropWhile (p := isBlank) (l := s.dropWhile _), hnil, List.nil_append]
      have hstop := List.head?_dropWhile_not (!isBlank ·) s
      rw [hrest] at hstop
      simp_all

/-- A text that begins with something visible is its words and the gaps between them. -/
theorem layout_of_beginsVisible {s : Text} (h : BeginsVisible s) : Layout (splitBlanks s) (gaps s) s := by
  obtain ⟨w, g, t, hs, hw, hg, rfl | ⟨hne, ht⟩⟩ := h.exists_word
  · rw [List.append_nil] at hs
    rw [hs, splitBlanks_last hw hg, gaps_last hw hg]
    exact .last hw hg
  · have hgap : IsGap g := ⟨hne, hg⟩
    have hshorter : t.length < s.length := by
      have := List.length_pos_iff.mpr hw.ne_nil
      rw [hs, List.length_append, List.length_append]
      omega
    have hlayout := layout_of_beginsVisible ht
    rw [hs, gaps_cons hw hgap ht, splitBlanks, runs_append_run hw.ne_nil hw.visible hne hg]
    exact .cons hw hgap hlayout
  termination_by s.length

/-! ## (2) Going along -/

theorem toLower_cases (c : Char) :
    c.toLower = c ∨ 65 ≤ c.toNat ∧ c.toNat ≤ 90 ∧ c.toLower.toNat = c.toNat + 32 := by
  unfold Char.toLower
  split
  · next h =>
    have hge : 65 ≤ c.toNat := UInt32.le_iff_toNat_le.mp h.1
    have hle : c.toNat ≤ 90 := UInt32.le_iff_toNat_le.mp h.2
    refine .inr ⟨hge, hle, ?_⟩
    show (c.val + 32).toNat = c.val.toNat + 32
    rw [UInt32.toNat_add]
    exact Nat.mod_eq_of_lt (by change c.toNat + 32 < _; omega)
  · exact .inl rfl

theorem isBlank_toLower (c : Char) : isBlank c.toLower = isBlank c := by
  rcases toLower_cases c with h | ⟨hge, hle, h⟩
  · rw [h]
  · have hnone : ∀ d : Char, 65 ≤ d.toNat → d.toNat ≤ 122 → isBlank d = false := by
      intro d _ _
      simp only [isBlank, Bool.or_eq_false_iff, Bool.and_eq_false_iff, decide_eq_false_iff_not, beq_eq_false_iff_ne]
      omega
    rw [hnone c hge (by omega), hnone _ (by omega) (by omega)]

theorem isBlank_congr {x y : Char} (h : x.toLower = y.toLower) : isBlank x = isBlank y := by
  rw [← isBlank_toLower x, h, isBlank_toLower]

/-- Two texts go along with each other: by letters in either case, by gaps that both have a
    line break or both have none, and at the end by any white space. -/
inductive Rewrapped : Text → Text → Prop
  | blank {u u' : Text} (hu : Blank u) (hu' : Blank u') : Rewrapped u u'
  | letter {x x' : Char} {s s' : Text} (hx : isBlank x = false) (hlower : x.toLower = x'.toLower) :
      Rewrapped s s' → Rewrapped (x :: s) (x' :: s')
  | gap {g g' s s' : Text} (hg : IsGap g) (hg' : IsGap g') (hbreak : '\n' ∈ g ↔ '\n' ∈ g') (hs : BeginsVisible s) :
      Rewrapped s s' → Rewrapped (g ++ s) (g' ++ s')

theorem Rewrapped.word {w w' s s' : Text} (hw : ∀ c ∈ w, isBlank c = false) (hlower : lower w = lower w')
    (h : Rewrapped s s') : Rewrapped (w ++ s) (w' ++ s') := by
  induction w generalizing w' with
  | nil =>
    obtain rfl : w' = [] := List.map_eq_nil_iff.mp hlower.symm
    exact h
  | cons x w ih =>
    obtain ⟨x', w', rfl⟩ := List.exists_cons_of_ne_nil (show w' ≠ [] by rintro rfl; cases hlower)
    obtain ⟨hx, hw⟩ := List.forall_mem_cons.mp hw
    obtain ⟨hfirst, hrest⟩ := List.cons.inj hlower
    exact .letter hx hfirst (ih hw hrest)

theorem Rewrapped.of_layout {ws ws' gs gs' : List Text} {s s' : Text} (h : Layout ws gs s) (h' : Layout ws' gs' s')
    (hwords : List.Forall₂ (fun w w' => lower w = lower w') ws ws')
    (hbreaks : List.Forall₂ (fun g g' => '\n' ∈ g ↔ '\n' ∈ g') gs gs') : Rewrapped s s' := by
  induction h generalizing ws' gs' s' with
  | last hw hu =>
    cases h' with
    | last hw' hu' =>
      cases hwords with
      | cons hlower _ => exact .word hw.visible hlower (.blank hu hu')
    | cons hw' hg' hs' => cases hbreaks
  | cons hw hg hs ih =>
    cases h' with
    | last hw' hu' => cases hbreaks
    | cons hw' hg' hs' =>
      cases hwords with
      | cons hlower hwords =>
        cases hbreaks with
        | cons hbreak hbreaks => exact .word hw.visible hlower (.gap hg hg' hbreak hs.beginsVisible (ih hs' hwords hbreaks))

theorem splitBlanks_trimStart (s : Text) : splitBlanks (trimStart s) = splitBlanks s := by
  have hblank : ∀ x ∈ s.takeWhile isBlank, isBlank x = true := fun _ => List.mem_takeWhile_imp
  have h := runs_append hblank (s.dropWhile isBlank)
  rw [List.takeWhile_append_dropWhile] at h
  exact h.symm

theorem beginsVisible_or_eq_nil (s : Text) : BeginsVisible (trimStart s) ∨ trimStart s = [] := by
  cases h : trimStart s with
  | nil => exact .inr rfl
  | cons x t =>
    have hx := List.head?_dropWhile_not isBlank s
    rw [show s.dropWhile isBlank = x :: t from h] at hx
    exact .inl ⟨x, t, rfl, by simpa using hx⟩

theorem gaps_trimStart (s : Text) : gaps (trimStart s) = gaps s := by
  rcases beginsVisible_or_eq_nil s with h | h
  · rw [gaps, h.trim_eq]
    rfl
  · rw [gaps, gaps, trim, trim, h]
    rfl

/-- Behind the white space at their starts, texts of the same wording go along. -/
theorem rewrapped_of_sameWording {s s' : Text} (h : SameWording s s') : Rewrapped (trimStart s) (trimStart s') := by
  obtain ⟨hwords, hbreaks⟩ := h
  rw [← splitBlanks_trimStart s, ← splitBlanks_trimStart s'] at hwords
  rw [← gaps_trimStart s, ← gaps_trimStart s'] at hbreaks
  rcases beginsVisible_or_eq_nil s with hs | hs
  · rcases beginsVisible_or_eq_nil s' with hs' | hs'
    · exact .of_layout (layout_of_beginsVisible hs) (layout_of_beginsVisible hs') hwords hbreaks
    · have hlayout := layout_of_beginsVisible hs
      rw [hs', show splitBlanks [] = [] from rfl, List.forall₂_nil_right_iff] at hwords
      rw [hwords] at hlayout
      cases hlayout
  · rcases beginsVisible_or_eq_nil s' with hs' | hs'
    · have hlayout := layout_of_beginsVisible hs'
      rw [hs, show splitBlanks [] = [] from rfl, List.forall₂_nil_left_iff] at hwords
      rw [hwords] at hlayout
      cases hlayout
    · rw [hs, hs']
      exact .blank (by simp [Blank]) (by simp [Blank])

/-! ### Taking texts apart -/

open Pattern (Headed headed_append_blank not_headed_append_visible)

theorem BeginsVisible.not_blank {r : Text} (h : BeginsVisible r) (a : Text) : ¬ Blank (a ++ r) := by
  obtain ⟨x, t, rfl, hx⟩ := h
  intro hblank
  rw [hblank x (by simp)] at hx
  cases hx

theorem blank_append_inj {g g' s s' : Text} (hg : Blank g) (hg' : Blank g') (hs : BeginsVisible s)
    (hs' : BeginsVisible s') (h : g ++ s = g' ++ s') : g = g' ∧ s = s' := by
  have htake : ∀ {g s : Text}, Blank g → BeginsVisible s → (g ++ s).takeWhile isBlank = g := by
    rintro g s hg ⟨x, t, rfl, hx⟩
    rw [List.takeWhile_append_of_pos hg, List.takeWhile_cons_of_neg (by simp [hx]), List.append_nil]
  have hgg : g = g' := by rw [← htake hg hs, h, htake hg' hs']
  subst hgg
  exact ⟨rfl, List.append_cancel_left h⟩

/-- What begins visibly in a text that starts with white space begins behind it. -/
theorem exists_behind_blank {g s a r : Text} (hg : Blank g) (hr : BeginsVisible r) (h : g ++ s = a ++ r) :
    ∃ c, a = g ++ c ∧ s = c ++ r := by
  rcases List.append_eq_append_iff.mp h with ⟨c, ha, hc⟩ | ⟨c, hgc, hrc⟩
  · exact ⟨c, ha, hc⟩
  · cases c with
    | nil => exact ⟨[], by rw [hgc]; simp, hrc.symm⟩
    | cons y c =>
      obtain ⟨x, t, rfl, hx⟩ := hr
      obtain ⟨rfl, -⟩ := List.cons.inj hrc
      rw [hg x (by rw [hgc]; simp)] at hx
      cases hx

theorem Rewrapped.cons_visible {x : Char} {s t : Text} (h : Rewrapped (x :: s) t) (hx : isBlank x = false) :
    ∃ x' s', t = x' :: s' ∧ x.toLower = x'.toLower ∧ Rewrapped s s' := by
  generalize hxs : x :: s = r at h
  cases h with
  | blank hu hu' => exact absurd (hxs ▸ hu) (BeginsVisible.not_blank ⟨x, s, rfl, hx⟩ [])
  | letter hy hlower h =>
    obtain ⟨rfl, rfl⟩ := List.cons.inj hxs
    exact ⟨_, _, rfl, hlower, h⟩
  | gap hg hg' hbreak hs h =>
    obtain ⟨y, g, rfl⟩ := List.exists_cons_of_ne_nil hg.ne_nil
    obtain ⟨rfl, -⟩ := List.cons.inj hxs
    rw [hg.blank x List.mem_cons_self] at hx
    cases hx

theorem Rewrapped.beginsVisible {s s' : Text} (h : Rewrapped s s') (hs : BeginsVisible s) : BeginsVisible s' := by
  obtain ⟨x, t, rfl, hx⟩ := hs
  obtain ⟨x', t', rfl, hlower, -⟩ := h.cons_visible hx
  exact ⟨x', t', rfl, isBlank_congr hlower ▸ hx⟩

theorem Rewrapped.append_visible {g s t : Text} (h : Rewrapped (g ++ s) t) (hg : Blank g) (hs : BeginsVisible s) :
    ∃ g' s', t = g' ++ s' ∧ Blank g' ∧ (g ≠ [] → g' ≠ []) ∧ Rewrapped s s' := by
  rcases List.eq_nil_or_concat g with rfl | ⟨_, _, hconcat⟩
  · exact ⟨[], t, rfl, by simp [Blank], fun hne => absurd rfl hne, h⟩
  have hne : g ≠ [] := by simp [hconcat]
  clear hconcat
  generalize hr : g ++ s = r at h
  cases h with
  | blank hu hu' => exact absurd (hr ▸ hu) (hs.not_blank g)
  | letter hx hlower h =>
    obtain ⟨y, g, rfl⟩ := List.exists_cons_of_ne_nil hne
    obtain ⟨rfl, -⟩ := List.cons.inj hr
    rw [hg y List.mem_cons_self] at hx
    cases hx
  | gap hg₁ hg' hbreak hs₁ h =>
    obtain ⟨rfl, rfl⟩ := blank_append_inj hg hg₁.blank hs hs₁ hr
    exact ⟨_, _, rfl, hg'.blank, fun _ => hg'.ne_nil, h⟩

/-- Where the one text can be cut in front of something visible, so can the other. If what stands
    before them is alike at the start of a line, so is what stands before the cuts. -/
theorem Rewrapped.exists_cut {s s' : Text} (h : Rewrapped s s') {b b' : Text} (hb : Headed b ↔ Headed b')
    {a r : Text} (hs : s = a ++ r) (hr : BeginsVisible r) :
    ∃ a' r', s' = a' ++ r' ∧ Rewrapped r r' ∧ (Headed (b ++ a) ↔ Headed (b' ++ a')) := by
  -- By steps of going along: b and b' are what both have passed by then.
  induction h generalizing a b b' with
  | blank hu hu' => exact absurd (hs ▸ hu) (hr.not_blank a)
  | @letter x x' s s' hx hlower h ih =>
    cases a with
    | nil =>
      refine ⟨[], x' :: s', rfl, ?_, by simpa using hb⟩
      rw [← show x :: s = r from hs]
      exact .letter hx hlower h
    | cons y a =>
      obtain ⟨rfl, hrest⟩ := List.cons.inj hs
      have hvisible : Headed (b ++ [x]) ↔ Headed (b' ++ [x']) :=
        iff_of_false (not_headed_append_visible hx b) (not_headed_append_visible (isBlank_congr hlower ▸ hx) b')
      obtain ⟨a', r', rfl, hr', hhead⟩ := ih hvisible hrest
      exact ⟨x' :: a', r', rfl, hr', by simpa using hhead⟩
  | @gap g g' s s' hg hg' hbreak hvisible h ih =>
    -- The cut is not inside of the gap, since something visible follows it.
    obtain ⟨c, rfl, hrest⟩ := exists_behind_blank hg.blank hr hs
    have hblank : Headed (b ++ g) ↔ Headed (b' ++ g') := by
      rw [headed_append_blank hg.blank, headed_append_blank hg'.blank, hb, hbreak]
    obtain ⟨a', r', rfl, hr', hhead⟩ := ih hblank hrest
    exact ⟨g' ++ a', r', by simp, hr', by simpa using hhead⟩

/-- Texts of the same wording can be cut at the same places in front of something visible. -/
theorem SameWording.exists_cut {s s' : Text} (h : SameWording s s') {a r : Text} (hs : s = a ++ r)
    (hr : BeginsVisible r) : ∃ a' r', s' = a' ++ r' ∧ Rewrapped r r' ∧ (Headed a ↔ Headed a') := by
  have hblank : ∀ t : Text, Blank (t.takeWhile isBlank) := fun _ _ => List.mem_takeWhile_imp
  have hsplit : ∀ t : Text, t.takeWhile isBlank ++ trimStart t = t := fun _ => List.takeWhile_append_dropWhile
  have hhead : ∀ t : Text, Headed (t.takeWhile isBlank) := fun t => ⟨[], _, rfl, .inl rfl, hblank t⟩
  obtain ⟨c, rfl, hc⟩ := exists_behind_blank (hblank s) hr ((hsplit s).trans hs)
  obtain ⟨a', r', hs', hr', hiff⟩ := (rewrapped_of_sameWording h).exists_cut (iff_of_true (hhead s) (hhead s')) hc hr
  refine ⟨s'.takeWhile isBlank ++ a', r', ?_, hr', hiff⟩
  rw [List.append_assoc, ← hs', hsplit]

end Text

/-! ## (3) Patterns that carry over -/

open Text

namespace Pattern

/-- Where the pattern reads from a text, it reads from any that goes along with it. `firm`: it
    begins with something visible. `loose`: it may end inside white space, so that what comes
    next has to begin with something visible. -/
structure Carries (p : Pattern) (firm loose : Bool) : Prop where
  unanchored : p.isUnanchored = true
  begins : firm = true → ∀ {s r : Text}, p.Reads s r → BeginsVisible s
  passes : ∀ {s s' r : Text}, Rewrapped s s' → p.Reads s r → (loose = true → BeginsVisible r) →
    ∃ r', p.Reads s' r' ∧ Rewrapped r r'

namespace Carries

variable {p q : Pattern} {firm loose firm' loose' : Bool}

theorem weaken (h : Carries p firm loose) (hfirm : firm' = true → firm = true) (hloose : loose = true → loose' = true) :
    Carries p firm' loose' where
  unanchored := h.unanchored
  begins hf := h.begins (hfirm hf)
  passes hs hreads hr := h.passes hs hreads fun hl => hr (hloose hl)

theorem empty : Carries .empty false false where
  unanchored := rfl
  begins := nofun
  passes hs hreads _ := by
    cases hreads
    exact ⟨_, .empty _, hs⟩

theorem seq (hp : Carries p firm loose) (hq : Carries q firm' loose') (h : loose = true → firm' = true) :
    Carries (.seq p q) firm loose' where
  unanchored := Bool.and_eq_true_iff.mpr ⟨hp.unanchored, hq.unanchored⟩
  begins hf s r hreads := by
    cases hreads with
    | seq hm _ => exact hp.begins hf hm
  passes hs hreads hr := by
    cases hreads with
    | seq hm hr' =>
      obtain ⟨m', hm', hrest⟩ := hp.passes hs hm fun hl => hq.begins (h hl) hr'
      obtain ⟨r', hr', hrest⟩ := hq.passes hrest hr' hr
      exact ⟨r', .seq hm' hr', hrest⟩

theorem alt (hp : Carries p firm loose) (hq : Carries q firm loose) : Carries (.alt p q) firm loose where
  unanchored := Bool.and_eq_true_iff.mpr ⟨hp.unanchored, hq.unanchored⟩
  begins hf s r hreads := by
    cases hreads with
    | left _ hreads => exact hp.begins hf hreads
    | right _ hreads => exact hq.begins hf hreads
  passes hs hreads hr := by
    cases hreads with
    | left _ hreads =>
      obtain ⟨r', hr', hrest⟩ := hp.passes hs hreads hr
      exact ⟨r', .left _ hr', hrest⟩
    | right _ hreads =>
      obtain ⟨r', hr', hrest⟩ := hq.passes hs hreads hr
      exact ⟨r', .right _ hr', hrest⟩

theorem opt (hp : Carries p firm false) : Carries (.opt p) false false :=
  .alt (hp.weaken nofun id) .empty

theorem blanks : Carries (many isBlank) false true where
  unanchored := rfl
  begins := nofun
  passes hs hreads hr := by
    cases hreads with
    | many hu r =>
      obtain ⟨g', r', rfl, hg', -, hrest⟩ := hs.append_visible hu (hr rfl)
      exact ⟨r', .many hg' r', hrest⟩

theorem anything : Carries (many fun _ => true) false true where
  unanchored := rfl
  begins := nofun
  passes hs hreads hr := by
    cases hreads with
    | many hu r =>
      have hsame : Headed [] ↔ Headed [] := Iff.rfl
      obtain ⟨a', r', rfl, hrest, -⟩ := hs.exists_cut hsame rfl (hr rfl)
      exact ⟨r', .many (fun _ _ => rfl) r', hrest⟩

end Carries

end Pattern

namespace Phrase

open Pattern (Carries)

theorem fold_toLower (c : Char) : fold c.toLower = fold c := by
  rcases Text.toLower_cases c with h | ⟨hge, hle, h⟩
  · rw [h]
  · have hlong : ∀ d : Char, d.toNat ≤ 122 → fold d = d.toLower := by
      intro d hd
      have hs : d ≠ '\u017F' := by
        rintro rfl
        exact absurd hd (by decide)
      have hk : d ≠ '\u212A' := by
        rintro rfl
        exact absurd hd (by decide)
      rw [fold, if_neg (by simpa using hs), if_neg (by simpa using hk)]
    rw [hlong c (by omega), hlong _ (by omega)]
    rcases Text.toLower_cases c.toLower with h' | ⟨_, hle', _⟩
    · exact h'
    · omega

theorem fold_congr {x y : Char} (h : x.toLower = y.toLower) : fold x = fold y := by
  rw [← fold_toLower x, h, fold_toLower]

theorem isBlank_fold {x : Char} (hx : isBlank x = true) : isBlank (fold x) = true := by
  unfold fold
  split
  · next h =>
    rw [beq_iff_eq.mp h] at hx
    revert hx
    decide
  · split
    · next h =>
      rw [beq_iff_eq.mp h] at hx
      revert hx
      decide
    · rw [isBlank_toLower]
      exact hx

/-- A character that a phrase can spell: a space, or one that reads nothing blank. -/
def isPlain (c : Char) : Bool := c == ' ' || !isBlank (fold c)

def isTight : Text → Bool
  | c :: d :: w => isPlain c && !(c == ' ' && d == ' ') && isTight (d :: w)
  | w => w.all isPlain

theorem carries_letter {c : Char} (hc : c ≠ ' ') (hplain : isPlain c = true) : Carries (letter c) true false := by
  have hfold : isBlank (fold c) = false := by simpa [isPlain, hc] using hplain
  have hvisible : ∀ {x : Char}, fold x = fold c → isBlank x = false := by
    intro x hx
    refine Bool.eq_false_iff.mpr fun hblank => ?_
    have h := isBlank_fold hblank
    rw [hx, hfold] at h
    cases h
  refine ⟨isUnanchored_letter c, fun _ s r hreads => ?_, fun hs hreads _ => ?_⟩
  · obtain ⟨x, rfl, hx⟩ := (reads_letter hc).mp hreads
    exact ⟨x, r, rfl, hvisible hx⟩
  · obtain ⟨x, rfl, hx⟩ := (reads_letter hc).mp hreads
    obtain ⟨x', r', rfl, hlower, hrest⟩ := hs.cons_visible (hvisible hx)
    exact ⟨r', (reads_letter hc).mpr ⟨x', rfl, (fold_congr hlower).symm.trans hx⟩, hrest⟩

theorem carries_gap : Carries gap false true where
  unanchored := rfl
  begins := nofun
  passes hs hreads hr := by
    obtain ⟨g, rfl, hne, hg⟩ := reads_gap.mp hreads
    obtain ⟨g', r', rfl, hg', hne', hrest⟩ := hs.append_visible hg (hr rfl)
    exact ⟨r', reads_gap.mpr ⟨g', rfl, hne' hne, hg'⟩, hrest⟩

/-- What is spelled out begins firmly unless with a space, and ends loosely only with a space. -/
theorem carries_spelled : ∀ {w : Text}, isTight w = true →
    Carries (spelled w) (w.head?.any (· != ' ')) (w.getLast?.any (· == ' '))
  | [], _ => .empty
  | [c], h => by
    by_cases hc : c = ' '
    · subst hc
      exact carries_gap
    · have hplain : isPlain c = true := by simpa [isTight] using h
      exact (carries_letter hc hplain).weaken (fun _ => rfl) nofun
  | c :: d :: w, h => by
    rw [isTight, Bool.and_eq_true, Bool.and_eq_true] at h
    obtain ⟨⟨hplain, hspaces⟩, htight⟩ := h
    have hrest := carries_spelled htight
    by_cases hc : c = ' '
    · subst hc
      have hd : d ≠ ' ' := by simpa using hspaces
      exact carries_gap.seq hrest fun _ => by simpa using hd
    · exact ((carries_letter hc hplain).seq hrest nofun).weaken (fun _ => rfl) fun hloose => hloose

def isFirm (w : Text) : Bool := isTight w && w.head?.any (· != ' ') && !w.getLast?.any (· == ' ')

theorem carries_firm {w : Text} (h : isFirm w = true) : Carries (spelled w) true false := by
  rw [isFirm, Bool.and_eq_true, Bool.and_eq_true, Bool.not_eq_true'] at h
  obtain ⟨⟨htight, hfirst⟩, hlast⟩ := h
  have hcarries := carries_spelled htight
  rwa [hfirst, hlast] at hcarries

end Phrase

/-! ## (4) The phrases -/

namespace Pattern

inductive Portable : Pattern → Prop
  | body {p : Pattern} (h : Carries p true false) : Portable p
  | title {p : Pattern} (h : Carries p true false) : Portable (seqAll [lineStart, many isBlank, p])

theorem Portable.foundIn {p : Pattern} (hp : Portable p) {s s' : Text} (h : SameWording s s')
    (hfound : p.foundIn s = true) : p.foundIn s' = true := by
  cases hp with
  | body hp =>
    obtain ⟨a, r, t, hs, hreads⟩ := (foundIn_iff_reads hp.unanchored).mp hfound
    obtain ⟨a', r', hs', hr', -⟩ := h.exists_cut hs (hp.begins rfl hreads)
    obtain ⟨t', hreads', -⟩ := hp.passes hr' hreads nofun
    exact (foundIn_iff_reads hp.unanchored).mpr ⟨a', r', t', hs', hreads'⟩
  | title hp =>
    obtain ⟨a, r, t, hs, hhead, hreads⟩ := (foundIn_lineHead_iff hp.unanchored).mp hfound
    obtain ⟨a', r', hs', hr', hiff⟩ := h.exists_cut hs (hp.begins rfl hreads)
    obtain ⟨t', hreads', -⟩ := hp.passes hr' hreads nofun
    exact (foundIn_lineHead_iff hp.unanchored).mpr ⟨a', r', t', hs', hiff.mp hhead, hreads'⟩

end Pattern

namespace Phrase

open Pattern (Carries Portable seqAll alt opt seq many)

theorem carries_comma : Carries comma false false := (carries_spelled (by decide : isTight ",".toList = true)).opt

theorem portable_title {w : Text} (h : isFirm w = true) : Portable (title w) := .title (carries_firm h)

theorem portable_spelled {w : Text} (h : isFirm w = true) : Portable (spelled w) := .body (carries_firm h)

theorem carries_binaryForms : Carries binaryForms true false := carries_firm (by decide)

theorem portable_mozilla : Portable (seqAll [spelled "Mozilla Public License".toList, comma, gap,
    alt (seq (spelled "v.".toList) (many isBlank)) (spelled "Version ".toList), spelled "2.0".toList]) := by
  have hname : Carries (spelled "Mozilla Public License".toList) true false := carries_firm (by decide)
  have hshort : Carries (spelled "v.".toList) true false := carries_firm (by decide)
  have hlong : Carries (spelled "Version ".toList) true true := carries_spelled (by decide)
  have hnumber : Carries (spelled "2.0".toList) true false := carries_firm (by decide)
  have hversion := (hshort.seq .blanks nofun).alt hlong
  exact .body (hname.seq (carries_comma.seq (carries_gap.seq (hversion.seq hnumber fun _ => rfl) fun _ => rfl) nofun) nofun)

theorem portable_apache : Portable (seqAll [spelled "Apache License".toList, comma, spelled " Version 2.0".toList]) := by
  have hname : Carries (spelled "Apache License".toList) true false := carries_firm (by decide)
  have hversion : Carries (spelled " Version 2.0".toList) false false := carries_spelled (by decide)
  exact .body (hname.seq (carries_comma.seq hversion nofun) nofun)

theorem portable_isc : Portable (seqAll [spelled "Permission to use, copy, modify, and".toList, opt (spelled "/or".toList),
    spelled " distribute this software for any purpose".toList]) := by
  have huse : Carries (spelled "Permission to use, copy, modify, and".toList) true false := carries_firm (by decide)
  have hor : Carries (spelled "/or".toList) true false := carries_firm (by decide)
  have hdistribute : Carries (spelled " distribute this software for any purpose".toList) false false :=
    carries_spelled (by decide)
  exact .body (huse.seq (hor.opt.seq hdistribute nofun) nofun)

theorem portable_bsd : Portable (seqAll [binaryForms, many fun _ => true, spelled "Neither the name".toList]) := by
  have hname : Carries (spelled "Neither the name".toList) true false := carries_firm (by decide)
  exact .body (carries_binaryForms.seq (Carries.anything.seq hname fun _ => rfl) nofun)

theorem portable_of_mem_all : ∀ x ∈ all, Portable x.pattern := by
  simp only [all, List.forall_mem_cons]
  exact ⟨portable_title (by decide), portable_title (by decide), portable_title (by decide),
    portable_title (by decide), portable_title (by decide), portable_title (by decide), portable_mozilla,
    portable_apache, portable_spelled (by decide), portable_spelled (by decide), portable_spelled (by decide),
    portable_spelled (by decide), portable_isc, portable_spelled (by decide), portable_bsd,
    .body carries_binaryForms, nofun⟩

end Phrase

namespace Detection

theorem byPhrase_sameWording {s s' : Text} (h : SameWording s s') : byPhrase s = byPhrase s' := by
  have hfound : ∀ x ∈ Phrase.all, x.pattern.foundIn s = x.pattern.foundIn s' := by
    intro x hx
    have hx := Phrase.portable_of_mem_all x hx
    exact Bool.eq_iff_iff.mpr ⟨hx.foundIn h, hx.foundIn h.symm⟩
  rw [byPhrase, byPhrase, List.find?_congr hfound]

/-- Texts without a tag that have the same wording are under the same license: how they are
    indented and wrapped and whether their letters are capitals does not matter. -/
theorem license_sameWording {s s' : Text} (hs : mentions Tag.mark s = false) (hs' : mentions Tag.mark s' = false)
    (h : SameWording s s') : license s = license s' := by
  rw [license_of_unmarked hs, license_of_unmarked hs', byPhrase_sameWording h]

/-- The heading of the GPL, and the same in small letters, indented, with line breaks of two
    characters and an empty line. -/
theorem license_sameWording_heading :
    license "GNU GENERAL PUBLIC LICENSE\n  Version 2, June 1991".toList =
      license "\tgnu general public  license\r\n\r\nversion 2, june 1991\r\n".toList :=
  license_sameWording (by decide) (by decide) ⟨by decide, by decide⟩

end Detection

end Attribution
